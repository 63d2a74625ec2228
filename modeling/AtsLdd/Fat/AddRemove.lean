/-
Adding the entries of a file and removing them again.

- `fatAddEntries_added`, as facts about slots: `AddedAt.slots`;
- `fatRemoveEntries_removed`: the slots of a row are marked as deleted, and no other slot of the directory changes, when the
  directory does not hold its own entry;
- `add_remove_exact`: a call that succeeds and the removal of what it added are exact if and only if the new clusters can be
  linked to, and a directory that is written through does not hold its own entry.
-/
import AtsLdd.Fat.ChainEnd
import AtsLdd.Fat.RemoveEntries

namespace AtsLdd.Fat

open AtsLdd.Machine AtsLdd.ByteMap AtsLdd.LinkTable AtsLdd.Paged

/-! ## Exactness -/

/-- the slots from slot `i` on hold `slots`, and no other slot of the directory of the clusters `l` has changed; it has grown
by the clusters `cs` -/
structure SlotsAdded (sb : FatSb) (s : St) (l : List ℤ) (slots : List UInt8) (nr : ℕ) (r : AddEntries) (cs : List ℤ) (i : ℕ) :
    Prop where
  dirOn : DirOn sb r.s.vol r.dir.toInode (l ++ cs)
  fits : i + nr ≤ nrSlots sb (l ++ cs)
  /-- they were free, or are in new clusters -/
  free : ∀ j < nr, i + j < nrSlots sb l → IsFree (slot sb l s.vol (i + j))
  new : ∀ c ∈ cs, fatVal sb s.vol c = FAT_ENT_FREE
  written : ∀ j < nr, ∀ k < DENT_SIZE, slots[DENT_SIZE * j + k]? = some (slot sb (l ++ cs) r.s.vol (i + j) k)
  kept : ∀ j < nrSlots sb l, j < i ∨ i + nr ≤ j → ∀ k < DENT_SIZE, slot sb (l ++ cs) r.s.vol j k = slot sb l s.vol j k
  /-- the last of them is returned -/
  sinfo : r.sinfo = some (rowInfo sb (l ++ cs) i nr)

/-- the `nr` slots from slot `i` on are marked as deleted, and no other slot of the directory has changed -/
structure SlotsRemoved (sb : FatSb) (l : List ℤ) (vol vol' : Vol) (nr i : ℕ) : Prop where
  removed : ∀ j < nr, ∀ k < DENT_SIZE, slot sb l vol' (i + j) k = if k = 0 then DELETED_FLAG else slot sb l vol (i + j) k
  kept : ∀ j < nrSlots sb l, j < i ∨ i + nr ≤ j → ∀ k < DENT_SIZE, slot sb l vol' j k = slot sb l vol j k

/-- a call that has added slots, and a removal that follows it in which the blocks of the directory can be read, and written
where it is written through -/
def AddRemoveExact (sb : FatSb) (s : St) (l : List ℤ) (slots : List UInt8) (nr : ℕ) (r : AddEntries) : Prop :=
  ∃ cs i, SlotsAdded sb s l slots nr r cs i ∧ ∀ sinfo, r.sinfo = some sinfo → ∀ env now, Readable env sb (l ++ cs) →
    (r.dir.dirsync = true → Writable env sb (l ++ cs)) →
    (fatRemoveEntries env sb r.s r.dir sinfo now).err = 0 ∧
      SlotsRemoved sb (l ++ cs) r.s.vol (fatRemoveEntries env sb r.s r.dir sinfo now).s.vol nr i

/-- a directory that is written through, with an entry that `fat_sync_inode` writes, does not hold it in one of its blocks -/
def EntryApart (sb : FatSb) (dir : DirInode) (l : List ℤ) : Prop :=
  dir.dirsync = true → dir.isRoot = false → dir.iPos ≠ 0 → ∀ q < nrBlocks sb l, dirBlock sb l q ≠ iPosBlock sb dir.iPos

/-- the directory has `nr` free slots in a row, or none of the clusters that are linked to has the number of the bad mark; and
it does not hold its own entry, in its blocks or in those that it gets -/
def AddFits (sb : FatSb) (s : St) (dir : DirInode) (l : List ℤ) (nr : ℕ) : Prop :=
  let k := nrCluster sb (nr - freeTail (slotMarks sb l s.vol))
  HasRun (slotMarks sb l s.vol) nr ∧ EntryApart sb dir l ∨
    BAD_FAT32 ∉ linkedTo sb ⟨dir, s⟩ k ∧ EntryApart sb dir (l ++ (freeEntries sb s.vol s.prevFree).take k)

section
variable {env : Env} {sb : FatSb} {s : St} {dir : DirInode} {l cs : List ℤ} {vol vol' : Vol} {i nr : ℕ} {slots : List UInt8}
  {r : AddEntries}

/-! ## Slots -/

/-- the bytes of a slot are bytes of the directory -/
theorem slot_lt_nrBytes (hi : i < nrSlots sb l) {k : ℕ} (hk : k < DENT_SIZE) : DENT_SIZE * i + k < nrBytes sb l := by
  rw [nrBytes_eq]
  have hle : DENT_SIZE * (i + 1) ≤ DENT_SIZE * nrSlots sb l := Nat.mul_le_mul_left _ hi
  rw [Nat.mul_succ] at hle
  omega

/-- a slot of the directory before it has grown -/
theorem slot_append_left (hi : i < nrSlots sb l) (vol : Vol) : slot sb (l ++ cs) vol i = slot sb l vol i := by
  unfold slot slotBlock
  rw [dirBlock_append_left (slot_block hi)]

/-- **The slots after a call**, and the others. -/
theorem AddedAt.slots_spec (h : AddedAt sb s l cs slots nr i r) (hlen : slots.length = DENT_SIZE * nr) :
    (∀ j < nr, ∀ k < DENT_SIZE, slots[DENT_SIZE * j + k]? = some (slot sb (l ++ cs) r.s.vol (i + j) k)) ∧
      ∀ j < nrSlots sb l, j < i ∨ i + nr ≤ j → ∀ k < DENT_SIZE, slot sb (l ++ cs) r.s.vol j k = slot sb l s.vol j k := by
  obtain ⟨zeros, hzeros, hbytes⟩ := h.bytes
  refine ⟨fun j hj k hk => ?_, fun j hj hout k hk => ?_⟩
  · have hlt : DENT_SIZE * j + k < slots.length := by
      have hle : DENT_SIZE * (j + 1) ≤ DENT_SIZE * nr := Nat.mul_le_mul_left _ hj
      rw [Nat.mul_succ] at hle
      omega
    have hfits := h.fits
    rw [slot_dirBytes sb _ _ _ hk, hbytes _ (slot_lt_nrBytes (by omega) hk), List.getElem?_eq_getElem hlt]
    have hidx : DENT_SIZE * (i + j) + k - DENT_SIZE * i = DENT_SIZE * j + k := by
      rw [Nat.mul_add]
      omega
    have hmul : DENT_SIZE * (i + j) = DENT_SIZE * i + DENT_SIZE * j := Nat.mul_add _ _ _
    rw [splice_of_mem (by omega) (by rw [hidx, List.length_append]; omega)]
    simp only [hidx, List.getElem_append_left hlt]
  · have hin : j < nrSlots sb (l ++ cs) := by
      unfold nrSlots at hj ⊢
      rw [nrBlocks_append, Nat.add_mul]
      omega
    rw [slot_dirBytes sb _ _ _ hk, hbytes _ (slot_lt_nrBytes hin hk), splice_of_not_mem, ← slot_dirBytes sb _ _ _ hk,
      slot_append_left hj]
    rintro ⟨h1, h2⟩
    rw [List.length_append, hlen, List.length_replicate] at h2
    rcases hout with hbefore | hbehind
    · have hle : DENT_SIZE * (j + 1) ≤ DENT_SIZE * i := Nat.mul_le_mul_left _ hbefore
      rw [Nat.mul_succ] at hle
      omega
    · have hle : DENT_SIZE * (i + nr) ≤ DENT_SIZE * j := Nat.mul_le_mul_left _ hbehind
      rw [Nat.mul_add] at hle
      omega

/-- the slots after marking, and the others -/
theorem Marked.removed (h : Marked sb l vol vol' i nr) (hle : i + nr ≤ nrSlots sb l) : SlotsRemoved sb l vol vol' nr i := by
  have hpos : 0 < DENT_SIZE := by decide
  have hbyte : ∀ j < nrSlots sb l, ∀ k < DENT_SIZE, slot sb l vol' j k =
      if k = 0 ∧ i ≤ j ∧ j < i + nr then DELETED_FLAG else slot sb l vol j k := by
    intro j hj k hk
    rw [slot_dirBytes sb _ _ _ hk, h.bytes _ (slot_lt_nrBytes hj hk), slot_dirBytes sb _ _ _ hk]
    unfold strided
    have hiff : (∃ x < nr, DENT_SIZE * j + k = DENT_SIZE * i + DENT_SIZE * x) ↔ k = 0 ∧ i ≤ j ∧ j < i + nr := by
      constructor
      · rintro ⟨x, hx, heq⟩
        rw [← Nat.mul_add] at heq
        have hk0 : k = 0 := by
          have hmod := congrArg (· % DENT_SIZE) heq
          simp only [Nat.mul_add_mod, Nat.mul_mod_right, Nat.mod_eq_of_lt hk] at hmod
          exact hmod
        rw [hk0, Nat.add_zero] at heq
        have hjx := Nat.eq_of_mul_eq_mul_left hpos heq
        omega
      · rintro ⟨rfl, h1, h2⟩
        exact ⟨j - i, by omega, by rw [← Nat.mul_add, Nat.add_sub_cancel' h1, Nat.add_zero]⟩
    simp only [hiff]
  refine ⟨fun j hj k hk => ?_, fun j hj hout k hk => ?_⟩
  · rw [hbyte (i + j) (by omega) k hk]
    simp only [Nat.le_add_right, Nat.add_lt_add_iff_left, hj, and_true]
  · rw [hbyte j hj k hk, if_neg (by omega)]

/-! ## Writing the inode of the directory back -/

/-- writing an inode back stores nothing but the block of its entry -/
theorem fatSyncInode_frame (env : Env) (s : St) {b : ℕ} (hb : b ≠ iPosBlock sb dir.iPos) :
    (fatSyncInode env sb s dir).2.vol b = s.vol b := by
  unfold fatSyncInode
  split_ifs
  · rfl
  · rfl
  · simp only
    cases hread : env.bread s.t (iPosBlock sb dir.iPos) with
    | false => rw [sbBread_fail hread]
    | true =>
      rw [sbBread_ok hread]
      simp only [syncDirtyBuffer]
      split_ifs
      · exact Function.update_of_ne hb _ _
      · exact (Function.update_of_ne hb _ _).trans (Function.update_of_ne hb _ _)

/-- **`fat_remove_entries`** marks the slots of a row as deleted, and changes no other slot. -/
theorem fatRemoveEntries_removed (hdir : DirOn sb s.vol dir.toInode l) (hread : Readable env sb l)
    (hwrite : dir.dirsync = true → Writable env sb l) (hapart : EntryApart sb dir l) (hnr : 0 < nr)
    (hle : i + nr ≤ nrSlots sb l) (now : FatTime) :
    (fatRemoveEntries env sb s dir (rowInfo sb l i nr) now).err = 0 ∧
      SlotsRemoved sb l s.vol (fatRemoveEntries env sb s dir (rowInfo sb l i nr) now).s.vol nr i := by
  obtain ⟨s', hmark, heq⟩ := fatRemoveEntries_marks hdir hread hwrite hnr hle now
  rw [heq]
  refine ⟨rfl, ?_⟩
  have hrem := hmark.removed hle
  -- the blocks of the directory are not written again
  have hblock : ∀ q < nrBlocks sb l, (if dir.dirsync = true then (fatSyncInode env sb s' { dir with mtime := now }).2 else s').vol
      (dirBlock sb l q) = s'.vol (dirBlock sb l q) := by
    intro q hq
    cases hsync : dir.dirsync with
    | false => rfl
    | true =>
      simp only [if_true]
      by_cases hnone : dir.isRoot = true ∨ dir.iPos = 0
      · unfold fatSyncInode
        rcases hnone with hroot | hzero
        · simp only [hroot, if_true]
        · simp only [hzero, if_true]
          split_ifs <;> rfl
      · rw [not_or] at hnone
        exact fatSyncInode_frame env s' (hapart hsync (Bool.eq_false_iff.2 hnone.1) hnone.2 q hq)
  have hslot : ∀ j < nrSlots sb l, slot sb l (if dir.dirsync = true then (fatSyncInode env sb s' { dir with mtime := now }).2
      else s').vol j = slot sb l s'.vol j := by
    intro j hj
    unfold slot entAt slotBlock
    rw [hblock _ (slot_block hj)]
  simp only
  refine ⟨fun j hj k hk => ?_, fun j hj hout k hk => ?_⟩
  · rw [hslot (i + j) (by omega)]
    exact hrem.removed j hj k hk
  · rw [hslot j hj]
    exact hrem.kept j hj hout k hk

/-- the date in the entry that is written back -/
theorem rawEntry_date (dir : DirInode) (buf : Buf) (off : ℕ) :
    rawEntry dir buf off (off + 24) = UInt8.ofNat ((dir.mtime.date : ℤ) % 2 ^ 8).toNat := by
  unfold rawEntry
  rw [splice_of_mem (by omega) (by simp [le16Bytes])]
  have hidx : off + 24 - (off + 20) = 4 := by omega
  simp only [hidx]
  rfl

/-- **A directory that holds its own entry** has another date in it after the removal. -/
theorem entryApart_of_removed (hdir : DirOn sb s.vol dir.toInode l) (hnr : 0 < nr) (hle : i + nr ≤ nrSlots sb l)
    (h : ∀ env now, Readable env sb l → (dir.dirsync = true → Writable env sb l) →
      SlotsRemoved sb l s.vol (fatRemoveEntries env sb s dir (rowInfo sb l i nr) now).s.vol nr i) : EntryApart sb dir l := by
  intro hsync hroot hpos q hq heq
  have hoff : dir.iPos % sb.dirPerBlock < sb.dirPerBlock := Nat.mod_lt _ (dirPerBlock_pos sb)
  obtain ⟨hdiv, hmod⟩ := page_cell (q := q) hoff
  obtain ⟨j, hj⟩ : ∃ j, j = q * sb.dirPerBlock + dir.iPos % sb.dirPerBlock := ⟨_, rfl⟩
  rw [← hj] at hdiv hmod
  have hin : j < nrSlots sb l := by
    have hmul : (q + 1) * sb.dirPerBlock ≤ nrSlots sb l := Nat.mul_le_mul_right _ hq
    rw [Nat.succ_mul] at hmul
    omega
  -- the slot of the entry, and the date in it
  have hdate : ∀ now : FatTime, slot sb l s.vol j 24 = UInt8.ofNat ((now.date : ℤ) % 2 ^ 8).toNat := by
    intro now
    have hread : Readable goodEnv sb l := ⟨fun _ _ _ => rfl, fun _ _ _ => rfl⟩
    have hwrite : dir.dirsync = true → Writable goodEnv sb l := fun _ _ _ _ => rfl
    obtain ⟨s', -, hres⟩ := fatRemoveEntries_marks hdir hread hwrite hnr hle now
    have hrem := h goodEnv now hread hwrite
    rw [hres] at hrem
    simp only [hsync, if_true] at hrem
    have hkeep : slot sb l (fatSyncInode goodEnv sb s' { dir with mtime := now }).2.vol j 24 = slot sb l s.vol j 24 := by
      by_cases hrow : i ≤ j ∧ j < i + nr
      · have hslot := hrem.removed (j - i) (by omega) 24 (by decide)
        rwa [Nat.add_sub_cancel' hrow.1, if_neg (by decide)] at hslot
      · exact hrem.kept j hin (by omega) 24 (by decide)
    rw [← hkeep]
    have hplace : slotOff sb j = iPosOffset sb dir.iPos := by
      unfold slotOff iPosOffset
      rw [hmod, dirPerBlock_eq]
      rfl
    unfold slot entAt slotBlock
    rw [hdiv, heq, hplace]
    unfold fatSyncInode
    simp only [hroot, Bool.false_eq_true, if_false, if_neg hpos, sbBread_ok (show goodEnv.bread _ _ = true from rfl), syncDirtyBuffer,
      if_pos (show goodEnv.sync _ _ = true from rfl)]
    change Function.update s'.vol (iPosBlock sb dir.iPos) (rawEntry { dir with mtime := now } _ _) (iPosBlock sb dir.iPos) _ = _
    rw [Function.update_self]
    exact rawEntry_date _ _ _
  have h1 := hdate ⟨0, 33⟩
  rw [hdate ⟨0, 34⟩] at h1
  exact absurd h1 (by decide)

/-! ## The directory after a call -/

theorem AddedAt.added (h : AddedAt sb s l cs slots nr i r) (hlen : slots.length = DENT_SIZE * nr)
    (hdir : DirOn sb r.s.vol r.dir.toInode (l ++ cs)) : SlotsAdded sb s l slots nr r cs i := by
  obtain ⟨hwritten, hkept⟩ := h.slots_spec hlen
  refine ⟨hdir, h.fits, fun j hj hin => ?_, h.new, hwritten, hkept, h.sinfo⟩
  exact h.free _ (Nat.le_add_right i j) (Nat.add_lt_add_left hj i) hin

/-- the place of the entry of a directory does not change when it grows -/
theorem Grown.entryApart {s' : St} {dir' : DirInode} (h : Grown sb s dir l cs s' dir') (l' : List ℤ) :
    EntryApart sb dir' l' ↔ EntryApart sb dir l' := by
  rw [h.dir]
  split_ifs
  · exact Iff.rfl
  · exact Iff.rfl

/-- a directory below the maximum size can grow by the clusters of 21 slots -/
theorem grown_limit (hsmall : nrBytes sb l < FAT_MAX_DIR_SIZE) {left : ℕ} (hleft : 0 < left) (h21 : left ≤ 21) :
    l.length + nrCluster sb left ≤ clusterLimit sb + 1 := by
  obtain ⟨hlt, -⟩ := nrCluster_spec sb hleft
  have hone := nrCluster_pos sb hleft
  rw [nrBytes_clusters] at hsmall
  have hbytes : DENT_SIZE * left ≤ DENT_SIZE * 21 := Nat.mul_le_mul_left _ h21
  have hmax : FAT_MAX_DIR_SIZE + DENT_SIZE * 21 ≤ S_MAXBYTES := by decide
  have hsum : (l.length + (nrCluster sb left - 1)) * sb.clusterSize ≤ S_MAXBYTES := by
    rw [Nat.add_mul]
    omega
  have hle : l.length + (nrCluster sb left - 1) ≤ clusterLimit sb := by
    unfold clusterLimit
    rw [← sb.clusterSize_eq]
    exact (Nat.le_div_iff_mul_le sb.clusterSize_pos).2 hsum
  omega

theorem Grown.dirOn {s' : St} {dir' : DirInode} (h : Grown sb s dir l cs s' dir') (hdir : DirOn sb s.vol dir.toInode l)
    (hne : cs ≠ []) (hbad : BAD_FAT32 ∉ if dir.iStart = 0 then cs.tail else cs)
    (hlimit : l.length + cs.length ≤ clusterLimit sb + 1) : DirOn sb s'.vol dir'.toInode (l ++ cs) where
  chain := h.dirChain hdir.chain hne hbad
  size := by
    rw [List.length_append, h.iSize]
    exact addSize_iSize hdir.size cs.length
  limit := by
    rw [List.length_append]
    exact hlimit

/-- slots that are added to a directory apart from its own entry, and removed -/
theorem SlotsAdded.exact (h : SlotsAdded sb s l slots nr r cs i) (hnr : 0 < nr) (hapart : EntryApart sb r.dir (l ++ cs)) :
    AddRemoveExact sb s l slots nr r := by
  refine ⟨cs, i, h, fun sinfo hsinfo env now hread hwrite => ?_⟩
  rw [h.sinfo, Option.some.injEq] at hsinfo
  rw [← hsinfo]
  exact fatRemoveEntries_removed h.dirOn hread hwrite hapart hnr h.fits now

/-- a removal that is exact is of a directory apart from its own entry -/
theorem SlotsAdded.entryApart (h : SlotsAdded sb s l slots nr r cs i) (hnr : 0 < nr)
    (hrem : ∀ sinfo, r.sinfo = some sinfo → ∀ env now, Readable env sb (l ++ cs) →
      (r.dir.dirsync = true → Writable env sb (l ++ cs)) → (fatRemoveEntries env sb r.s r.dir sinfo now).err = 0 ∧
        SlotsRemoved sb (l ++ cs) r.s.vol (fatRemoveEntries env sb r.s r.dir sinfo now).s.vol nr i) :
    EntryApart sb r.dir (l ++ cs) :=
  entryApart_of_removed h.dirOn hnr h.fits fun env now hread hwrite => (hrem _ h.sinfo env now hread hwrite).2

/-- **The condition is enough.** -/
theorem Added.exact (h : Added sb s dir l slots nr r) (hdir : DirOn sb s.vol dir.toInode l)
    (hlen : slots.length = DENT_SIZE * nr) (hnr : 0 < nr) (h21 : nr ≤ 21) (hfits : AddFits sb s dir l nr) :
    AddRemoveExact sb s l slots nr r := by
  cases h with
  | @inside i run at_ hrdir same =>
    have hapart : EntryApart sb dir l := by
      rcases hfits with ⟨-, hapart⟩ | ⟨-, hapart⟩
      · exact hapart
      · intro hsync hroot hpos q hq
        have hq' : q < nrBlocks sb (l ++ (freeEntries sb s.vol s.prevFree).take
            (nrCluster sb (nr - freeTail (slotMarks sb l s.vol)))) := by
          rw [nrBlocks_append]
          exact Nat.lt_add_right _ hq
        have hne := hapart hsync hroot hpos q hq'
        rwa [dirBlock_append_left hq] at hne
    have hdir' : DirOn sb r.s.vol r.dir.toInode (l ++ []) := by
      rw [hrdir, List.append_nil]
      exact ⟨EqFat.dirChain same.vol hdir.chain, hdir.size, hdir.limit⟩
    apply (at_.added hlen hdir').exact hnr
    rw [hrdir, List.append_nil]
    exact hapart
  | @grown i cs run small clusters length left at_ link =>
    rcases hfits with ⟨hrun, -⟩ | ⟨hbad, hapart⟩
    · exact absurd hrun run
    · rw [linkedTo_eq clusters] at hbad
      rw [← clusters] at hapart
      have hne : cs ≠ [] := List.ne_nil_of_length_pos (length ▸ nrCluster_pos sb left)
      have hlimit := grown_limit small left ((Nat.sub_le _ _).trans h21)
      rw [← length] at hlimit
      exact (at_.added hlen (link.dirOn hdir hne hbad hlimit)).exact hnr ((link.entryApart _).2 hapart)

/-- **The condition is necessary.** -/
theorem Added.fits (h : Added sb s dir l slots nr r) (hdir : DirOn sb s.vol dir.toInode l) (hnr : 0 < nr)
    (hexact : AddRemoveExact sb s l slots nr r) : AddFits sb s dir l nr := by
  obtain ⟨cs', i', hadd, hrem⟩ := hexact
  have hapart := hadd.entryApart hnr hrem
  have hsize' : r.dir.iSize = (l.length + cs'.length) * sb.clusterSize := by
    rw [← List.length_append]
    exact hadd.dirOn.size
  cases h with
  | inside run _ hrdir _ =>
    -- the directory has not grown
    rw [hrdir] at hsize' hapart
    have hzero : cs' = [] := by
      have hmul : l.length * sb.clusterSize = (l.length + cs'.length) * sb.clusterSize := hdir.size.symm.trans hsize'
      have hlen := Nat.eq_of_mul_eq_mul_right sb.clusterSize_pos hmul
      exact List.length_eq_zero_iff.1 (by omega)
    rw [hzero, List.append_nil] at hapart
    exact Or.inl ⟨run, hapart⟩
  | @grown i cs run small clusters length left at_ link =>
    have hlen : cs'.length = cs.length := by
      have hsize : r.dir.iSize = (l.length + cs.length) * sb.clusterSize := link.iSize.trans (addSize_iSize hdir.size _)
      have hlen := Nat.eq_of_mul_eq_mul_right sb.clusterSize_pos (hsize'.symm.trans hsize)
      omega
    have hne : cs ≠ [] := List.ne_nil_of_length_pos (length ▸ nrCluster_pos sb left)
    -- the chain is not cut, so the new clusters are those that were linked
    have hbad : BAD_FAT32 ∉ if dir.iStart = 0 then cs.tail else cs := by
      intro hbad
      exact (link.dirChain_cut hdir.chain hne hbad hadd.dirOn.chain).ne hlen
    have hsame : l ++ cs' = l ++ cs := hadd.dirOn.chain.unique (link.dirChain hdir.chain hne hbad)
    rw [hsame] at hapart
    refine Or.inr ⟨?_, ?_⟩
    · rw [linkedTo_eq clusters]
      exact hbad
    · rw [← clusters]
      exact (link.entryApart _).1 hapart

end

/-- **Adding and removing is exact**, if and only if the slots fit. -/
theorem add_remove_exact (env : Env) {sb : FatSb} {s : St} {dir : DirInode} {l : List ℤ} (hdir : DirOn sb s.vol dir.toInode l)
    (hread : Readable env sb l) (hpf : PrevFreeOk sb s) {slots : List UInt8} {nr : ℕ} (hnr : 1 ≤ nr) (h21 : nr ≤ 21)
    (hlen : slots.length = DENT_SIZE * nr) {r : AddEntries} (hr : fatAddEntries env sb s dir slots nr = some r)
    (h0 : r.err = 0) : AddRemoveExact sb s l slots nr r ↔ AddFits sb s dir l nr := by
  have hadded := fatAddEntries_added hdir hread hpf hnr h21 hlen hr h0
  exact ⟨hadded.fits hdir hnr, hadded.exact hdir hlen hnr h21⟩

/-- `emptyDir` with 11 free slots left -/
def manyDir : DirState := addStep tinySb emptyDir addMany

/-- 21 slots are added to it, 11 of them to the free slots and the others to a new cluster -/
theorem add_remove_exact_grown : ∃ r, fatAddEntries goodEnv tinySb manyDir.s manyDir.dir addMany.slots 21 = some r ∧
    AddRemoveExact tinySb manyDir.s [3] addMany.slots 21 r := by
  have herr : (fatAddEntries goodEnv tinySb manyDir.s manyDir.dir addMany.slots 21).map AddEntries.err = some 0 := by
    decide +kernel
  obtain ⟨r, hr, h0⟩ := Option.map_eq_some_iff.1 herr
  have hdir : DirOn tinySb manyDir.s.vol manyDir.dir.toInode [3] :=
    ⟨Or.inr (.last (by decide +kernel)), by decide +kernel, by decide⟩
  have hread : Readable goodEnv tinySb [3] := ⟨fun _ _ _ => rfl, fun _ _ _ => rfl⟩
  have hpf : PrevFreeOk tinySb manyDir.s := by
    unfold PrevFreeOk
    decide +kernel
  have hsync : manyDir.dir.dirsync = false := by decide +kernel
  refine ⟨r, hr, (add_remove_exact goodEnv hdir hread hpf (by decide) (by decide) (by decide +kernel) hr h0).2 (Or.inr ⟨?_, ?_⟩)⟩
  · decide +kernel
  · exact fun h => absurd (hsync.symm.trans h) Bool.false_ne_true

/-! ## A link to the bad mark -/

/-- the largest volume: cluster 3 is a directory whose slots are all in use, and the search is about to start at the last
cluster -/
def usedVol : Vol := fun b i => if b < largeSb.dataStart then wordsVol largeSb (rowWords 3 3) b i else 1

def usedSt : St := { St.idle usedVol with freeClusters := FREE_UNKNOWN, prevFree := 0x0FFFFFF6 }

theorem usedVol_eqFat : EqFat largeSb (wordsVol largeSb (rowWords 3 3)) usedVol := by
  rintro b ⟨-, hlt⟩
  funext i
  exact if_pos (Nat.lt_of_lt_of_le hlt largeSb.fats_le)

theorem usedVol_path : Path (table largeSb usedSt.vol) dirAtThree.iStart [3] := by
  have p : Path (table largeSb (wordsVol largeSb (rowWords 3 3))) (3 : ℕ) [((3 : ℕ) : ℤ)] :=
    row_path (by decide) (by decide) (by decide) 0 3 le_rfl rfl
  rw [← usedVol_eqFat.table] at p
  exact p

theorem usedSt_bad : ∃ rest, freeEntries largeSb usedSt.vol usedSt.prevFree = BAD_FAT32 :: rest := by
  have hfree : fatVal largeSb usedVol BAD_FAT32 = FAT_ENT_FREE :=
    (usedVol_eqFat.val (by decide)).trans
      (fatVal_wordsVol (show 0x0FFFFFF7 < largeSb.maxCluster by decide) (show rowWords 3 3 0x0FFFFFF7 < 2 ^ 28 by decide))
  have hstart : wrapEntry largeSb ((usedSt.prevFree : ℕ) + 1) = BAD_FAT32 := by decide
  have hcount : largeSb.maxCluster - 2 = 0x0FFFFFF5 + 1 := by decide
  unfold freeEntries
  rw [hstart, hcount, scan_succ (by decide), List.filter_cons_of_pos (by exact decide_eq_true hfree)]
  exact ⟨_, rfl⟩

/-- **A slot that is out of reach.** The cluster for it has the number of the bad mark. -/
theorem add_remove_not_exact : ¬ ∀ (env : Env) (sb : FatSb) (s : St) (dir : DirInode) (l : List ℤ) (slots : List UInt8) (nr : ℕ)
    (r : AddEntries), DirOn sb s.vol dir.toInode l → Readable env sb l → PrevFreeOk sb s → 1 ≤ nr → nr ≤ 21 →
    slots.length = DENT_SIZE * nr → fatAddEntries env sb s dir slots nr = some r → r.err = 0 →
    AddRemoveExact sb s l slots nr r := by
  intro hall
  have hdir : DirOn largeSb usedSt.vol dirAtThree.toInode [3] := ⟨Or.inr usedVol_path, rfl, by decide⟩
  have hread : Readable goodEnv largeSb [3] := ⟨fun _ _ _ => rfl, fun _ _ _ => rfl⟩
  have hpf : PrevFreeOk largeSb usedSt := ⟨by decide, by decide⟩
  have hused : ∀ b, largeSb.dataStart ≤ b → ∀ off, ¬ IsFree (entAt usedSt.vol b off) := by
    intro b hb off
    have hone : entAt usedSt.vol b off 0 = 1 := if_neg (not_lt.2 hb)
    unfold IsFree
    rw [hone]
    decide
  obtain ⟨rest, hrest⟩ := usedSt_bad
  obtain ⟨r, hr, h0, -⟩ := fatAddEntries_grows goodEnv goodEnv_noFault hpf usedVol_path (by decide) (by decide) hused
    (show 0 < 1 by decide) (by decide) rfl (by rw [hrest]; exact Nat.le_add_left 1 _) (List.replicate 32 65)
  have hexact := hall goodEnv largeSb usedSt dirAtThree [3] _ 1 r hdir hread hpf le_rfl (by decide) (by decide) hr h0
  have hadded := fatAddEntries_added hdir hread hpf le_rfl (by decide) (by decide) hr h0
  -- the slots do not fit
  have hmarks : slotMarks largeSb [3] usedSt.vol = List.replicate 16 false := by decide +kernel
  rcases hadded.fits hdir Nat.one_pos hexact with ⟨⟨i, hrun⟩, -⟩ | ⟨hbad, -⟩
  · have hmem := List.mem_of_getElem? (hrun 0 Nat.one_pos)
    rw [hmarks] at hmem
    exact absurd (List.eq_of_mem_replicate hmem) (by decide)
  · have hk : nrCluster largeSb (1 - freeTail (slotMarks largeSb [3] usedSt.vol)) = 1 := by
      rw [hmarks]
      decide
    rw [hk] at hbad
    apply hbad
    unfold linkedTo
    rw [if_neg (by decide), hrest]
    exact List.mem_cons_self

end AtsLdd.Fat
