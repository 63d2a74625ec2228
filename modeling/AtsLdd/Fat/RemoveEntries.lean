/-
Removing the entries of a file: `fat_remove_entries` (fat_dir.c).

- `fatRemoveSlots_spec`: the slots of a row are marked as deleted, block by block;
- `fatRemoveEntries_marks`: the last slot is removed through its buffer, with those before it in the block, and then the others.
-/
import AtsLdd.Fat.InodeEntry
import AtsLdd.Fat.SlotsAdded

namespace AtsLdd.Fat

open AtsLdd.Machine AtsLdd.ByteMap AtsLdd.LinkTable AtsLdd.Paged

/-! ## The code -/

/-- what `fat_remove_entries` leaves -/
structure RemoveEntries where
  err : ℤ
  sinfo : SlotInfo
  dir : DirInode
  s : St

/-- `fat_remove_entries`; the words of the current time are `now`. An error of the second stage is only reported, and one of
`fat_sync_inode` is dropped. -/
def fatRemoveEntries (env : Env) (sb : FatSb) (s : St) (dir : DirInode) (sinfo : SlotInfo) (now : FatTime) : RemoveEntries :=
  let b := sinfo.bh.getD 0
  let off := sinfo.de.getD 0
  -- the slots from the last one down to the start of the buffer
  let n := min sinfo.nrSlots (off / DENT_SIZE + 1)
  let s := { s with vol := Function.update s.vol b (markDeleted (s.vol b) (off - DENT_SIZE * (n - 1)) n) }
  let (ok, s) := if dir.dirsync then syncDirtyBuffer env s b else (true, s)
  let s := brelse s b
  let left := sinfo.nrSlots - n
  let sinfo := { sinfo with de := none, bh := none }
  if ok = false then ⟨- EIO, sinfo, dir, s⟩
  else
    let s := if left ≠ 0 then (fatRemoveSlots env sb dir left s sinfo.slotOff left).2 else s
    let dir := { dir with mtime := now }
    ⟨0, sinfo, dir, if dir.dirsync then (fatSyncInode env sb s dir).2 else s⟩

/-! ## Marking slots -/

/-- the blocks of the directory can be written -/
def Writable (env : Env) (sb : FatSb) (l : List ℤ) : Prop := ∀ t, ∀ q < nrBlocks sb l, env.sync t (dirBlock sb l q) = true

/-- `n` slots from slot `i` on are marked as deleted between two volumes, and nothing else has changed -/
structure Marked (sb : FatSb) (l : List ℤ) (vol vol' : Vol) (i n : ℕ) : Prop where
  bytes : ∀ p < nrBytes sb l, dirBytes sb l vol' p = strided (dirBytes sb l vol) (DENT_SIZE * i) DENT_SIZE n DELETED_FLAG p
  frame : ∀ b, (∀ q < nrBlocks sb l, b ≠ dirBlock sb l q) → vol' b = vol b

section
variable {env : Env} {sb : FatSb} {s : St} {dir : DirInode} {l cs : List ℤ} {vol vol' vol'' : Vol} {i n : ℕ}

theorem Marked.eqFat (h : Marked sb l vol vol' i n) (hin : ∀ x ∈ l, InRange sb x) : EqFat sb vol vol' := by
  intro b hb
  apply h.frame b
  intro q hq he
  exact not_inFat_of_le (dataStart_le_dirBlock hin hq) (he ▸ hb)

theorem Marked.dirOn {dir : Inode} (h : Marked sb l vol vol' i n) (hdir : DirOn sb vol dir l) : DirOn sb vol' dir l :=
  ⟨EqFat.dirChain (h.eqFat hdir.chain.inRange) hdir.chain, hdir.size, hdir.limit⟩

theorem Marked.refl (sb : FatSb) (l : List ℤ) (vol : Vol) (i : ℕ) : Marked sb l vol vol i 0 :=
  ⟨fun p _ => (congrFun (strided_zero _ _ _ _) p).symm, fun _ _ => rfl⟩

/-- more slots behind those that are marked -/
theorem Marked.append {k : ℕ} (h : Marked sb l vol vol' i n) (h' : Marked sb l vol' vol'' (i + n) k) :
    Marked sb l vol vol'' i (n + k) where
  bytes := by
    intro p hp
    rw [h'.bytes p hp, strided_congr (h.bytes p hp), Nat.mul_add, strided_append]
  frame := fun b hb => (h'.frame b hb).trans (h.frame b hb)

/-- more slots before those that are marked -/
theorem Marked.prepend {k : ℕ} (h : Marked sb l vol vol' (i + n) k) (h' : Marked sb l vol' vol'' i n) :
    Marked sb l vol vol'' i (n + k) where
  bytes := by
    intro p hp
    rw [h'.bytes p hp, strided_congr (h.bytes p hp), Nat.mul_add, strided_prepend]
  frame := fun b hb => (h'.frame b hb).trans (h.frame b hb)

/-- the place of a slot among the bytes of the directory -/
theorem slot_place (sb : FatSb) (i : ℕ) : i / sb.dirPerBlock * sb.blocksize + slotOff sb i = DENT_SIZE * i := by
  have hdm := Nat.div_add_mod' (DENT_SIZE * i) sb.blocksize
  obtain ⟨hdiv, hmod⟩ := slot_pos sb i
  rwa [hdiv, hmod] at hdm

/-- **Slots of one block** are marked. -/
theorem marked_block (h : Clusters sb l) (vol : Vol) (hi : i < nrSlots sb l) (hn : i % sb.dirPerBlock + n ≤ sb.dirPerBlock) :
    Marked sb l vol (Function.update vol (slotBlock sb l i) (markDeleted (vol (slotBlock sb l i)) (slotOff sb i) n)) i n where
  bytes := by
    intro p hp
    have hfit : ∀ j < n, slotOff sb i + DENT_SIZE * j < sb.blocksize := by
      intro j hj
      unfold slotOff
      rw [blocksize_eq, ← Nat.mul_add]
      exact Nat.mul_lt_mul_of_pos_left (by omega) (by decide)
    rw [← slot_place]
    exact view_strided h.distinct (slot_block hi) hp hfit
  frame := fun b hb => Function.update_of_ne (hb _ (slot_block hi)) _ _

/-- writing a block of the directory, when it succeeds, leaves it as it is -/
theorem syncBlock_spec (hwrite : dir.dirsync = true → Writable env sb l) (hi : i < nrSlots sb l) (s : St) :
    ∃ s', (if dir.dirsync then syncDirtyBuffer env s (slotBlock sb l i) else (true, s)) = (true, s') ∧ s'.vol = s.vol := by
  cases hsync : dir.dirsync with
  | false => exact ⟨s, rfl, rfl⟩
  | true =>
    refine ⟨_, if_pos (hwrite hsync s.t _ (slot_block hi)), rfl⟩

/-- **`__fat_remove_entries`** marks the slots of a row, block by block. -/
theorem fatRemoveSlots_spec (hread : Readable env sb l) (hwrite : dir.dirsync = true → Writable env sb l) (fuel : ℕ) :
    ∀ {s : St} {i n : ℕ}, DirOn sb s.vol dir.toInode l → i + n ≤ nrSlots sb l → n ≤ fuel →
    ∃ s', fatRemoveSlots env sb dir fuel s (DENT_SIZE * i) n = (0, s') ∧ Marked sb l s.vol s'.vol i n := by
  induction fuel with
  | zero =>
    intro s i n _ _ hn
    obtain rfl : n = 0 := Nat.le_zero.1 hn
    exact ⟨s, rfl, Marked.refl sb l s.vol i⟩
  | succ fuel ih =>
    intro s i n hdir hle hn
    rw [fatRemoveSlots]
    by_cases hzero : n = 0
    · rw [if_pos hzero, hzero]
      exact ⟨s, rfl, Marked.refl sb l s.vol i⟩
    rw [if_neg hzero]
    have hi : i < nrSlots sb l := by omega
    obtain ⟨s1, hget, hlook⟩ := fatGetEntry_slot hdir hread (cursorAt_start sb l i none) hi
    have hmod := Nat.mod_lt i (dirPerBlock_pos sb)
    have hroom : (sb.blocksize - slotOff sb i) / DENT_SIZE = sb.dirPerBlock - i % sb.dirPerBlock := by
      unfold slotOff
      rw [blocksize_eq, ← Nat.mul_sub, Nat.mul_div_cancel_left _ (show 0 < DENT_SIZE by decide)]
    rw [hget]
    simp only [slotCursor, Option.getD_some, hroom]
    obtain ⟨k, hk⟩ : ∃ k, k = min n (sb.dirPerBlock - i % sb.dirPerBlock) := ⟨_, rfl⟩
    rw [← hk]
    have hmark := marked_block hdir.chain.clusters s1.vol hi (show i % sb.dirPerBlock + k ≤ sb.dirPerBlock by omega)
    obtain ⟨s2, hsync, hvol2⟩ := syncBlock_spec hwrite hi { s1 with
      vol := Function.update s1.vol (slotBlock sb l i) (markDeleted (s1.vol (slotBlock sb l i)) (slotOff sb i) k) }
    rw [hsync]
    simp only [if_true]
    have hpos : DENT_SIZE * (i + 1) + k * DENT_SIZE - DENT_SIZE = DENT_SIZE * (i + k) := by
      rw [Nat.mul_add, Nat.mul_add, Nat.mul_one, Nat.mul_comm k]
      omega
    have hmark2 : Marked sb l s.vol (brelse s2 (slotBlock sb l i)).vol i k := by
      change Marked sb l s.vol s2.vol i k
      rw [hvol2, ← hlook.vol]
      exact hmark
    rw [hpos]
    obtain ⟨s', hrest, hmark'⟩ := ih (hmark2.dirOn hdir) (show i + k + (n - k) ≤ nrSlots sb l by omega)
      (show n - k ≤ fuel by omega)
    refine ⟨s', hrest, ?_⟩
    have hall := hmark2.append hmark'
    rwa [Nat.add_sub_cancel' (show k ≤ n by omega)] at hall

/-! ## Removing the entries of a file -/

/-- the slots of a row that are in the block of the last one -/
theorem row_end (sb : FatSb) {j n : ℕ} (hn : n ≤ j % sb.dirPerBlock) :
    slotOff sb (j - n) = slotOff sb j - DENT_SIZE * n ∧ (j - n) / sb.dirPerBlock = j / sb.dirPerBlock ∧
      (j - n) % sb.dirPerBlock + n = j % sb.dirPerBlock := by
  have hlt : j % sb.dirPerBlock - n < sb.dirPerBlock := (Nat.sub_le _ _).trans_lt (Nat.mod_lt j (dirPerBlock_pos sb))
  have hsplit : j - n = j / sb.dirPerBlock * sb.dirPerBlock + (j % sb.dirPerBlock - n) := by
    have hdm := Nat.div_add_mod' j sb.dirPerBlock
    omega
  obtain ⟨hdiv, hmod⟩ := page_cell (q := j / sb.dirPerBlock) hlt
  unfold slotOff
  rw [hsplit, hdiv, hmod, Nat.mul_sub]
  exact ⟨rfl, rfl, Nat.sub_add_cancel hn⟩

/-- **`fat_remove_entries`** marks the slots of a row, and then writes the inode of the directory back. -/
theorem fatRemoveEntries_marks (hdir : DirOn sb s.vol dir.toInode l) (hread : Readable env sb l)
    (hwrite : dir.dirsync = true → Writable env sb l) {nr : ℕ} (hnr : 0 < nr) (hle : i + nr ≤ nrSlots sb l) (now : FatTime) :
    ∃ s', Marked sb l s.vol s'.vol i nr ∧ fatRemoveEntries env sb s dir (rowInfo sb l i nr) now =
      ⟨0, { rowInfo sb l i nr with de := none, bh := none }, { dir with mtime := now },
        if dir.dirsync then (fatSyncInode env sb s' { dir with mtime := now }).2 else s'⟩ := by
  obtain ⟨j, hj⟩ : ∃ j, j = i + nr - 1 := ⟨_, rfl⟩
  obtain ⟨n, hn⟩ : ∃ n, n = min nr (j % sb.dirPerBlock + 1) := ⟨_, rfl⟩
  have hoff : slotOff sb j / DENT_SIZE + 1 = j % sb.dirPerBlock + 1 := by
    unfold slotOff
    rw [Nat.mul_div_cancel_left _ (show 0 < DENT_SIZE by decide)]
  obtain ⟨hstart, hdiv, hmod⟩ := row_end sb (show n - 1 ≤ j % sb.dirPerBlock by omega)
  have hfirst : j - (n - 1) = i + (nr - n) := by omega
  have hroom := Nat.mod_lt j (dirPerBlock_pos sb)
  have hblk : slotBlock sb l (i + (nr - n)) = slotBlock sb l j := by
    unfold slotBlock
    rw [← hfirst, hdiv]
  have hin : i + (nr - n) < nrSlots sb l := by omega
  -- the block of the last slot
  have hmark := marked_block hdir.chain.clusters s.vol hin (n := n) (by rw [← hfirst]; omega)
  rw [hblk, ← hfirst, hstart, hfirst] at hmark
  obtain ⟨s1, hsync, hvol1⟩ := syncBlock_spec hwrite hin { s with
    vol := Function.update s.vol (slotBlock sb l j) (markDeleted (s.vol (slotBlock sb l j)) (slotOff sb j - DENT_SIZE * (n - 1)) n) }
  rw [hblk] at hsync
  have hmark1 : Marked sb l s.vol (brelse s1 (slotBlock sb l j)).vol (i + (nr - n)) n := by
    change Marked sb l s.vol s1.vol (i + (nr - n)) n
    rw [hvol1]
    exact hmark
  obtain ⟨s2, hrest, hmark2⟩ := fatRemoveSlots_spec hread hwrite (nr - n) (hmark1.dirOn hdir)
    (show i + (nr - n) ≤ nrSlots sb l by omega) le_rfl
  have hall := hmark1.prepend hmark2
  rw [Nat.sub_add_cancel (show n ≤ nr by omega)] at hall
  unfold fatRemoveEntries rowInfo
  simp only [← hj, Option.getD_some, hoff, ← hn, hsync, Bool.true_eq_false, if_false]
  by_cases hleft : nr - n ≠ 0
  · rw [if_pos hleft, hrest]
    exact ⟨s2, hall, rfl⟩
  · rw [if_neg hleft]
    refine ⟨brelse s1 (slotBlock sb l j), ?_, rfl⟩
    have hnn : n = nr := by omega
    rw [hnn, Nat.sub_self] at hmark1
    exact hmark1

end

end AtsLdd.Fat
