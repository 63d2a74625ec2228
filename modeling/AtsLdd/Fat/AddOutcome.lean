/-
What a call of `fat_add_entries` leaves of a directory, when every block can be read and written.

- `appendSlots_fails`: a call that finds no new clusters leaves every entry in use as it was, and gives back the slots that it had
  filled;
- `fatAddEntries_outcome`: a call that succeeds writes its slots to free ones, or behind the last slot, and what is behind them in
  the new clusters is free; either way the directory is ready for the next call.
-/
import AtsLdd.Fat.AddRemove
import AtsLdd.Fat.Rollback

namespace AtsLdd.Fat

open AtsLdd.Machine AtsLdd.ByteMap AtsLdd.LinkTable AtsLdd.Paged

/-! ## A directory between two calls -/

/-- a directory with the clusters `l`, on a volume whose clusters have numbers below the bad mark; its inode is not written back
at once -/
structure DirReady (sb : FatSb) (s : St) (dir : DirInode) (l : List ℤ) : Prop where
  dirOn : DirOn sb s.vol dir.toInode l
  prevFree : PrevFreeOk sb s
  start : dir.iStart ≠ 0
  few : (sb.maxCluster : ℤ) ≤ BAD_FAT32
  lazy : dir.dirsync = false ∨ dir.isRoot = true

section
variable {env : Env} {sb : FatSb} {s s' : St} {dir : DirInode} {l cs : List ℤ} {i j m nr pos : ℕ} {slots : List UInt8}
  {r : AddEntries}

theorem Env.NoFault.readable (henv : env.NoFault) (sb : FatSb) (l : List ℤ) : Readable env sb l :=
  ⟨fun t _ _ => henv.bread t _, fun t _ _ => henv.bread t _⟩

theorem Env.NoFault.writable (henv : env.NoFault) (sb : FatSb) (l : List ℤ) : Writable env sb l := fun t _ _ => henv.sync t _

theorem Env.NoFault.not_writeFails (henv : env.NoFault) (sb : FatSb) (l : List ℤ) : ¬ WriteFails env sb l := by
  rintro ⟨t, b, hsync, -⟩
  exact absurd (hsync.symm.trans (henv.sync t b)) (by decide)

/-- no cluster has the number of the bad mark -/
theorem DirReady.not_bad (h : DirReady sb s dir l) (hcs : ∀ c ∈ cs, InRange sb c) : BAD_FAT32 ∉ cs := by
  intro hmem
  have hlt := (hcs _ hmem).2
  have hfew := h.few
  omega

/-- a call that leaves the FAT as it is -/
theorem DirReady.of_sameFat (h : DirReady sb s dir l) (hsame : SameFat sb s s') : DirReady sb s' dir l where
  dirOn := ⟨EqFat.dirChain hsame.vol h.dirOn.chain, h.dirOn.size, h.dirOn.limit⟩
  prevFree := by
    unfold PrevFreeOk
    rw [hsame.prevFree]
    exact h.prevFree
  start := h.start
  few := h.few
  lazy := h.lazy

theorem DirReady.of_looked (h : DirReady sb s dir l) (hlook : Looked s s') : DirReady sb s' dir l :=
  h.of_sameFat (hlook.sameFat sb)

/-- its inode is not written -/
theorem DirReady.fatSyncInode (h : DirReady sb s dir l) (now : FatTime) :
    (if dir.dirsync then (fatSyncInode env sb s' { dir with mtime := now }).2 else s') = s' := by
  rcases h.lazy with hsync | hroot
  · rw [hsync]
    rfl
  · unfold Fat.fatSyncInode
    simp only [hroot, if_true]
    exact ite_self s'

/-- its time does not matter -/
theorem DirReady.touched (h : DirReady sb s dir l) (now : FatTime) : DirReady sb s { dir with mtime := now } l :=
  ⟨⟨h.dirOn.chain, h.dirOn.size, h.dirOn.limit⟩, h.prevFree, h.start, h.few, h.lazy⟩

/-! ## Marking slots -/

/-- marking slots as deleted does not touch the FAT -/
theorem fatRemoveSlots_sameFat (env : Env) (sb : FatSb) (dir : DirInode) (fuel : ℕ) : ∀ {s : St} {pos : ℕ} (n : ℕ),
    DirChain sb s.vol dir.iStart l → DENT_SIZE ∣ pos → SameFat sb s (fatRemoveSlots env sb dir fuel s pos n).2 := by
  induction fuel with
  | zero => exact fun _ _ _ => SameFat.refl sb _
  | succ fuel ih =>
    intro s pos n hchain hpos
    rw [fatRemoveSlots]
    by_cases hdone : n = 0
    · rw [if_pos hdone]
      exact SameFat.refl sb s
    rw [if_neg hdone]
    have hcur : CursorOk sb dir.toInode ⟨pos, none, none⟩ :=
      ⟨hpos, fun _ h => absurd h (by simp), fun _ _ h => absurd h (by simp)⟩
    obtain ⟨hlook, hok, hfound⟩ := fatGetEntry_spec env hchain hcur
    generalize fatGetEntry env sb s dir.toInode ⟨pos, none, none⟩ = q at hlook hok hfound ⊢
    obtain ⟨ok, cur, s1⟩ := q
    cases ok with
    | false => exact hlook.sameFat sb
    | true =>
      obtain ⟨b, off, hb, hoff⟩ := hfound rfl
      simp only at hlook hok hb hoff
      have hnot : ¬ InFat sb b := not_inFat_of_le (hok.data b hb)
      simp only [hb, hoff, Option.getD_some]
      obtain ⟨k, hk⟩ : ∃ k, k = min n ((sb.blocksize - off) / DENT_SIZE) := ⟨_, rfl⟩
      rw [← hk]
      have hstore : SameFat sb s1 { s1 with vol := Function.update s1.vol b (markDeleted (s1.vol b) off k) } :=
        store_sameFat hnot s1 (markDeleted (s1.vol b) off k) s1.refs s1.t
      generalize ({ s1 with vol := Function.update s1.vol b (markDeleted (s1.vol b) off k) } : St) = s2 at hstore ⊢
      have hsync : SameFat sb s2 (if dir.dirsync then syncDirtyBuffer env s2 b else (true, s2)).2 := by
        split_ifs
        · exact syncDirtyBuffer_sameFat env hnot s2
        · exact SameFat.refl sb s2
      generalize (if dir.dirsync then syncDirtyBuffer env s2 b else (true, s2)) = w at hsync ⊢
      have hall : SameFat sb s (brelse w.2 b) :=
        (((hlook.sameFat sb).trans hstore).trans hsync).trans (brelse_sameFat sb w.2 b)
      split_ifs
      · refine hall.trans (ih _ (EqFat.dirChain hall.vol hchain) ?_)
        exact Nat.dvd_sub (Dvd.dvd.add hok.aligned (Dvd.intro_left k rfl)) (dvd_refl DENT_SIZE)
      · exact hall

/-! ## The stages without a failure -/

/-- filling free slots succeeds -/
theorem fillFree_noFault (henv : env.NoFault) (sb : FatSb) (dirsync : Bool) (bhs : List ℕ) (left : ℕ) (f : FillSlots) :
    (fillFree env sb dirsync bhs left f).1 = 0 := by
  unfold fillFree
  simp only
  generalize bhs.length - (if left = 0 then 1 else 0) = long
  generalize (bhs.take long).foldl (fun f b => f.copy sb b) f = f1
  have hsync : (if long ≠ 0 ∧ dirsync = true then fatSyncBhs env f1.s (bhs.take long) else (0, f1.s)).1 = 0 := by
    split_ifs
    · exact (fatSyncBhs_noFault henv _ _).1
    · rfl
  generalize (if long ≠ 0 ∧ dirsync = true then fatSyncBhs env f1.s (bhs.take long) else (0, f1.s)) = r at hsync ⊢
  obtain ⟨err, s1⟩ := r
  obtain rfl : err = 0 := hsync
  cases bhs.drop long with
  | nil => rfl
  | cons b rest =>
    have hwrite : ∀ s2 : St, (syncDirtyBuffer env s2 b).1 = true := by
      intro s2
      simp only [syncDirtyBuffer, henv.sync, if_true]
    simp only [if_true]
    cases dirsync with
    | false => rfl
    | true => simp only [if_true, hwrite]

/-- the entries of one file need two clusters at most -/
theorem nrCluster_le_two (sb : FatSb) (hnr : 0 < nr) (h21 : nr ≤ 21) : nrCluster sb nr ≤ 2 := by
  obtain ⟨hlt, -⟩ := nrCluster_spec sb hnr
  have hmin : 512 ≤ sb.clusterSize := sb.blocksize_min.trans (Nat.le_mul_of_pos_right _ sb.secPerClus_pos)
  by_contra hmany
  have hle : 2 * 512 ≤ (nrCluster sb nr - 1) * sb.clusterSize := Nat.mul_le_mul (by omega) hmin
  unfold DENT_SIZE at hlt
  omega

/-- new entries that do not get clusters leave the volume as it was -/
theorem fatAddNewEntries_fails (henv : env.NoFault) (hpf : PrevFreeOk sb s) (hfew : (sb.maxCluster : ℤ) ≤ BAD_FAT32) (hnr : 0 < nr)
    (h21 : nr ≤ 21) (dirsync : Bool) (slots : List UInt8) :
    ∃ n, fatAddNewEntries env sb s dirsync slots nr = some n ∧ (n.ret < 0 → n.ret = - ENOSPC ∧ PrevFreeOk sb n.s) := by
  have h2 := nrCluster_le_two sb hnr h21
  have h4 : nrCluster sb nr ≤ MAX_BUF_PER_PAGE / 2 := h2.trans (by decide)
  have hne : (- ENOSPC : ℤ) ≠ 0 := by decide
  by_cases href : Refused s (nrCluster sb nr)
  · unfold fatAddNewEntries
    simp only [if_neg (not_lt.2 h2), fatAllocClusters_refused env sb href h4, if_pos hne]
    exact ⟨_, rfl, fun _ => ⟨rfl, hpf⟩⟩
  by_cases hle : nrCluster sb nr ≤ (freeEntries sb s.vol s.prevFree).length
  · obtain ⟨n, hn, hret⟩ := fatAddNewEntries_ok henv hpf hnr h2 href hle dirsync slots
    exact ⟨n, hn, fun h => absurd h hret⟩
  · have hbad : BAD_FAT32 ∉ (freeEntries sb s.vol s.prevFree).tail := by
      intro hmem
      have hlt := (freeEntries_inRange _ (List.mem_of_mem_tail hmem)).2
      omega
    obtain ⟨cs, s1, halloc, -, hpf1⟩ := fatAllocClusters_enospc henv hpf (nrCluster_pos sb hnr) h4 href (not_le.1 hle) hbad dirsync
    unfold fatAddNewEntries
    simp only [if_neg (not_lt.2 h2), halloc, if_pos hne]
    exact ⟨_, rfl, fun _ => ⟨rfl, hpf1⟩⟩

/-! ## A call that fails -/

/-- a call that has failed: the directory is as it was, and so is every entry in use -/
structure AddFailed (sb : FatSb) (s : St) (dir : DirInode) (l : List ℤ) (r : AddEntries) : Prop where
  err : r.err = - ENOSPC
  same : r.dir = dir
  ready : DirReady sb r.s dir l
  kept : ∀ j < nrSlots sb l, SlotKept (slot sb l s.vol j) (slot sb l r.s.vol j)

/-- slots that were free and are marked as deleted -/
theorem SlotsRemoved.kept_free {vol vol1 vol2 : Vol} (h : SlotsRemoved sb l vol1 vol2 m i)
    (hfree : ∀ j, i ≤ j → j < i + m → IsFree (slot sb l vol j))
    (hkept : ∀ j < nrSlots sb l, j < i ∨ i + m ≤ j → SlotKept (slot sb l vol j) (slot sb l vol1 j)) :
    ∀ j < nrSlots sb l, SlotKept (slot sb l vol j) (slot sb l vol2 j) := by
  intro j hj
  by_cases hin : i ≤ j ∧ j < i + m
  · have hnew : slot sb l vol2 j 0 = DELETED_FLAG := by
      have hfirst := h.removed (j - i) (by omega) 0 (by decide)
      rwa [Nat.add_sub_cancel' hin.1, if_pos rfl] at hfirst
    have hold := hfree j hin.1 hin.2
    exact ⟨⟨fun _ => hold, fun _ => Or.inr hnew⟩, fun hlive => absurd hold hlive⟩
  · have hout : j < i ∨ i + m ≤ j := by omega
    obtain ⟨hiff, hlive⟩ := hkept j hj hout
    have hsame := h.kept j hj hout
    refine ⟨?_, fun hl k hk => (hsame k hk).trans (hlive hl k hk)⟩
    rw [← hiff]
    unfold IsFree
    rw [hsame 0 (by decide)]

/-- **New clusters that are not to be had**: the slots that were filled are given back. -/
theorem appendSlots_fails (henv : env.NoFault) {s0 : St} (h : DirReady sb s dir l) (hleft : 0 < nr) (h21 : nr ≤ 21)
    (hle : i + m ≤ nrSlots sb l) (hfree : ∀ j, i ≤ j → j < i + m → IsFree (slot sb l s0.vol j))
    (hkept : ∀ j < nrSlots sb l, j < i ∨ i + m ≤ j → ∀ k < DENT_SIZE, slot sb l s.vol j k = slot sb l s0.vol j k)
    (slots : List UInt8) :
    ∃ r, appendSlots env sb dir (DENT_SIZE * i) m nr slots s = some r ∧ (r.err ≠ 0 → AddFailed sb s0 dir l r) := by
  obtain ⟨n, hn, hfail⟩ := fatAddNewEntries_fails henv h.prevFree h.few hleft h21 dir.dirsync slots
  have hl : ∀ x ∈ l, InRange sb x ∧ ¬ WasFree sb s.vol x :=
    fun x hx => ⟨h.dirOn.chain.inRange x hx, fun hw => h.dirOn.chain.used x hx (fatLink_eq_free.1 hw.2)⟩
  have hstart : StKept env sb l l s.vol s := StKept.start fun hw => absurd hw (henv.not_writeFails sb l)
  obtain ⟨hk, -⟩ := fatAddNewEntries_kept hl (fun x hx => (hl x hx).2) h.prevFree hstart hleft hn
  have p : Path (table sb s.vol) dir.iStart l := h.dirOn.chain.resolve_left fun hz => h.start hz.1
  have pn := hk.path p
  unfold appendSlots
  rw [hn]
  simp only
  by_cases hret : n.ret < 0
  · obtain ⟨henospc, hpf⟩ := hfail hret
    rw [if_pos hret]
    refine ⟨_, rfl, fun _ => ?_⟩
    -- the state before the slots are given back
    have hmark : ∀ {s1 : St}, Looked n.s s1 → AddFailed sb s0 dir l
        ⟨n.ret, none, dir, if m ≠ 0 then (fatRemoveSlots env sb dir m s1 (DENT_SIZE * i) m).2 else s1⟩ := by
      intro s1 hlook
      have hdir1 : DirOn sb s1.vol dir.toInode l := by
        rw [hlook.vol]
        exact ⟨Or.inr pn, h.dirOn.size, h.dirOn.limit⟩
      have hslot1 : ∀ j < nrSlots sb l, j < i ∨ i + m ≤ j → SlotKept (slot sb l s0.vol j) (slot sb l s1.vol j) := by
        intro j hj hout
        rw [hlook.vol]
        obtain ⟨hiff, hlive⟩ := hk.slot hj
        have hsame := hkept j hj hout
        have hfreeIff : IsFree (slot sb l s.vol j) ↔ IsFree (slot sb l s0.vol j) := by
          unfold IsFree
          rw [hsame 0 (by decide)]
        exact ⟨hiff.trans hfreeIff, fun hl k hk => (hlive (fun hf => hl (hfreeIff.1 hf)) k hk).trans (hsame k hk)⟩
      have hpf1 : PrevFreeOk sb s1 := by
        unfold PrevFreeOk
        rw [(hlook.sameFat sb).prevFree]
        exact hpf
      by_cases hm : m ≠ 0
      · rw [if_pos hm]
        obtain ⟨s2, hrem, hmarked⟩ := fatRemoveSlots_spec (henv.readable sb l) (fun _ => henv.writable sb l) m hdir1 hle le_rfl
        have hsame := fatRemoveSlots_sameFat env sb dir m m hdir1.chain (Dvd.intro i rfl)
        rw [hrem] at hsame ⊢
        refine ⟨henospc, rfl, ⟨hmarked.dirOn hdir1, ?_, h.start, h.few, h.lazy⟩, ?_⟩
        · unfold PrevFreeOk
          rw [hsame.prevFree]
          exact hpf1
        · exact (hmarked.removed hle).kept_free hfree hslot1
      · rw [if_neg hm]
        refine ⟨henospc, rfl, ⟨hdir1, hpf1, h.start, h.few, h.lazy⟩, fun j hj => hslot1 j hj (by omega)⟩
    unfold errorRemove
    cases n.bh with
    | none => exact hmark (Looked.refl n.s)
    | some b => exact hmark (brelse_looked n.s b)
  · -- a chain that is not too long grows
    obtain ⟨hadd, -⟩ := fatChainAdd_ok henv pn h.dirOn.limit n.ret n.nrCluster
    rw [if_neg hret, if_neg (not_not.2 hadd)]
    exact ⟨_, rfl, fun hne => absurd rfl hne⟩

/-- **New clusters hold what is left of the slots**, and zeros behind it. -/
theorem appendSlots_bytes (h : DirReady sb s dir l) (hleft : 0 < nr) (h21 : nr ≤ 21) (hlen : slots.length = DENT_SIZE * nr)
    {freeSlots : ℕ} (hr : appendSlots env sb dir pos freeSlots nr slots s = some r) (h0 : r.err = 0)
    (hcs : cs = (freeEntries sb s.vol s.prevFree).take (nrCluster sb nr)) :
    ∀ p < nrBytes sb (l ++ cs), dirBytes sb (l ++ cs) r.s.vol p = splice (dirBytes sb (l ++ cs) s.vol) (nrBytes sb l)
      (slots ++ List.replicate (nrCluster sb nr * sb.clusterSize - DENT_SIZE * nr) 0) p := by
  have hroot : dir.iStart = 0 → dir.isRoot = true := fun hz => absurd hz h.start
  unfold appendSlots at hr
  cases hn : fatAddNewEntries env sb s dir.dirsync slots nr with
  | none =>
    rw [hn] at hr
    exact absurd hr (by simp)
  | some n =>
    rw [hn] at hr
    simp only at hr
    by_cases hret : n.ret < 0
    · rw [if_pos hret, Option.some.injEq] at hr
      rw [← hr] at h0
      exact absurd h0 hret.ne
    rw [if_neg hret] at hr
    obtain ⟨hall, -, -, hnew⟩ := fatAddNewEntries_bytes h.dirOn.chain.clusters h.dirOn.chain.used h.prevFree hleft h21 hlen hn hret hcs
    obtain ⟨cs', hcs', -, hch, -⟩ := fatAddNewEntries_ret h.prevFree hleft hn hret
    rw [← hcs] at hcs'
    rw [hcs'] at hch
    by_cases hadd : (fatChainAdd env sb n.s dir n.ret n.nrCluster).ret ≠ 0
    · rw [if_pos hadd, Option.some.injEq] at hr
      rw [← hr] at h0
      exact absurd h0 hadd
    rw [if_neg hadd, Option.some.injEq] at hr
    have hchain : DirChain sb n.s.vol dir.iStart l := by
      rcases h.dirOn.chain with hz | p
      · exact Or.inl hz
      · exact Or.inr (p.congr fun x hx => hch.table_frame x fun hxc => p.not_free hx (hch.table_free x hxc))
    have hlink := fatChainAdd_sameData env hroot hchain (not_not.1 hadd)
    intro p hp
    rw [← hr]
    simp only
    rw [dirBytes_sameData hall hlink hp, hnew p hp]

/-! ## A call -/

/-- a call that has succeeded: the slots are where slots were free, or are new, and the rest of the new clusters is free -/
structure AddDone (sb : FatSb) (s : St) (l : List ℤ) (slots : List UInt8) (nr : ℕ) (r : AddEntries) (cs : List ℤ) (i : ℕ) : Prop where
  err : r.err = 0
  added : SlotsAdded sb s l slots nr r cs i
  le : i ≤ nrSlots sb l
  ready : DirReady sb r.s r.dir (l ++ cs)
  behind : ∀ j, nrSlots sb l ≤ j → i + nr ≤ j → j < nrSlots sb (l ++ cs) → IsFree (slot sb (l ++ cs) r.s.vol j)

/-- the result of filling the slots in hand -/
theorem fillStage_noFault (henv : env.NoFault) (sb : FatSb) (dirsync : Bool) (bhs : List ℕ) (left n : ℕ) (f : FillSlots) :
    (if n ≠ 0 then fillFree env sb dirsync bhs left f else ((0 : ℤ), f)).1 = 0 := by
  split_ifs
  · exact fillFree_noFault henv sb dirsync bhs left f
  · rfl

/-- slots that are found are filled -/
theorem addFound_found (henv : env.NoFault) (sb : FatSb) (dir : DirInode) (slots : List UInt8) {f : FreeSearch}
    (hcount : f.freeSlots = nr) : ∃ r, addFound env sb dir slots nr f = some r ∧ r.err = 0 := by
  have hfill := fillStage_noFault henv sb dir.dirsync f.bhs (nr - f.freeSlots) f.freeSlots
    ⟨(f.cur.pos - f.freeSlots * DENT_SIZE) % sb.blocksize, f.freeSlots * DENT_SIZE, slots, f.s⟩
  unfold addFound
  simp only
  generalize (if f.freeSlots ≠ 0 then fillFree env sb dir.dirsync f.bhs (nr - f.freeSlots)
    ⟨(f.cur.pos - f.freeSlots * DENT_SIZE) % sb.blocksize, f.freeSlots * DENT_SIZE, slots, f.s⟩ else (0, _)) = w at hfill ⊢
  have hleft : nr - f.freeSlots = 0 := by omega
  rw [if_neg (not_not.2 hfill), if_neg (not_not.2 hleft)]
  exact ⟨_, rfl, rfl⟩

/-- the slots in hand at the end of the directory are filled, and the others go on to new clusters -/
theorem addFound_ended (henv : env.NoFault) (h : DirReady sb s dir l) {f : FreeSearch} (hok : SearchOk sb dir.toInode s f)
    (hm : m < nr) (hi : i + m = nrSlots sb l) (hrun : RunAt sb l s.vol (i + m) m f) (hpos : f.cur.pos = DENT_SIZE * (i + m))
    (hlen : slots.length = DENT_SIZE * nr) :
    ∃ s1, addFound env sb dir slots nr f = appendSlots env sb dir (DENT_SIZE * i) m (nr - m) (slots.drop (DENT_SIZE * m)) s1 ∧
      DirReady sb s1 dir l ∧ SameFat sb s s1 ∧
      ∀ j < nrSlots sb l, j < i ∨ i + m ≤ j → ∀ k < DENT_SIZE, slot sb l s1.vol j k = slot sb l s.vol j k := by
  have hall : Clusters sb (l ++ []) := by
    rw [List.append_nil]
    exact h.dirOn.chain.clusters
  have hfpos : f.cur.pos - f.freeSlots * DENT_SIZE = DENT_SIZE * i := by
    rw [hpos, hrun.count, Nat.mul_add, Nat.mul_comm m, Nat.add_sub_cancel]
  have hleft : nr - f.freeSlots ≠ 0 := by
    rw [hrun.count]
    omega
  have hfill := fillStage_noFault henv sb dir.dirsync f.bhs (nr - f.freeSlots) f.freeSlots
    ⟨DENT_SIZE * i % sb.blocksize, f.freeSlots * DENT_SIZE, slots, f.s⟩
  have hsame := (hok.looked.sameFat sb).trans (fillStage_sameFat env dir.dirsync hok.bhs (nr - f.freeSlots) f.freeSlots
    ⟨DENT_SIZE * i % sb.blocksize, f.freeSlots * DENT_SIZE, slots, f.s⟩)
  unfold addFound
  simp only [hfpos]
  generalize hw : (if f.freeSlots ≠ 0 then fillFree env sb dir.dirsync f.bhs (nr - f.freeSlots)
    ⟨DENT_SIZE * i % sb.blocksize, f.freeSlots * DENT_SIZE, slots, f.s⟩ else (0, _)) = w at hfill hsame ⊢
  obtain ⟨hslots, hbytes⟩ := fillStage_bytes hall hrun hi.le (by rw [hlen]; exact Nat.mul_le_mul_left _ hm.le) dir.dirsync _
    hw.symm hfill
  rw [if_neg (not_not.2 hfill), if_pos hleft, hrun.count, hslots]
  refine ⟨w.2.s, rfl, h.of_sameFat hsame, hsame, fun j hj hout k hk => ?_⟩
  have hbyte := hbytes (DENT_SIZE * j + k) (by rw [List.append_nil]; exact slot_lt_nrBytes hj hk)
  simp only [List.append_nil] at hbyte
  rw [slot_dirBytes sb _ _ _ hk, hbyte, splice_of_not_mem, ← slot_dirBytes sb _ _ _ hk, hok.looked.vol]
  rintro ⟨h1, h2⟩
  rw [List.length_take, hlen] at h2
  unfold DENT_SIZE at h1 h2 hk
  omega

/-- slots that do not fit into the directory -/
theorem addFound_outcome (henv : env.NoFault) (h : DirReady sb s dir l) {f : FreeSearch} (hok : SearchOk sb dir.toInode s f)
    (h21 : nr ≤ 21) (hm : m < nr) (hrun : RunAt sb l s.vol (nrSlots sb l) m f) (hpos : f.cur.pos = DENT_SIZE * nrSlots sb l)
    (hsmall : nrBytes sb l < FAT_MAX_DIR_SIZE) (hlen : slots.length = DENT_SIZE * nr) :
    ∃ r, addFound env sb dir slots nr f = some r ∧ (AddFailed sb s dir l r ∨ ∃ cs i, AddDone sb s l slots nr r cs i) := by
  have hroot : dir.iStart = 0 → dir.isRoot = true := fun hz => absurd hz h.start
  have hleft : 0 < nr - m := by omega
  obtain ⟨i, hi⟩ : ∃ i, i + m = nrSlots sb l := ⟨_, Nat.sub_add_cancel hrun.le⟩
  have hrun' := hrun
  rw [← hi] at hrun'
  obtain ⟨s1, happ, h1, hsame, hkept⟩ := addFound_ended henv h hok hm hi hrun' (hi ▸ hpos) hlen
  obtain ⟨r, hr, hfail⟩ := appendSlots_fails henv h1 hleft (by omega) hi.le (fun j h1 h2 => hrun'.free j (by omega) h2) hkept
    (slots.drop (DENT_SIZE * m))
  refine ⟨r, happ.trans hr, ?_⟩
  by_cases h0 : r.err ≠ 0
  · exact Or.inl (hfail h0)
  obtain ⟨cs, hcs⟩ : ∃ cs, cs = (freeEntries sb s.vol s.prevFree).take (nrCluster sb (nr - m)) := ⟨_, rfl⟩
  obtain ⟨hat, hcslen, hgrown⟩ := addFound_grown h.dirOn hroot h.prevFree hok h21 hm hrun hpos hlen (happ.trans hr) (not_not.1 h0) hcs
  have hsub : nrSlots sb l - m = i := by omega
  rw [hsub] at hat
  have hin : ∀ c ∈ cs, InRange sb c := by
    intro c hc
    rw [hcs] at hc
    exact freeEntries_inRange c (List.mem_of_mem_take hc)
  have hne : cs ≠ [] := List.ne_nil_of_length_pos (hcslen ▸ nrCluster_pos sb hleft)
  have hlimit := grown_limit hsmall hleft (by omega)
  rw [← hcslen] at hlimit
  have hbad : BAD_FAT32 ∉ if dir.iStart = 0 then cs.tail else cs := by
    rw [if_neg h.start]
    exact h.not_bad hin
  have hdirOn := hgrown.dirOn h.dirOn hne hbad hlimit
  refine Or.inr ⟨cs, i, not_not.1 h0, hat.added hlen hdirOn, by omega, ⟨hdirOn, hgrown.prevFree, ?_, h.few, ?_⟩, ?_⟩
  · rw [hgrown.dir, if_neg h.start]
    exact h.start
  · rw [hgrown.dir, if_neg h.start]
    exact h.lazy
  · intro j hnew hbeh hj
    have hcs1 : cs = (freeEntries sb s1.vol s1.prevFree).take (nrCluster sb (nr - m)) := by
      rw [hcs, hsame.prevFree, freeEntries_congr hsame.vol]
    have hbytes := appendSlots_bytes h1 hleft (by omega) (by rw [List.length_drop, hlen, Nat.mul_sub]) hr (not_not.1 h0) hcs1
    have hlt := slot_lt_nrBytes (k := 0) hj (by decide)
    have hfits := (nrCluster_spec sb hleft).2
    have htotal := nrBytes_append sb l cs
    rw [nrBytes_clusters sb cs, hcslen] at htotal
    have hzero : slot sb (l ++ cs) r.s.vol j 0 = 0 := by
      have hlist : (slots.drop (DENT_SIZE * m)).length = DENT_SIZE * (nr - m) := by rw [List.length_drop, hlen, Nat.mul_sub]
      rw [slot_dirBytes sb _ _ _ (by decide), hbytes _ hlt]
      rw [nrBytes_eq sb l] at htotal ⊢
      have hge : DENT_SIZE * nrSlots sb l + DENT_SIZE * (nr - m) ≤ DENT_SIZE * j := by
        rw [← Nat.mul_add]
        exact Nat.mul_le_mul_left _ (by omega)
      rw [splice_of_mem (by omega) (by rw [List.length_append, List.length_replicate, hlist]; omega),
        List.getElem_append_right (by rw [hlist]; omega), List.getElem_replicate]
    exact Or.inl hzero

/-- how the search of a call has ended, at `f`: with enough free slots in a row, or at the end of the directory with fewer -/
structure SearchDone (sb : FatSb) (s : St) (dir : Inode) (l : List ℤ) (nr : ℕ) (fin : SearchEnd) (f : FreeSearch) : Prop where
  ok : SearchOk sb dir s f
  found : fin = .found → ∃ i, i + nr ≤ nrSlots sb l ∧ RunAt sb l s.vol (i + nr) nr f ∧ f.cur = slotCursor sb l (i + nr - 1)
  ended : fin = .ended → nrBytes sb l < FAT_MAX_DIR_SIZE ∧
    ∃ m < nr, RunAt sb l s.vol (nrSlots sb l) m f ∧ f.cur.pos = DENT_SIZE * nrSlots sb l

/-- **The first stage** of a call. -/
theorem searchFree_done (h : DirReady sb s dir l) (hread : Readable env sb l) (hnr : 1 ≤ nr) :
    SearchDone sb s dir.toInode l nr (searchFree env sb s dir.toInode nr).1 (searchFree env sb s dir.toInode nr).2 := by
  have hsearch := searchFree_slots h.dirOn hread hnr
  have hended := scanMarks_ended (allMarks env sb s dir.toInode) (k := 0) hnr
  rw [← searchFree_marks env sb s dir.toInode nr] at hended
  exact ⟨searchFree_ok env h.dirOn.chain nr, hsearch.found, fun hfin =>
    ⟨nrBytes_small h.dirOn hread (hended hfin).1, hsearch.ended hfin⟩⟩

section
variable {fin : SearchEnd} {f : FreeSearch}

/-- the buffers and the clock do not matter to a search -/
theorem SearchDone.at (h : SearchDone sb s dir.toInode l nr fin f) (hlook : Looked s s') :
    SearchDone sb s dir.toInode l nr fin { f with s := s' } where
  ok := ⟨hlook, h.ok.cur, h.ok.bhs⟩
  found := by
    intro hfin
    obtain ⟨i, hle, hrun, hcur⟩ := h.found hfin
    exact ⟨i, hle, ⟨hrun.le, hrun.free, hrun.count, hrun.bhs, hrun.prev⟩, hcur⟩
  ended := by
    intro hfin
    obtain ⟨hsmall, m, hm, hrun, hpos⟩ := h.ended hfin
    exact ⟨hsmall, m, hm, ⟨hrun.le, hrun.free, hrun.count, hrun.bhs, hrun.prev⟩, hpos⟩

/-- the free slots in hand are the last ones before the cursor -/
theorem SearchDone.place (h : SearchDone sb s dir.toInode l nr fin f) (hnr : 1 ≤ nr) (hfin : fin ≠ .full) :
    f.freeSlots ≤ nr ∧ ∃ i, f.cur.pos = DENT_SIZE * (i + f.freeSlots) ∧ i + f.freeSlots ≤ nrSlots sb l := by
  cases fin with
  | full => exact absurd rfl hfin
  | found =>
    obtain ⟨i, hle, hrun, hcur⟩ := h.found rfl
    rw [hrun.count, hcur]
    refine ⟨le_rfl, i, ?_, hle⟩
    change DENT_SIZE * (i + nr - 1 + 1) = _
    rw [Nat.sub_add_cancel (by omega)]
  | ended =>
    obtain ⟨-, m, hm, hrun, hpos⟩ := h.ended rfl
    rw [hrun.count, hpos]
    refine ⟨hm.le, nrSlots sb l - m, ?_, ?_⟩
    · rw [Nat.sub_add_cancel hrun.le]
    · rw [Nat.sub_add_cancel hrun.le]

/-- **A directory of the maximum size** is left alone. -/
theorem SearchDone.refused (h : DirReady sb s dir l) (hsearch : SearchDone sb s dir.toInode l nr fin f) :
    AddFailed sb s dir l (addError dir (- ENOSPC) f) := by
  have hlook : Looked s (addError dir (- ENOSPC) f).s := by
    unfold addError
    refine hsearch.ok.looked.trans ((?_ : Looked f.s _).trans (foldl_brelse_looked f.bhs _))
    cases f.cur.bh with
    | none => exact Looked.refl f.s
    | some b => exact brelse_looked f.s b
  refine ⟨rfl, rfl, h.of_looked hlook, fun j _ => ?_⟩
  rw [hlook.vol]
  exact SlotKept.refl _

/-- **The other stages** of a call. -/
theorem SearchDone.outcome (henv : env.NoFault) (h : DirReady sb s dir l) (hsearch : SearchDone sb s dir.toInode l nr fin f)
    (hfin : fin ≠ .full) (hnr : 1 ≤ nr) (h21 : nr ≤ 21) (hlen : slots.length = DENT_SIZE * nr) :
    ∃ r, addFound env sb dir slots nr f = some r ∧ (AddFailed sb s dir l r ∨ ∃ cs i, AddDone sb s l slots nr r cs i) := by
  cases fin with
  | full => exact absurd rfl hfin
  | found =>
    obtain ⟨i, hle, hrun, hcur⟩ := hsearch.found rfl
    obtain ⟨r, hr, h0⟩ := addFound_found henv sb dir slots hrun.count
    obtain ⟨hat, hrdir⟩ := addFound_inside h.dirOn hsearch.ok.looked hnr hle hrun hcur hlen hr h0
    have hsame : SameFat sb s r.s := by
      rcases addFound_zero hsearch.ok hr h0 with ⟨-, -, hsame⟩ | ⟨hleft, -⟩
      · exact hsame
      · rw [hrun.count] at hleft
        omega
    have hready : DirReady sb r.s r.dir (l ++ []) := by
      rw [hrdir, List.append_nil]
      exact h.of_sameFat hsame
    refine ⟨r, hr, Or.inr ⟨[], i, h0, hat.added hlen hready.dirOn, by omega, hready, fun j hge _ hlt => ?_⟩⟩
    rw [List.append_nil] at hlt
    exact absurd hlt (not_lt.2 hge)
  | ended =>
    obtain ⟨hsmall, m, hm, hrun, hpos⟩ := hsearch.ended rfl
    exact addFound_outcome henv h hsearch.ok h21 hm hrun hpos hsmall hlen

end

/-- **A call of `fat_add_entries`** fails for want of space and leaves every entry as it was, or writes the entries, and leaves the
rest of the directory as it was. -/
theorem fatAddEntries_outcome (henv : env.NoFault) (h : DirReady sb s dir l) (hnr : 1 ≤ nr) (h21 : nr ≤ 21)
    (hlen : slots.length = DENT_SIZE * nr) :
    ∃ r, fatAddEntries env sb s dir slots nr = some r ∧ (AddFailed sb s dir l r ∨ ∃ cs i, AddDone sb s l slots nr r cs i) := by
  have hsearch := searchFree_done h (henv.readable sb l) hnr
  unfold fatAddEntries
  generalize searchFree env sb s dir.toInode nr = w at hsearch ⊢
  obtain ⟨fin, f⟩ := w
  cases fin with
  | full => exact ⟨_, rfl, Or.inl (hsearch.refused h)⟩
  | found => exact hsearch.outcome henv h (by simp) hnr h21 hlen
  | ended =>
    simp only [if_neg fun hcorrupt : dir.isRoot = false ∧ dir.iStart = 0 => h.start hcorrupt.2]
    exact hsearch.outcome henv h (by simp) hnr h21 hlen

/-! ## Results that say the same -/

/-- two results that say the same of the directory; the buffers, the clock and the other FATs do not matter -/
structure SameResult (sb : FatSb) (a r : AddEntries) : Prop where
  err : r.err = a.err
  sinfo : r.sinfo = a.sinfo
  dir : r.dir = a.dir
  fat : EqFat sb a.s.vol r.s.vol
  data : SameData sb a.s r.s
  prevFree : r.s.prevFree = a.s.prevFree

section
variable {a : AddEntries}

theorem SameResult.ready (hsame : SameResult sb a r) (h : DirReady sb a.s a.dir l) : DirReady sb r.s r.dir l := by
  rw [hsame.dir]
  refine ⟨⟨EqFat.dirChain hsame.fat h.dirOn.chain, h.dirOn.size, h.dirOn.limit⟩, ?_, h.start, h.few, h.lazy⟩
  unfold PrevFreeOk
  rw [hsame.prevFree]
  exact h.prevFree

theorem SameResult.slot (hsame : SameResult sb a r) (hl : Clusters sb l) {j k : ℕ} (hj : j < nrSlots sb l) (hk : k < DENT_SIZE) :
    slot sb l r.s.vol j k = slot sb l a.s.vol j k := by
  rw [slot_dirBytes sb _ _ _ hk, slot_dirBytes sb _ _ _ hk]
  exact dirBytes_sameData hl hsame.data (slot_lt_nrBytes hj hk)

theorem AddFailed.congr (h : AddFailed sb s dir l a) (hsame : SameResult sb a r) : AddFailed sb s dir l r where
  err := hsame.err.trans h.err
  same := hsame.dir.trans h.same
  ready := by
    rw [← h.same, ← hsame.dir]
    apply hsame.ready
    rw [h.same]
    exact h.ready
  kept := by
    intro j hj
    have hslot := fun k hk => hsame.slot h.ready.dirOn.chain.clusters (k := k) hj hk
    obtain ⟨hiff, hlive⟩ := h.kept j hj
    refine ⟨?_, fun hl k hk => (hslot k hk).trans (hlive hl k hk)⟩
    rw [← hiff]
    unfold IsFree
    rw [hslot 0 (by decide)]

theorem AddDone.congr (h : AddDone sb s l slots nr a cs i) (hsame : SameResult sb a r) : AddDone sb s l slots nr r cs i := by
  have hready := hsame.ready h.ready
  have hslot := fun j k hj hk => hsame.slot (j := j) (k := k) h.ready.dirOn.chain.clusters hj hk
  have hfits := h.added.fits
  have hgrown : nrSlots sb l ≤ nrSlots sb (l ++ cs) := by
    unfold nrSlots
    rw [nrBlocks_append]
    exact Nat.mul_le_mul_right _ (Nat.le_add_right _ _)
  refine ⟨hsame.err.trans h.err, ⟨hready.dirOn, hfits, h.added.free, h.added.new, ?_, ?_, hsame.sinfo.trans h.added.sinfo⟩, h.le,
    hready, ?_⟩
  · intro j hj k hk
    rw [hslot (i + j) k (by omega) hk]
    exact h.added.written j hj k hk
  · intro j hj hout k hk
    rw [hslot j k (by omega) hk]
    exact h.added.kept j hj hout k hk
  · intro j h1 h2 h3
    have hfree := h.behind j h1 h2 h3
    unfold IsFree at hfree ⊢
    rwa [hslot j 0 h3 (by decide)]

end

end

/-- two slots are added to a directory with free slots -/
theorem fatAddEntries_outcome_two : ∃ r, fatAddEntries goodEnv tinySb emptyDir.s emptyDir.dir addTwo.slots 2 = some r ∧
    (AddFailed tinySb emptyDir.s emptyDir.dir [3] r ∨ ∃ cs i, AddDone tinySb emptyDir.s [3] addTwo.slots 2 r cs i) := by
  have hdir : DirOn tinySb emptyDir.s.vol emptyDir.dir.toInode [3] := ⟨Or.inr (.last (by decide +kernel)), rfl, by decide⟩
  have hready : DirReady tinySb emptyDir.s emptyDir.dir [3] := ⟨hdir, ⟨le_rfl, by decide⟩, by decide, by decide, Or.inl rfl⟩
  exact fatAddEntries_outcome goodEnv_noFault hready (by decide) (by decide) (by decide)

end AtsLdd.Fat
