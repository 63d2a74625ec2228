/-
The references that adding and removing entries take and give back.

The array of buffers goes from stage to stage: `fat_zeroed_cluster` ends with none of those it was given, whether it
succeeds or not, and `fat_add_new_entries` keeps a second reference to the last one for its caller.

- `fatAddNewEntries_holds`: new clusters for new entries, with every failure on the way;
- `fatAddEntries_holds`: `fat_add_entries` hands out the buffer of the last entry, and nothing when it fails.
-/
import AtsLdd.Fat.DirBalance
import AtsLdd.Fat.Outcome

namespace AtsLdd.Fat

open AtsLdd.Machine AtsLdd.ByteMap AtsLdd.Counted

section
variable {env : Env} {sb : FatSb} {base : ℕ → ℤ} {held : Multiset ℕ} {s : St}

/-! ## Filling slots, in the directory and in new clusters -/

theorem foldl_copy_holds (sb : FatSb) (bhs : List ℕ) : ∀ {f : FillSlots}, Holds base held f.s →
    Holds base held (bhs.foldl (fun f b => f.copy sb b) f).s := by
  induction bhs with
  | nil => exact fun h => h
  | cons b bhs ih =>
    intro f h
    have hcopy : Holds base held (f.copy sb b).s := h
    exact ih hcopy

/-- the buffers of the free slots are given back, written or not -/
theorem fillFree_holds {bhs : List ℕ} {f : FillSlots} (h : Holds base (bhs + held) f.s) (env : Env) (sb : FatSb) (dirsync : Bool)
    (nrSlots : ℕ) : Holds base held (fillFree env sb dirsync bhs nrSlots f).2.s := by
  unfold fillFree
  simp only
  set longBhs := bhs.length - if nrSlots = 0 then 1 else 0
  have hlong := foldl_copy_holds sb (bhs.take longBhs) h
  generalize (bhs.take longBhs).foldl (fun f b => f.copy sb b) f = f1 at hlong ⊢
  have hsync : Holds base (bhs + held) (if longBhs ≠ 0 ∧ dirsync then fatSyncBhs env f1.s (bhs.take longBhs) else (0, f1.s)).2 := by
    split_ifs
    · exact fatSyncBhs_holds env _ hlong
    · exact hlong
  generalize (if longBhs ≠ 0 ∧ dirsync then fatSyncBhs env f1.s (bhs.take longBhs) else (0, f1.s)) = r at hsync ⊢
  apply Holds.brelseAll
  split
  · exact hsync
  · rename_i b _ _
    by_cases herr : r.1 = 0
    · have hcopy : Holds base (bhs + held) (({ f1 with s := r.2 } : FillSlots).copy sb b).s := hsync
      rw [if_pos herr]
      cases dirsync with
      | true => exact syncDirtyBuffer_holds hcopy env b
      | false => exact hcopy
    · rw [if_neg herr]
      exact hsync

/-- the blocks that are zeroed are in hand; whatever happens, they are handed on -/
theorem zeroLoop_holds (env : Env) (sb : FatSb) (dirsync : Bool) (nrBhs left : ℕ) : ∀ (blknr : ℕ) {z : Zeroing},
    Holds base (z.bhs + held) z.s →
    Holds base ((zeroLoop env sb dirsync nrBhs left blknr z).2.bhs + held) (zeroLoop env sb dirsync nrBhs left blknr z).2.s := by
  induction left with
  | zero =>
    intro _ _ h
    exact h
  | succ left ih =>
    intro blknr z h
    rw [zeroLoop]
    by_cases hget : env.getblk z.s.t = false
    · rw [if_pos hget]
      exact h
    rw [if_neg hget]
    simp only
    set z1 : Zeroing := ⟨z.bhs ++ [blknr], { z.s with
      t := z.s.t + 1
      refs := Function.update z.s.refs blknr (z.s.refs blknr + 1)
      vol := Function.update z.s.vol blknr (splice (z.s.vol blknr) 0 (List.replicate sb.blocksize 0)) }⟩
    have htake : Holds base (z1.bhs + held) z1.s := Held.takeLast h blknr
    have hsync : Holds base (z1.bhs + held) (if dirsync then fatSyncBhs env z1.s z1.bhs else (0, z1.s)).2 := by
      split_ifs
      · exact fatSyncBhs_holds env _ htake
      · exact htake
    by_cases hfull : z1.bhs.length = nrBhs
    · rw [if_pos hfull]
      generalize (if dirsync then fatSyncBhs env z1.s z1.bhs else (0, z1.s)) = w at hsync ⊢
      by_cases herr : w.1 ≠ 0
      · rw [if_pos herr]
        exact hsync
      · rw [if_neg herr]
        apply ih _
        change Holds base (0 + held) _
        rw [zero_add]
        exact hsync.brelseAll
    · rw [if_neg hfull]
      exact ih _ htake

theorem fatZeroedCluster_holds {bhs : List ℕ} (h : Holds base (bhs + held) s) (env : Env) (sb : FatSb) (dirsync : Bool)
    (blknr nrBhs : ℕ) : Holds base held (fatZeroedCluster env sb dirsync s blknr bhs nrBhs).2 := by
  have hstart : Holds base ((⟨bhs, s⟩ : Zeroing).bhs + held) s := h
  have hloop := zeroLoop_holds env sb dirsync nrBhs (sb.secPerClus - bhs.length) (blknr + bhs.length) hstart
  unfold fatZeroedCluster
  simp only
  generalize zeroLoop env sb dirsync nrBhs (sb.secPerClus - bhs.length) (blknr + bhs.length) ⟨bhs, s⟩ = r at hloop ⊢
  apply Holds.brelseAll
  split_ifs
  · exact fatSyncBhs_holds env _ hloop
  · exact hloop

theorem newBlocks_holds (env : Env) (sb : FatSb) (left : ℕ) : ∀ (blknr : ℕ) {f : NewSlots}, Holds base (f.bhs + held) f.s →
    Holds base ((newBlocks env sb left blknr f).2.bhs + held) (newBlocks env sb left blknr f).2.s := by
  induction left with
  | zero =>
    intro _ _ h
    exact h
  | succ left ih =>
    intro blknr f h
    rw [newBlocks]
    by_cases hget : env.getblk f.s.t = false
    · rw [if_pos hget]
      exact h
    rw [if_neg hget]
    simp only
    have htake := Held.takeLast h blknr
    split_ifs
    · exact htake
    · exact ih _ htake

theorem newClusters_holds (env : Env) (sb : FatSb) (cs : List ℤ) : ∀ {f : NewSlots}, Holds base (f.bhs + held) f.s →
    Holds base ((newClusters env sb cs f).2.bhs + held) (newClusters env sb cs f).2.s := by
  induction cs with
  | nil => exact fun h => h
  | cons c cs ih =>
    intro f h
    have hblocks := newBlocks_holds env sb sb.secPerClus (fatClusToBlknr sb c) h
    rw [newClusters]
    generalize newBlocks env sb sb.secPerClus (fatClusToBlknr sb c) f = r at hblocks ⊢
    obtain ⟨ok, f1⟩ := r
    cases ok with
    | false => exact hblocks
    | true => exact ih hblocks

theorem zeroLoop_nonpos (env : Env) (sb : FatSb) (dirsync : Bool) (nrBhs left : ℕ) : ∀ (blknr : ℕ) (z : Zeroing),
    (zeroLoop env sb dirsync nrBhs left blknr z).1 ≤ 0 := by
  induction left with
  | zero =>
    intro _ _
    exact le_rfl
  | succ left ih =>
    intro blknr z
    rw [zeroLoop]
    by_cases hget : env.getblk z.s.t = false
    · rw [if_pos hget]
      exact show (- ENOMEM : ℤ) ≤ 0 by decide
    rw [if_neg hget]
    simp only
    split_ifs
    · exact fatSyncBhs_nonpos env _ _
    · exact ih _ _
    · exact le_rfl
    · exact ih _ _
    · exact ih _ _

theorem fatZeroedCluster_nonpos (env : Env) (sb : FatSb) (dirsync : Bool) (s : St) (blknr : ℕ) (bhs : List ℕ) (nrBhs : ℕ) :
    (fatZeroedCluster env sb dirsync s blknr bhs nrBhs).1 ≤ 0 := by
  have hloop := zeroLoop_nonpos env sb dirsync nrBhs (sb.secPerClus - bhs.length) (blknr + bhs.length) ⟨bhs, s⟩
  unfold fatZeroedCluster
  simp only
  split_ifs
  · exact fatSyncBhs_nonpos env _ _
  · exact hloop

/-- **`fat_add_new_entries`** hands out the buffer of the last new entry, and nothing when it fails. -/
theorem fatAddNewEntries_holds (h : Holds base held s) {dirsync : Bool} {slots : List UInt8} {nr : ℕ} {n : NewEntries}
    (hn : fatAddNewEntries env sb s dirsync slots nr = some n) :
    Holds base (inHand n.bh + held) n.s ∧ (¬ n.ret < 0 → n.bh.isSome) := by
  have hnone : ∀ {s : St}, Holds base held s → Holds base (inHand none + held) s := by
    intro s hs
    rwa [inHand_none, zero_add]
  unfold fatAddNewEntries at hn
  simp only at hn
  by_cases hbug : 2 < nrCluster sb nr
  · rw [if_pos hbug] at hn
    exact absurd hn (by simp)
  rw [if_neg hbug] at hn
  cases halloc : fatAllocClusters env sb s dirsync (nrCluster sb nr) with
  | none =>
    rw [halloc] at hn
    exact absurd hn (by simp)
  | some r =>
    rw [halloc] at hn
    simp only at hn
    have hr := fatAllocClusters_holds h halloc
    have hneg := fatAllocClusters_nonpos halloc
    by_cases herr : r.err ≠ 0
    · rw [if_pos herr, Option.some.injEq] at hn
      rw [← hn]
      exact ⟨hnone hr, fun hret => absurd (lt_of_le_of_ne hneg herr) hret⟩
    rw [if_neg herr] at hn
    have hstart : Holds base ((⟨[], 0, nr * DENT_SIZE, slots, r.s⟩ : NewSlots).bhs + held) r.s := by
      change Holds base (0 + held) r.s
      rwa [zero_add]
    have hnew := newClusters_holds env sb r.cluster hstart
    generalize newClusters env sb r.cluster ⟨[], 0, nr * DENT_SIZE, slots, r.s⟩ = w at hn hnew
    obtain ⟨ok, f⟩ := w
    cases ok with
    | false =>
      rw [Option.some.injEq] at hn
      rw [← hn]
      exact ⟨hnone (fatFreeClusters_holds hnew.brelseAll env sb _), fun hret => absurd (show (- ENOMEM : ℤ) < 0 by decide) hret⟩
    | true =>
      simp only at hn hnew
      -- a second reference to the last buffer, which the zeroing leaves
      have htake : Holds base (f.bhs + (f.bhs.getLastD 0 ::ₘ held)) { f.s with
          vol := Function.update f.s.vol (f.bhs.getLastD 0) (splice (f.s.vol (f.bhs.getLastD 0)) f.copy
            (List.replicate (sb.blocksize - f.copy) 0))
          refs := Function.update f.s.refs (f.bhs.getLastD 0) (f.s.refs (f.bhs.getLastD 0) + 1) } := by
        rw [Multiset.add_cons]
        exact Held.take hnew _
      have hzeroed := fatZeroedCluster_holds htake env sb dirsync (fatClusToBlknr sb (r.cluster.getLastD 0)) MAX_BUF_PER_PAGE
      have hzneg := fatZeroedCluster_nonpos env sb dirsync { f.s with
          vol := Function.update f.s.vol (f.bhs.getLastD 0) (splice (f.s.vol (f.bhs.getLastD 0)) f.copy
            (List.replicate (sb.blocksize - f.copy) 0))
          refs := Function.update f.s.refs (f.bhs.getLastD 0) (f.s.refs (f.bhs.getLastD 0) + 1) }
        (fatClusToBlknr sb (r.cluster.getLastD 0)) f.bhs MAX_BUF_PER_PAGE
      generalize fatZeroedCluster env sb dirsync _ (fatClusToBlknr sb (r.cluster.getLastD 0)) f.bhs MAX_BUF_PER_PAGE = z
        at hn hzeroed hzneg
      obtain ⟨err, s'⟩ := z
      simp only at hn hzeroed hzneg
      by_cases hz : err ≠ 0
      · rw [if_pos hz, Option.some.injEq] at hn
        rw [← hn]
        exact ⟨hnone (fatFreeClusters_holds hzeroed.brelse env sb _), fun hret => absurd (lt_of_le_of_ne hzneg hz) hret⟩
      · rw [if_neg hz, Option.some.injEq] at hn
        rw [← hn]
        refine ⟨?_, fun _ => rfl⟩
        rw [inHand_some, Multiset.singleton_add]
        exact hzeroed

/-! ## Removing entries -/

theorem fatRemoveSlots_holds (env : Env) (sb : FatSb) (dir : DirInode) (fuel : ℕ) : ∀ {s : St} (pos nrSlots : ℕ), Holds base held s →
    Holds base held (fatRemoveSlots env sb dir fuel s pos nrSlots).2 := by
  induction fuel with
  | zero => exact fun _ _ h => h
  | succ fuel ih =>
    intro s pos nrSlots h
    rw [fatRemoveSlots]
    by_cases hdone : nrSlots = 0
    · rw [if_pos hdone]
      exact h
    rw [if_neg hdone]
    have hinit : Holds base (inHand (⟨pos, none, none⟩ : DirCursor).bh + held) s := by
      change Holds base (0 + held) s
      rwa [zero_add]
    have hget := fatGetEntry_handed hinit env sb dir.toInode
    generalize fatGetEntry env sb s dir.toInode ⟨pos, none, none⟩ = r at hget ⊢
    obtain ⟨ok, cur, s1⟩ := r
    cases ok with
    | false =>
      have hnone := hget.holds
      rw [hget.ended rfl, inHand_none, zero_add] at hnone
      exact hnone
    | true =>
      obtain ⟨b, hb⟩ := Option.isSome_iff_exists.1 (hget.found rfl)
      have hheld := hget.holds
      simp only at hb hheld
      rw [hb, inHand_some, Multiset.singleton_add] at hheld
      simp only [hb, Option.getD_some]
      set s2 : St := { s1 with vol := Function.update s1.vol b (markDeleted (s1.vol b) (cur.de.getD 0)
        (min nrSlots ((sb.blocksize - cur.de.getD 0) / DENT_SIZE))) }
      have hmarked : Holds base (b ::ₘ held) s2 := hheld
      have hwrite : Holds base (b ::ₘ held) (if dir.dirsync then syncDirtyBuffer env s2 b else (true, s2)).2 := by
        split_ifs
        · exact syncDirtyBuffer_holds hmarked env b
        · exact hmarked
      generalize (if dir.dirsync then syncDirtyBuffer env s2 b else (true, s2)) = w at hwrite ⊢
      split_ifs
      · exact ih _ _ hwrite.brelse
      · exact hwrite.brelse

/-! ## `fat_add_entries` -/

/-- what `fat_add_entries` has in hand: the buffer of the last entry that it added, or nothing when it fails -/
structure AddedHolds (base : ℕ → ℤ) (held : Multiset ℕ) (r : AddEntries) : Prop where
  ok : r.err = 0 → ∃ sinfo b, r.sinfo = some sinfo ∧ sinfo.bh = some b ∧ Holds base (b ::ₘ held) r.s
  fails : r.err ≠ 0 → Holds base held r.s

theorem errorRemove_holds {bh : Option ℕ} (h : Holds base (inHand bh + held) s) (env : Env) (sb : FatSb) (dir : DirInode)
    (pos freeSlots : ℕ) {err : ℤ} (herr : err ≠ 0) : AddedHolds base held (errorRemove env sb dir bh pos freeSlots err s) := by
  refine ⟨fun h0 => absurd h0 herr, fun _ => ?_⟩
  have hremove : ∀ {s' : St}, Holds base held s' →
      Holds base held (if freeSlots ≠ 0 then (fatRemoveSlots env sb dir freeSlots s' pos freeSlots).2 else s') := by
    intro s' hs'
    split_ifs
    · exact fatRemoveSlots_holds env sb dir freeSlots pos freeSlots hs'
    · exact hs'
  cases bh with
  | none => exact hremove h.brelseHand
  | some b => exact hremove h.brelseHand

theorem appendSlots_holds (h : Holds base held s) {dir : DirInode} {pos freeSlots nrSlots : ℕ} {slots : List UInt8}
    {r : AddEntries} (hr : appendSlots env sb dir pos freeSlots nrSlots slots s = some r) : AddedHolds base held r := by
  unfold appendSlots at hr
  cases hnew : fatAddNewEntries env sb s dir.dirsync slots nrSlots with
  | none =>
    rw [hnew] at hr
    exact absurd hr (by simp)
  | some n =>
    rw [hnew] at hr
    simp only at hr
    obtain ⟨hn, hsome⟩ := fatAddNewEntries_holds h hnew
    by_cases hneg : n.ret < 0
    · rw [if_pos hneg, Option.some.injEq] at hr
      rw [← hr]
      exact errorRemove_holds hn env sb dir pos freeSlots hneg.ne
    rw [if_neg hneg] at hr
    have hchain := fatChainAdd_holds hn env sb dir n.ret n.nrCluster
    generalize fatChainAdd env sb n.s dir n.ret n.nrCluster = c at hr hchain
    by_cases hc : c.ret ≠ 0
    · rw [if_pos hc, Option.some.injEq] at hr
      rw [← hr]
      exact errorRemove_holds (fatFreeClusters_holds hchain env sb n.ret) env sb c.dir pos freeSlots hc
    · rw [if_neg hc, Option.some.injEq] at hr
      obtain ⟨b, hb⟩ := Option.isSome_iff_exists.1 (hsome hneg)
      rw [hb, inHand_some, Multiset.singleton_add] at hchain
      rw [← hr]
      exact ⟨fun _ => ⟨_, b, rfl, hb, hchain⟩, fun h0 => absurd rfl h0⟩

/-- the second stage has given back the buffers of the free slots before the third one starts -/
theorem addFound_holds {e : SearchEnd} {f : FreeSearch} {nr : ℕ} (h : Searched base held nr (e, f)) (hfull : e ≠ .full)
    {dir : DirInode} {slots : List UInt8} {r : AddEntries} (hr : addFound env sb dir slots nr f = some r) : AddedHolds base held r := by
  have hholds := h.holds
  unfold FreeSearch.hand at hholds
  rw [add_comm (inHand _), add_assoc] at hholds
  have hfill : ∀ pos left, Holds base (inHand f.cur.bh + held) (if f.freeSlots ≠ 0 then
      fillFree env sb dir.dirsync f.bhs left ⟨pos % sb.blocksize, f.freeSlots * DENT_SIZE, slots, f.s⟩
      else (0, ⟨pos % sb.blocksize, f.freeSlots * DENT_SIZE, slots, f.s⟩)).2.s := by
    intro pos left
    split_ifs with hfree
    · exact fillFree_holds (f := ⟨pos % sb.blocksize, f.freeSlots * DENT_SIZE, slots, f.s⟩) hholds env sb dir.dirsync left
    · rw [show f.bhs = [] from h.empty (not_not.1 hfree), Multiset.coe_nil, zero_add] at hholds
      exact hholds
  unfold addFound at hr
  simp only at hr
  have hfilled := hfill (f.cur.pos - f.freeSlots * DENT_SIZE) (nr - f.freeSlots)
  generalize (if f.freeSlots ≠ 0 then fillFree env sb dir.dirsync f.bhs (nr - f.freeSlots)
    ⟨(f.cur.pos - f.freeSlots * DENT_SIZE) % sb.blocksize, f.freeSlots * DENT_SIZE, slots, f.s⟩
    else (0, ⟨(f.cur.pos - f.freeSlots * DENT_SIZE) % sb.blocksize, f.freeSlots * DENT_SIZE, slots, f.s⟩)) = w at hr hfilled
  obtain ⟨err, fill⟩ := w
  simp only at hr hfilled
  by_cases herr : err ≠ 0
  · rw [if_pos herr, Option.some.injEq] at hr
    rw [← hr]
    exact errorRemove_holds hfilled env sb dir _ f.freeSlots herr
  rw [if_neg herr] at hr
  cases e with
  | full => exact absurd rfl hfull
  | found =>
    obtain ⟨hslots, hsome⟩ := h.enough rfl
    obtain ⟨b, hb⟩ := Option.isSome_iff_exists.1 hsome
    simp only at hslots hb
    rw [if_neg (not_not.2 (Nat.sub_eq_zero_of_le hslots.ge)), Option.some.injEq] at hr
    rw [hb, inHand_some, Multiset.singleton_add] at hfilled
    rw [← hr]
    exact ⟨fun _ => ⟨_, b, rfl, hb, hfilled⟩, fun h0 => absurd rfl h0⟩
  | ended =>
    obtain ⟨hslots, hnone⟩ := h.short rfl
    simp only at hslots hnone
    rw [if_pos (Nat.sub_ne_zero_of_lt hslots)] at hr
    rw [hnone, inHand_none, zero_add] at hfilled
    exact appendSlots_holds hfilled hr

theorem addError_holds {f : FreeSearch} (h : Holds base (f.hand + held) f.s) (dir : DirInode) {err : ℤ} (herr : err ≠ 0) :
    AddedHolds base held (addError dir err f) := by
  refine ⟨fun h0 => absurd h0 herr, fun _ => ?_⟩
  unfold FreeSearch.hand at h
  rw [add_assoc] at h
  have hgive := h.brelseHand
  unfold addError
  cases hbh : f.cur.bh with
  | none =>
    rw [hbh] at hgive
    exact hgive.brelseAll
  | some b =>
    rw [hbh] at hgive
    exact hgive.brelseAll

/-- **`fat_add_entries`** hands out the buffer of the last entry, and nothing when it fails. -/
theorem fatAddEntries_holds (h : Holds base held s) {dir : DirInode} {slots : List UInt8} {nr : ℕ} (hnr : 0 < nr) {r : AddEntries}
    (hr : fatAddEntries env sb s dir slots nr = some r) : AddedHolds base held r := by
  have hsearch := searchFree_searched h env sb dir.toInode hnr
  unfold fatAddEntries at hr
  generalize searchFree env sb s dir.toInode nr = w at hr hsearch
  obtain ⟨e, f⟩ := w
  cases e with
  | full =>
    rw [Option.some.injEq] at hr
    rw [← hr]
    exact addError_holds hsearch.holds dir (show (- ENOSPC : ℤ) ≠ 0 by decide)
  | found => exact addFound_holds hsearch (by simp) hr
  | ended =>
    simp only at hr
    by_cases hbad : dir.isRoot = false ∧ dir.iStart = 0
    · rw [if_pos hbad, Option.some.injEq] at hr
      rw [← hr]
      exact addError_holds hsearch.holds dir (show (- EIO : ℤ) ≠ 0 by decide)
    · rw [if_neg hbad] at hr
      exact addFound_holds hsearch (by simp) hr

end

end AtsLdd.Fat
