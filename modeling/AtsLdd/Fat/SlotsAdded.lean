/-
The slots that `fat_add_entries` writes, in a directory whose blocks can be read.

- `fatAddEntries_added`: a call that succeeds writes its slots one behind the other to slots that were free or are new, and no
  other slot; either the directory has enough free slots in a row, or it grows;
- `Grown.dirChain_cut`: the chain of a directory that has grown is too short when a link is to the number of the bad mark.
-/
import AtsLdd.Fat.DirBytes

namespace AtsLdd.Fat

open AtsLdd.Machine AtsLdd.ByteMap AtsLdd.LinkTable AtsLdd.Paged

/-- the slot information of the `nr` slots from slot `i` on, with the buffer of the last one held -/
def rowInfo (sb : FatSb) (l : List ℤ) (i nr : ℕ) : SlotInfo :=
  ⟨fatMakeIPos sb (slotBlock sb l (i + nr - 1)) (slotOff sb (i + nr - 1)), DENT_SIZE * i, nr,
    some (slotOff sb (i + nr - 1)), some (slotBlock sb l (i + nr - 1))⟩

/-- the slots from slot `i` on are the `nr` new ones of a directory with the clusters `l`, which has grown by `cs` -/
structure AddedAt (sb : FatSb) (s : St) (l cs : List ℤ) (slots : List UInt8) (nr i : ℕ) (r : AddEntries) : Prop where
  clusters : Clusters sb (l ++ cs)
  new : ∀ c ∈ cs, fatVal sb s.vol c = FAT_ENT_FREE
  fits : i + nr ≤ nrSlots sb (l ++ cs)
  free : ∀ j, i ≤ j → j < i + nr → j < nrSlots sb l → IsFree (slot sb l s.vol j)
  /-- behind the new slots the new clusters are zero -/
  bytes : ∃ zeros, (zeros = 0 ∨ nrSlots sb l ≤ i + nr) ∧ ∀ p < nrBytes sb (l ++ cs), dirBytes sb (l ++ cs) r.s.vol p =
    splice (dirBytes sb (l ++ cs) s.vol) (DENT_SIZE * i) (slots ++ List.replicate zeros 0) p
  sinfo : r.sinfo = some (rowInfo sb (l ++ cs) i nr)

section
variable {env : Env} {sb : FatSb} {s : St} {dir : DirInode} {l cs : List ℤ} {vol vol' : Vol} {nr i m : ℕ}

/-! ## Clusters -/

theorem freeEntries_inRange {prevFree : ℕ} : ∀ x ∈ freeEntries sb vol prevFree, InRange sb x := by
  intro x hx
  have hscan := List.mem_of_mem_filter hx
  rcases Nat.lt_or_ge 2 sb.maxCluster with hmax | hmax
  · exact scan_inRange hmax x hscan
  · have hzero : sb.maxCluster - 2 = 0 := by omega
    rw [hzero] at hscan
    exact absurd hscan List.not_mem_nil

/-- the clusters of a directory are not free -/
theorem DirChain.used {start : ℤ} (h : DirChain sb vol start l) : ∀ x ∈ l, fatVal sb vol x ≠ FAT_ENT_FREE := by
  rcases h with ⟨-, rfl⟩ | p
  · intro _ hx
    exact absurd hx List.not_mem_nil
  · intro x hx hfree
    exact p.not_free hx ((table_eq_free (path_inRange p x hx)).2 (fatLink_eq_free.2 hfree))

/-- a directory and clusters that are free -/
theorem DirChain.clusters_append {start : ℤ} (h : DirChain sb vol start l) (prevFree k : ℕ) :
    Clusters sb (l ++ (freeEntries sb vol prevFree).take k) := by
  have hfree : ∀ x ∈ (freeEntries sb vol prevFree).take k, fatVal sb vol x = FAT_ENT_FREE := by
    intro x hx
    have hmem := List.mem_of_mem_take hx
    exact (mem_freeEntries (freeEntries_inRange x hmem)).1 hmem
  refine ⟨fun x hx => (List.mem_append.1 hx).elim (h.inRange x) fun hx => freeEntries_inRange x (List.mem_of_mem_take hx), ?_⟩
  refine List.nodup_append.2 ⟨h.nodup, (freeEntries_nodup sb vol prevFree).sublist (List.take_sublist _ _), ?_⟩
  intro x hx y hy hxy
  exact h.used x hx (hxy ▸ hfree y hy)

/-- a chain depends on the FAT of the volume it was free in only -/
theorem Chained.congr_start {vol0 : Vol} (h : Chained sb vol vol' cs) (heq : EqFat sb vol0 vol) : Chained sb vol0 vol' cs where
  nodup := h.nodup
  inRange := h.inRange
  free := fun x hx => (heq.val (h.inRange x hx)).symm.trans (h.free x hx)
  frame := fun x hx hxc => (h.frame x hx hxc).trans (heq.val hx)
  chain := h.chain
  last := h.last
  top := fun x hx => (h.top x hx).trans (heq.top hx)

theorem Grown.congr_start {s0 s' : St} {dir' : DirInode} (h : Grown sb s dir l cs s' dir') (hsame : SameFat sb s0 s) :
    Grown sb s0 dir l cs s' dir' := by
  obtain ⟨vol, hch, heq⟩ := h.link
  exact ⟨⟨vol, hch.congr_start hsame.vol, heq⟩, h.dir, h.prevFree⟩

theorem released_length_lt {c : ℤ} {cs : List ℤ} (hbad : BAD_FAT32 ∈ cs) : (released (c :: cs)).length < (c :: cs).length := by
  have hle := (List.takeWhile_prefix (l := cs) (· ≠ BAD_FAT32)).length_le
  have hne : cs.takeWhile (· ≠ BAD_FAT32) ≠ cs := by
    intro h
    have hall := List.takeWhile_eq_self_iff.1 h BAD_FAT32 hbad
    exact absurd hall (by simp)
  have hlen : (cs.takeWhile (· ≠ BAD_FAT32)).length ≠ cs.length :=
    fun h => hne ((List.takeWhile_prefix _).eq_of_length h)
  unfold released
  rw [List.length_cons, List.length_cons]
  omega

/-- **A link to the number of the bad mark** ends the chain of a directory before all its clusters. -/
theorem Grown.dirChain_cut {s' : St} {dir' : DirInode} (h : Grown sb s dir l cs s' dir')
    (hchain : DirChain sb s.vol dir.iStart l) (hne : cs ≠ []) (hbad : BAD_FAT32 ∈ if dir.iStart = 0 then cs.tail else cs)
    {cs' : List ℤ} (hchain' : DirChain sb s'.vol dir'.iStart (l ++ cs')) : cs'.length < cs.length := by
  obtain ⟨vol, hch, heq⟩ := h.link
  obtain ⟨c, t, rfl⟩ := List.exists_cons_of_ne_nil hne
  have hc : InRange sb c := hch.inRange c List.mem_cons_self
  have hstart' : dir'.iStart = if dir.iStart = 0 then c else dir.iStart := by
    rw [h.dir]
    split_ifs <;> rfl
  have prel := hch.path_released
  -- the chain as it is read, and its length
  obtain ⟨l', p', hlen⟩ : ∃ l', Path (table sb s'.vol) dir'.iStart l' ∧ l'.length < l.length + (c :: t).length := by
    rw [hstart', heq.table]
    rcases hchain with ⟨hzero, rfl⟩ | p
    · rw [if_pos hzero] at hbad ⊢
      exact ⟨_, prel, by rw [List.length_nil, Nat.zero_add]; exact released_length_lt hbad⟩
    · have hstart : dir.iStart ≠ 0 := (path_inRange p _ p.head_mem).pos.ne'
      rw [if_neg hstart] at hbad ⊢
      have hdis : l.Disjoint (c :: t) := fun x hxl hxc => p.not_free hxl (hch.table_free x hxc)
      have p1 : Path (table sb vol) dir.iStart l := p.congr fun x hx => hch.table_frame x fun hxc => hdis hx hxc
      have hlast := path_inRange p1 _ (List.getLast_mem p1.ne_nil)
      have htable : table sb (linkLast sb vol l c) =
          Function.update (table sb vol) (l.getLast p1.ne_nil) (toLink (readBack c)) := by
        unfold linkLast
        rw [List.getLast?_eq_some_getLast p1.ne_nil]
        exact table_fatPut hlast hc.storable
      rw [List.headD_cons, htable]
      by_cases hcbad : c = BAD_FAT32
      · -- the last cluster stays the last one
        refine ⟨l, p1.congr fun x _ => ?_, Nat.lt_add_of_pos_right (Nat.succ_pos _)⟩
        rw [hcbad, toLink_readBack_bad, ← p1.getLast, Function.update_eq_self]
      · have hbadt : BAD_FAT32 ∈ t := (List.mem_cons.1 hbad).resolve_left fun hm => hcbad hm.symm
        have hsub : ∀ x ∈ released (c :: t), x ∈ c :: t := by
          intro x hx
          rcases List.mem_cons.1 hx with rfl | hx
          · exact List.mem_cons_self
          · exact List.mem_cons_of_mem c ((List.takeWhile_prefix _).subset hx)
        have happ := p1.append prel fun x hxl hxr => hdis hxl (hsub x hxr)
        rw [toLink_readBack hc hcbad]
        refine ⟨_, happ, ?_⟩
        rw [List.length_append]
        exact Nat.add_lt_add_left (released_length_lt hbadt) _
  rcases hchain' with ⟨hzero, -⟩ | p
  · exact absurd hzero (path_inRange p' _ p'.head_mem).pos.ne'
  · rw [p'.unique p, List.length_append] at hlen
    omega

/-- the slots handed out are all below the maximum size -/
theorem nrBytes_small (hdir : DirOn sb s.vol dir.toInode l) (hread : Readable env sb l)
    (hlt : ∀ e ∈ allMarks env sb s dir.toInode, e.1 < FAT_MAX_DIR_SIZE) : nrBytes sb l < FAT_MAX_DIR_SIZE := by
  rw [nrBytes_eq]
  rcases Nat.eq_zero_or_pos (nrSlots sb l) with hzero | hpos
  · rw [hzero]
    decide
  · have hmem : (DENT_SIZE * nrSlots sb l, decide (IsFree (slot sb l s.vol (nrSlots sb l - 1)))) ∈ allMarks env sb s dir.toInode := by
      have hmarks := allMarks_eq hdir hread
      rw [hmarks]
      refine List.mem_map.2 ⟨nrSlots sb l - 1, List.mem_range.2 (Nat.sub_lt hpos Nat.one_pos), ?_⟩
      rw [Nat.sub_add_cancel hpos]
    exact hlt _ hmem

/-! ## The stages -/

/-- the slots in hand are filled, seen in a longer directory -/
theorem fillStage_bytes (hall : Clusters sb (l ++ cs)) {f : FreeSearch} (hrun : RunAt sb l vol (i + m) m f) (hle : i + m ≤ nrSlots sb l)
    {slots : List UInt8} (hlen : DENT_SIZE * m ≤ slots.length) (dirsync : Bool) (left : ℕ) {w : ℤ × FillSlots}
    (hw : w = if f.freeSlots ≠ 0 then
        fillFree env sb dirsync f.bhs left ⟨DENT_SIZE * i % sb.blocksize, f.freeSlots * DENT_SIZE, slots, f.s⟩
      else (0, ⟨DENT_SIZE * i % sb.blocksize, f.freeSlots * DENT_SIZE, slots, f.s⟩))
    (h0 : w.1 = 0) : w.2.slots = slots.drop (DENT_SIZE * m) ∧ ∀ p < nrBytes sb (l ++ cs), dirBytes sb (l ++ cs) w.2.s.vol p =
      splice (dirBytes sb (l ++ cs) f.s.vol) (DENT_SIZE * i) (slots.take (DENT_SIZE * m)) p := by
  rw [hrun.count] at hw
  rcases Nat.eq_zero_or_pos m with rfl | hm
  · rw [if_neg (not_not.2 rfl)] at hw
    rw [hw, Nat.mul_zero, List.drop_zero, List.take_zero]
    exact ⟨rfl, fun p _ => (congrFun (splice_nil _ _) p).symm⟩
  · rw [if_pos hm.ne'] at hw
    have hbhs : f.bhs = (blockRun sb i m).map (dirBlock sb (l ++ cs)) := by
      have hrunbhs := hrun.bhs
      rw [Nat.add_sub_cancel] at hrunbhs
      rw [hrunbhs]
      refine List.map_congr_left fun q hq => (dirBlock_append_left ?_).symm
      unfold blockRun at hq
      rw [if_neg hm.ne'] at hq
      obtain ⟨h1, h2⟩ := List.mem_range'_1.1 hq
      have hlast := slot_block (show i + m - 1 < nrSlots sb l by omega)
      omega
    have hfits : i + m ≤ nrSlots sb (l ++ cs) := by
      unfold nrSlots at hle ⊢
      rw [nrBlocks_append, Nat.add_mul]
      omega
    rw [hbhs] at hw
    rw [hw] at h0 ⊢
    exact fillFree_bytes hall env dirsync hm hfits hlen h0

/-- what a call that succeeds has done: the directory has enough free slots in a row, or it has grown -/
inductive Added (sb : FatSb) (s : St) (dir : DirInode) (l : List ℤ) (slots : List UInt8) (nr : ℕ) (r : AddEntries) : Prop
  | inside {i : ℕ} (run : HasRun (slotMarks sb l s.vol) nr) (at_ : AddedAt sb s l [] slots nr i r) (dir : r.dir = dir)
      (same : SameFat sb s r.s)
  | grown {i : ℕ} {cs : List ℤ} (run : ¬ HasRun (slotMarks sb l s.vol) nr) (small : nrBytes sb l < FAT_MAX_DIR_SIZE)
      (clusters : cs = (freeEntries sb s.vol s.prevFree).take (nrCluster sb (nr - freeTail (slotMarks sb l s.vol))))
      (length : cs.length = nrCluster sb (nr - freeTail (slotMarks sb l s.vol))) (left : 0 < nr - freeTail (slotMarks sb l s.vol))
      (at_ : AddedAt sb s l cs slots nr i r) (link : Grown sb s dir l cs r.s r.dir)

theorem SlotsFound.hasRun (hrun : ∀ j, i ≤ j → j < i + nr → IsFree (slot sb l vol j)) (hle : i + nr ≤ nrSlots sb l) :
    HasRun (slotMarks sb l vol) nr := by
  refine ⟨i, fun j hj => ?_⟩
  rw [slotMarks_get (by omega), decide_eq_true (hrun (i + j) (Nat.le_add_right i j) (Nat.add_lt_add_left hj i))]

/-- **Slots that are found** in the directory. -/
theorem addFound_inside (hdir : DirOn sb s.vol dir.toInode l) {f : FreeSearch} (hlook : Looked s f.s) (hnr : 0 < nr)
    (hle : i + nr ≤ nrSlots sb l) (hrun : RunAt sb l s.vol (i + nr) nr f) (hcur : f.cur = slotCursor sb l (i + nr - 1))
    {slots : List UInt8} (hlen : slots.length = DENT_SIZE * nr) {r : AddEntries}
    (hr : addFound env sb dir slots nr f = some r) (h0 : r.err = 0) :
    AddedAt sb s l [] slots nr i r ∧ r.dir = dir := by
  have hall : Clusters sb (l ++ []) := by
    rw [List.append_nil]
    exact hdir.chain.clusters
  have hpos : f.cur.pos - f.freeSlots * DENT_SIZE = DENT_SIZE * i := by
    have hend : i + nr - 1 + 1 = i + nr := Nat.sub_add_cancel (by omega)
    rw [hcur, hrun.count]
    change DENT_SIZE * (i + nr - 1 + 1) - nr * DENT_SIZE = _
    rw [hend, Nat.mul_add, Nat.mul_comm nr, Nat.add_sub_cancel]
  unfold addFound at hr
  simp only [hpos] at hr
  generalize hw : (if f.freeSlots ≠ 0 then fillFree env sb dir.dirsync f.bhs (nr - f.freeSlots)
    ⟨DENT_SIZE * i % sb.blocksize, f.freeSlots * DENT_SIZE, slots, f.s⟩ else (0, _)) = w at hr
  by_cases herr : w.1 ≠ 0
  · rw [if_pos herr, Option.some.injEq] at hr
    rw [← hr] at h0
    exact absurd h0 herr
  rw [if_neg herr, if_neg (show ¬ nr - f.freeSlots ≠ 0 by rw [hrun.count]; omega), Option.some.injEq] at hr
  obtain ⟨-, hbytes⟩ := fillStage_bytes hall hrun hle hlen.ge dir.dirsync _ hw.symm (not_not.1 herr)
  rw [← hr]
  refine ⟨⟨hall, fun c hc => absurd hc List.not_mem_nil, by rwa [List.append_nil], fun j h1 h2 _ => ?_,
    ⟨0, Or.inl rfl, fun p hp => ?_⟩, ?_⟩, rfl⟩
  · exact hrun.free j (by omega) h2
  · have hsame : SameData sb s f.s := SameData.of_vol hlook.vol
    simp only
    rw [hbytes p hp, splice_congr (dirBytes_sameData hall hsame hp), List.take_of_length_le hlen.le, List.replicate_zero,
      List.append_nil slots]
  · simp only [hcur, List.append_nil]
    rfl

/-- **Slots that do not fit** into the directory. -/
theorem addFound_grown (hdir : DirOn sb s.vol dir.toInode l) (hroot : dir.iStart = 0 → dir.isRoot = true)
    (hpf : PrevFreeOk sb s) {f : FreeSearch} (hok : SearchOk sb dir.toInode s f) (h21 : nr ≤ 21) (hm : m < nr)
    (hrun : RunAt sb l s.vol (nrSlots sb l) m f) (hpos : f.cur.pos = DENT_SIZE * nrSlots sb l)
    {slots : List UInt8} (hlen : slots.length = DENT_SIZE * nr) {r : AddEntries}
    (hr : addFound env sb dir slots nr f = some r) (h0 : r.err = 0)
    (hcs : cs = (freeEntries sb s.vol s.prevFree).take (nrCluster sb (nr - m))) :
    AddedAt sb s l cs slots nr (nrSlots sb l - m) r ∧ cs.length = nrCluster sb (nr - m) ∧ Grown sb s dir l cs r.s r.dir := by
  have hall : Clusters sb (l ++ cs) := by
    rw [hcs]
    exact hdir.chain.clusters_append _ _
  have hle : m ≤ nrSlots sb l := hrun.le
  obtain ⟨i, hi⟩ : ∃ i, i + m = nrSlots sb l := ⟨_, Nat.sub_add_cancel hle⟩
  have hsub : nrSlots sb l - m = i := by omega
  have hleft : 0 < nr - m := by omega
  rw [← hi] at hrun
  have hfpos : f.cur.pos - f.freeSlots * DENT_SIZE = DENT_SIZE * i := by
    rw [hpos, hrun.count, ← hi, Nat.mul_add, Nat.mul_comm m, Nat.add_sub_cancel]
  unfold addFound at hr
  simp only [hfpos] at hr
  have hsame1 := (hok.looked.sameFat sb).trans (fillStage_sameFat env dir.dirsync hok.bhs (nr - f.freeSlots) f.freeSlots
    ⟨DENT_SIZE * i % sb.blocksize, f.freeSlots * DENT_SIZE, slots, f.s⟩)
  generalize hw : (if f.freeSlots ≠ 0 then fillFree env sb dir.dirsync f.bhs (nr - f.freeSlots)
    ⟨DENT_SIZE * i % sb.blocksize, f.freeSlots * DENT_SIZE, slots, f.s⟩ else (0, _)) = w at hr hsame1
  by_cases herr : w.1 ≠ 0
  · rw [if_pos herr, Option.some.injEq] at hr
    rw [← hr] at h0
    exact absurd h0 herr
  rw [if_neg herr, hrun.count, if_pos hleft.ne'] at hr
  obtain ⟨hslots, hbytes⟩ := fillStage_bytes hall hrun hi.le (by rw [hlen]; exact Nat.mul_le_mul_left _ hm.le) dir.dirsync _ hw.symm
    (not_not.1 herr)
  have hchain1 : DirChain sb w.2.s.vol dir.iStart l := EqFat.dirChain hsame1.vol hdir.chain
  have hpf1 : PrevFreeOk sb w.2.s := by
    unfold PrevFreeOk
    rw [hsame1.prevFree]
    exact hpf
  have hfree1 : freeEntries sb w.2.s.vol w.2.s.prevFree = freeEntries sb s.vol s.prevFree := by
    rw [hsame1.prevFree, freeEntries_congr hsame1.vol]
  obtain ⟨cs', hcs', hcslen, hgrown⟩ := appendSlots_grown hchain1 hroot hpf1 hleft hr h0
  rw [hfree1, ← hcs] at hcs'
  rw [hcs'] at hcslen hgrown
  refine ⟨?_, hcslen, hgrown.congr_start hsame1⟩
  -- the new clusters hold the slots that were left
  unfold appendSlots at hr
  cases hn : fatAddNewEntries env sb w.2.s dir.dirsync w.2.slots (nr - m) with
  | none =>
    rw [hn] at hr
    exact absurd hr (by simp)
  | some n =>
    rw [hn] at hr
    simp only at hr
    by_cases hret : n.ret < 0
    · rw [if_pos hret, Option.some.injEq] at hr
      rw [← hr] at h0
      exact absurd h0 hret.ne
    rw [if_neg hret] at hr
    have hlenw : w.2.slots.length = DENT_SIZE * (nr - m) := by
      rw [hslots, List.length_drop, hlen, Nat.mul_sub]
    obtain ⟨-, hbh, hde, hnew⟩ := fatAddNewEntries_bytes hdir.chain.clusters hchain1.used hpf1 hleft (by omega) hlenw hn hret
      (hcs.trans (by rw [hfree1]))
    obtain ⟨cs', hcs', -, hch, -⟩ := fatAddNewEntries_ret hpf1 hleft hn hret
    rw [hfree1, ← hcs] at hcs'
    rw [hcs'] at hch
    by_cases hadd : (fatChainAdd env sb n.s dir n.ret n.nrCluster).ret ≠ 0
    · rw [if_pos hadd, Option.some.injEq] at hr
      rw [← hr] at h0
      exact absurd h0 hadd
    rw [if_neg hadd, Option.some.injEq] at hr
    have hlastslot : nrSlots sb l + (nr - m) - 1 = i + nr - 1 := by omega
    rw [hlastslot] at hbh hde
    have hchain2 : DirChain sb n.s.vol dir.iStart l := by
      rcases hchain1 with hz | p
      · exact Or.inl hz
      · exact Or.inr (p.congr fun x hx => hch.table_frame x fun hxc => p.not_free hx (hch.table_free x hxc))
    have hlink := fatChainAdd_sameData env hroot hchain2 (not_not.1 hadd)
    have hlook : SameData sb s f.s := SameData.of_vol hok.looked.vol
    rw [hsub, ← hr]
    refine ⟨hall, fun c hc => ?_, ?_, fun j h1 h2 h3 => hrun.free j (by omega) (by omega),
      ⟨nrCluster sb (nr - m) * sb.clusterSize - DENT_SIZE * (nr - m), Or.inr (by omega), fun p hp => ?_⟩, ?_⟩
    · rw [hcs] at hc
      have hmem := List.mem_of_mem_take hc
      exact (mem_freeEntries (freeEntries_inRange c hmem)).1 hmem
    · -- the new slots fit into the new clusters
      have hfit := (nrCluster_spec sb hleft).2
      have hbytesAll := nrBytes_append sb l cs
      rw [nrBytes_clusters sb cs, nrBytes_eq, nrBytes_eq, hcslen] at hbytesAll
      refine Nat.le_of_mul_le_mul_left (?_ : DENT_SIZE * (i + nr) ≤ _) (show 0 < DENT_SIZE by decide)
      rw [hbytesAll, ← hi, show i + nr = i + m + (nr - m) by omega, Nat.mul_add]
      exact Nat.add_le_add_left hfit _
    · have hpos1 : nrBytes sb l = DENT_SIZE * i + (slots.take (DENT_SIZE * m)).length := by
        rw [nrBytes_eq, ← hi, Nat.mul_add, List.length_take, hlen, min_eq_left (Nat.mul_le_mul_left _ hm.le)]
      simp only
      rw [dirBytes_sameData hall hlink hp, hnew p hp, splice_congr (hbytes p hp),
        hpos1, splice_append, ← List.append_assoc, hslots, List.take_append_drop,
        splice_congr (dirBytes_sameData hall hlook hp)]
    · simp only [hbh, hde, Option.getD_some]
      rw [Nat.add_sub_cancel' hm.le]
      rfl

/-- **A call that succeeds** has written its slots one behind the other to slots that were free or are new. -/
theorem fatAddEntries_added (hdir : DirOn sb s.vol dir.toInode l) (hread : Readable env sb l) (hpf : PrevFreeOk sb s)
    (hnr : 1 ≤ nr) (h21 : nr ≤ 21) {slots : List UInt8} (hlen : slots.length = DENT_SIZE * nr) {r : AddEntries}
    (hr : fatAddEntries env sb s dir slots nr = some r) (h0 : r.err = 0) : Added sb s dir l slots nr r := by
  have hsearch := searchFree_slots hdir hread hnr
  have hok := searchFree_ok env hdir.chain nr
  have hmarks := searchFree_marks env sb s dir.toInode nr
  have hended := scanMarks_ended (allMarks env sb s dir.toInode) (k := 0) hnr
  rw [← hmarks, allMarks_slots hdir hread, List.replicate_zero, List.nil_append] at hended
  have hzero := fatAddEntries_zero hdir.chain hnr hr h0
  unfold fatAddEntries at hr
  generalize searchFree env sb s dir.toInode nr = w at hr hsearch hok hended
  obtain ⟨fin, f⟩ := w
  simp only at hok hended
  cases fin with
  | full =>
    rw [Option.some.injEq] at hr
    rw [← hr] at h0
    exact absurd h0 (show ¬ (- ENOSPC : ℤ) = 0 by decide)
  | found =>
    obtain ⟨i, hle, hrun, hcur⟩ := hsearch.found rfl
    obtain ⟨hat, hrdir⟩ := addFound_inside hdir hok.looked hnr hle hrun hcur hlen hr h0
    have hhas : HasRun (slotMarks sb l s.vol) nr :=
      SlotsFound.hasRun (fun j h1 h2 => hrun.free j (by omega) h2) hle
    rcases hzero with ⟨-, hsame⟩ | ⟨-, hno, -⟩
    · exact .inside hhas hat hrdir hsame
    · rw [allMarks_slots hdir hread] at hno
      exact absurd hhas hno
  | ended =>
    obtain ⟨m, hm, hrun, hpos⟩ := hsearch.ended rfl
    obtain ⟨hlt, hno, htail⟩ := hended rfl
    rw [hrun.count] at htail
    by_cases hcorrupt : dir.isRoot = false ∧ dir.iStart = 0
    · simp only [if_pos hcorrupt, Option.some.injEq] at hr
      rw [← hr] at h0
      exact absurd h0 (show ¬ (- EIO : ℤ) = 0 by decide)
    simp only [if_neg hcorrupt] at hr
    have hroot : dir.iStart = 0 → dir.isRoot = true := by
      intro hz
      by_contra hnot
      exact hcorrupt ⟨Bool.eq_false_iff.2 hnot, hz⟩
    obtain ⟨hat, hcslen, hgrown⟩ := addFound_grown hdir hroot hpf hok h21 hm hrun hpos hlen hr h0 rfl
    have hleft : 0 < nr - m := by omega
    rw [htail] at hat hcslen hgrown hleft
    exact .grown hno (nrBytes_small hdir hread hlt) rfl hcslen hleft hat hgrown

end

end AtsLdd.Fat
