/-
The sizes of a directory: `i_size`, `mmu_private` and `i_blocks` over runs of `fat_add_entries`.

- `appendSlots_zero`: a directory that has grown has the new clusters at the end of its chain, and its sizes count them;
- `fatAddEntries_zero`: a call that succeeds leaves chain and sizes as they are, or the directory has grown so;
- `dirSizes_run`: the sizes fit the chain after every call of a run in which the clusters that are appended fit;
- `dirSizes_exceeded`: a directory one cluster short of the maximum size, to which two are appended.
-/
import AtsLdd.Core.Run
import AtsLdd.Fat.Chains
import AtsLdd.Fat.NewEntries

namespace AtsLdd.Fat

open AtsLdd.Machine AtsLdd.LinkTable AtsLdd.Run

/-! ## The sizes -/

/-- the sizes of a directory fit its chain of clusters -/
structure DirSizes (sb : FatSb) (s : St) (dir : DirInode) : Prop where
  chain : ∃ l, DirChain sb s.vol dir.iStart l ∧ dir.iSize = l.length * sb.clusterSize ∧
    dir.mmuPrivate = l.length * sb.clusterSize
  blocks : dir.iBlocks * 512 = dir.iSize
  max : dir.iSize ≤ FAT_MAX_DIR_SIZE

/-- a directory and the volume it is on -/
structure DirState where
  dir : DirInode
  s : St

/-- a call of `fat_add_entries` -/
structure AddCall where
  env : Env
  slots : List UInt8
  nrSlots : ℕ

def addStep (sb : FatSb) (σ : DirState) (c : AddCall) : DirState :=
  match fatAddEntries c.env sb σ.s σ.dir c.slots c.nrSlots with
  | none => σ
  | some r => ⟨r.dir, r.s⟩

theorem addStep_eq {sb : FatSb} {σ : DirState} {c : AddCall} {r : AddEntries}
    (hr : fatAddEntries c.env sb σ.s σ.dir c.slots c.nrSlots = some r) : addStep sb σ c = ⟨r.dir, r.s⟩ := by
  unfold addStep
  rw [hr]

/-- the call is for 1 to 21 slots, and succeeds -/
def AddCall.Succeeds (sb : FatSb) (σ : DirState) (c : AddCall) : Prop :=
  1 ≤ c.nrSlots ∧ c.nrSlots ≤ 21 ∧ ∃ r, fatAddEntries c.env sb σ.s σ.dir c.slots c.nrSlots = some r ∧ r.err = 0

/-- the clusters that the FAT must link to when `k` clusters are appended -/
def linkedTo (sb : FatSb) (σ : DirState) (k : ℕ) : List ℤ :=
  if σ.dir.iStart = 0 then ((freeEntries sb σ.s.vol σ.s.prevFree).take k).tail
  else (freeEntries sb σ.s.vol σ.s.prevFree).take k

/-- the entries that `fat_get_entry` hands out reach the maximum size or have enough free slots in a row, or the clusters
for the slots that do not fit behind the last entry in use do not exceed the maximum size, and none of them has the number
of the bad mark -/
def AddCall.Fits (sb : FatSb) (σ : DirState) (c : AddCall) : Prop :=
  let es := allMarks c.env sb σ.s σ.dir.toInode
  let k := nrCluster sb (c.nrSlots - freeTail (es.map Prod.snd))
  (∃ e ∈ es, FAT_MAX_DIR_SIZE ≤ e.1) ∨ HasRun (es.map Prod.snd) c.nrSlots ∨
    σ.dir.iSize + k * sb.clusterSize ≤ FAT_MAX_DIR_SIZE ∧ BAD_FAT32 ∉ linkedTo sb σ k

/-! ## A call that succeeds -/

section
variable {env : Env} {sb : FatSb} {s : St} {dir : DirInode} {l : List ℤ}

/-- the root directory gets its first cluster -/
theorem fatChainAdd_root (env : Env) (sb : FatSb) (s : St) (h0 : dir.iStart = 0) (hroot : dir.isRoot = true) (new : ℤ) (nr : ℕ) :
    fatChainAdd env sb s dir new nr =
      ⟨0, ({ dir with iStart := new, iLogstart := new } : DirInode).addBlocks sb nr, s⟩ := by
  unfold fatChainAdd lastCluster fatSyncInode
  simp only [h0, hroot, ne_eq, not_true_eq_false, if_false, lt_irrefl, if_true]
  cases dir.dirsync with
  | true => simp
  | false => simp

theorem EqFat.dirChain {vol vol' : Vol} (h : EqFat sb vol vol') {start : ℤ} (hchain : DirChain sb vol start l) :
    DirChain sb vol' start l := by
  unfold DirChain at *
  rwa [h.table]

theorem freeEntries_congr {vol vol' : Vol} (h : EqFat sb vol vol') (prevFree : ℕ) :
    freeEntries sb vol' prevFree = freeEntries sb vol prevFree := by
  unfold freeEntries
  rcases Nat.lt_or_ge 2 sb.maxCluster with hmax | hmax
  · apply List.filter_congr
    intro x hx
    rw [h.val (scan_inRange hmax x hx)]
  · have hzero : sb.maxCluster - 2 = 0 := by omega
    rw [hzero]
    rfl

/-- the volume after the last of the clusters `l`, if there is one, is made to lead to `c` -/
def linkLast (sb : FatSb) (vol : Vol) (l : List ℤ) (c : ℤ) : Vol :=
  match l.getLast? with
  | none => vol
  | some x => fatPut sb vol x c

/-- a directory of the clusters `l` has grown by the clusters `cs`: they were free, are a chain, and hang behind the last one -/
structure Grown (sb : FatSb) (s : St) (dir : DirInode) (l cs : List ℤ) (s' : St) (dir' : DirInode) : Prop where
  link : ∃ vol, Chained sb s.vol vol cs ∧ EqFat sb (linkLast sb vol l (cs.headD 0)) s'.vol
  dir : dir' = ((if dir.iStart = 0 then { dir with iStart := cs.headD 0, iLogstart := cs.headD 0 } else dir : DirInode).addBlocks sb
    cs.length).addSize sb cs.length
  prevFree : PrevFreeOk sb s'

/-- **New clusters** hang behind the directory, which counts them. -/
theorem appendSlots_grown (hchain : DirChain sb s.vol dir.iStart l) (hroot : dir.iStart = 0 → dir.isRoot = true)
    (hpf : PrevFreeOk sb s) {left : ℕ} (hleft : 0 < left) {pos freeSlots : ℕ} {slots : List UInt8} {r : AddEntries}
    (hr : appendSlots env sb dir pos freeSlots left slots s = some r) (h0 : r.err = 0) :
    ∃ cs, cs = (freeEntries sb s.vol s.prevFree).take (nrCluster sb left) ∧ cs.length = nrCluster sb left ∧
      Grown sb s dir l cs r.s r.dir := by
  unfold appendSlots at hr
  cases hn : fatAddNewEntries env sb s dir.dirsync slots left with
  | none =>
    rw [hn] at hr
    exact absurd hr (by simp)
  | some n =>
    rw [hn] at hr
    simp only at hr
    by_cases hret : n.ret < 0
    · rw [if_pos hret, Option.some.injEq] at hr
      rw [← hr] at h0
      exact absurd h0 hret.ne
    rw [if_neg hret] at hr
    obtain ⟨cs, hcs, hlen, hch, hp, hhead, hnr⟩ := fatAddNewEntries_ret hpf hleft hn hret
    refine ⟨cs, hcs, hlen, ?_⟩
    by_cases hadd : (fatChainAdd env sb n.s dir n.ret n.nrCluster).ret ≠ 0
    · rw [if_pos hadd, Option.some.injEq] at hr
      rw [← hr] at h0
      exact absurd h0 hadd
    rw [if_neg hadd, Option.some.injEq] at hr
    have hadd := not_not.1 hadd
    rw [hhead, hnr, ← hlen] at hadd hr
    rcases hchain with ⟨hzero, rfl⟩ | p
    · -- the root directory had no cluster
      rw [fatChainAdd_root env sb n.s hzero (hroot hzero)] at hr
      rw [← hr]
      exact ⟨⟨n.s.vol, hch, EqFat.refl sb n.s.vol⟩, by rw [if_pos hzero], hp⟩
    · have hdis : l.Disjoint cs := fun x hxl hxc => p.not_free hxl (hch.table_free x hxc)
      have p1 : Path (table sb n.s.vol) dir.iStart l := p.congr fun x hx => hch.table_frame x fun hxc => hdis hx hxc
      obtain ⟨hdir, heq, hprev⟩ := fatChainAdd_zero p1 hadd
      have hstart : dir.iStart ≠ 0 := (path_inRange p _ p.head_mem).pos.ne'
      rw [← hr]
      refine ⟨⟨n.s.vol, hch, ?_⟩, ?_, ?_⟩
      · unfold linkLast
        rw [List.getLast?_eq_some_getLast p.ne_nil]
        exact heq
      · rw [if_neg hstart]
        simp only
        rw [hdir]
      · unfold PrevFreeOk
        simp only
        rw [hprev]
        exact hp

/-- the clusters that the FAT must link to are those that are appended, but the first one of a directory without clusters -/
theorem linkedTo_eq {k : ℕ} {cs : List ℤ} (hcs : cs = (freeEntries sb s.vol s.prevFree).take k) :
    linkedTo sb ⟨dir, s⟩ k = if dir.iStart = 0 then cs.tail else cs := by
  unfold linkedTo
  rw [hcs]

/-- **The chain of a directory that has grown** ends with the new clusters, unless one of the links is to the number of the
bad mark. -/
theorem Grown.dirChain {cs : List ℤ} {s' : St} {dir' : DirInode} (h : Grown sb s dir l cs s' dir')
    (hchain : DirChain sb s.vol dir.iStart l) (hne : cs ≠ []) (hbad : BAD_FAT32 ∉ if dir.iStart = 0 then cs.tail else cs) :
    DirChain sb s'.vol dir'.iStart (l ++ cs) := by
  obtain ⟨vol, hch, heq⟩ := h.link
  have hheadEq : cs.headD 0 = cs.head hne := by
    rw [List.headD_eq_head?_getD, List.head?_eq_some_head hne]
    rfl
  have htail : BAD_FAT32 ∉ cs.tail := by
    intro hmem
    split_ifs at hbad
    · exact hbad hmem
    · exact hbad (List.mem_of_mem_tail hmem)
  have pcs := hch.path hne htail
  rw [hheadEq] at heq
  have hstart' : dir'.iStart = if dir.iStart = 0 then cs.head hne else dir.iStart := by
    rw [h.dir, ← hheadEq]
    split_ifs <;> rfl
  rw [hstart']
  rcases hchain with ⟨hzero, rfl⟩ | p
  · rw [if_pos hzero]
    exact EqFat.dirChain heq (Or.inr pcs)
  · have hdis : l.Disjoint cs := fun x hxl hxc => p.not_free hxl (hch.table_free x hxc)
    have p1 : Path (table sb vol) dir.iStart l := p.congr fun x hx => hch.table_frame x fun hxc => hdis hx hxc
    have hstart : dir.iStart ≠ 0 := (path_inRange p _ p.head_mem).pos.ne'
    have hin : InRange sb (cs.head hne) := hch.inRange _ (List.head_mem hne)
    have hhbad : cs.head hne ≠ BAD_FAT32 := by
      intro he
      rw [if_neg hstart] at hbad
      exact hbad (he ▸ List.head_mem hne)
    have hlast := path_inRange p1 _ (List.getLast_mem p1.ne_nil)
    have happ := p1.append pcs hdis
    rw [← toLink_readBack hin hhbad, ← table_fatPut hlast hin.storable] at happ
    unfold linkLast at heq
    rw [List.getLast?_eq_some_getLast p.ne_nil] at heq
    rw [if_neg hstart]
    exact EqFat.dirChain heq (Or.inr happ)

/-- a directory has one chain -/
theorem DirChain.unique {vol : Vol} {start : ℤ} {l' : List ℤ} (h : DirChain sb vol start l) (h' : DirChain sb vol start l') : l = l' := by
  rcases h with ⟨hz, rfl⟩ | p
  · rcases h' with ⟨-, rfl⟩ | p'
    · rfl
    · exact absurd hz (path_inRange p' _ p'.head_mem).pos.ne'
  · rcases h' with ⟨hz, rfl⟩ | p'
    · exact absurd hz (path_inRange p _ p.head_mem).pos.ne'
    · exact p.unique p'

/-- `i_size` counts the clusters that are added -/
theorem addSize_iSize (hsize : dir.iSize = l.length * sb.clusterSize) (n : ℕ) :
    (dir.addSize sb n).iSize = (l.length + n) * sb.clusterSize := by
  have heven : ¬ dir.iSize % sb.clusterSize ≠ 0 := by
    rw [hsize, Nat.mul_mod_left]
    intro h
    exact h rfl
  simp only [DirInode.addSize, if_neg heven, ← sb.clusterSize_eq]
  rw [hsize, Nat.add_mul]

theorem Grown.iSize {cs : List ℤ} {s' : St} {dir' : DirInode} (h : Grown sb s dir l cs s' dir') :
    dir'.iSize = (dir.addSize sb cs.length).iSize := by
  rw [h.dir]
  split_ifs
  · rfl
  · rfl

/-- **A directory that has grown** has the new clusters at the end of its chain, and its sizes count them. -/
theorem appendSlots_zero (hchain : DirChain sb s.vol dir.iStart l) (hroot : dir.iStart = 0 → dir.isRoot = true)
    (hpf : PrevFreeOk sb s) {left : ℕ} (hleft : 0 < left) {pos freeSlots : ℕ} {slots : List UInt8} {r : AddEntries}
    (hr : appendSlots env sb dir pos freeSlots left slots s = some r) (h0 : r.err = 0)
    (hbad : BAD_FAT32 ∉ linkedTo sb ⟨dir, s⟩ (nrCluster sb left)) :
    ∃ cs, cs.length = nrCluster sb left ∧ DirChain sb r.s.vol r.dir.iStart (l ++ cs) ∧ PrevFreeOk sb r.s ∧
      r.dir.iSize = (dir.addSize sb (nrCluster sb left)).iSize ∧
      r.dir.mmuPrivate = (dir.addSize sb (nrCluster sb left)).mmuPrivate ∧
      r.dir.iBlocks = (dir.addBlocks sb (nrCluster sb left)).iBlocks := by
  obtain ⟨cs, hcs, hlen, hgrown⟩ := appendSlots_grown hchain hroot hpf hleft hr h0
  have hne : cs ≠ [] := List.ne_nil_of_length_pos (hlen ▸ nrCluster_pos sb hleft)
  rw [linkedTo_eq hcs] at hbad
  refine ⟨cs, hlen, hgrown.dirChain hchain hne hbad, hgrown.prevFree, ?_⟩
  rw [hgrown.dir, ← hlen]
  split_ifs
  · exact ⟨rfl, rfl, rfl⟩
  · exact ⟨rfl, rfl, rfl⟩

/-- what follows the search: the free slots in hand are filled, and what does not fit goes into new clusters -/
theorem addFound_zero {f : FreeSearch} (hok : SearchOk sb dir.toInode s f) {slots : List UInt8} {nr : ℕ} {r : AddEntries}
    (hr : addFound env sb dir slots nr f = some r) (h0 : r.err = 0) :
    nr - f.freeSlots = 0 ∧ r.dir = dir ∧ SameFat sb s r.s ∨
      0 < nr - f.freeSlots ∧ ∃ s' pos rest, SameFat sb s s' ∧
        appendSlots env sb dir pos f.freeSlots (nr - f.freeSlots) rest s' = some r := by
  unfold addFound at hr
  simp only at hr
  have hsame := (hok.looked.sameFat sb).trans (fillStage_sameFat env dir.dirsync hok.bhs (nr - f.freeSlots) f.freeSlots
    ⟨(f.cur.pos - f.freeSlots * DENT_SIZE) % sb.blocksize, f.freeSlots * DENT_SIZE, slots, f.s⟩)
  generalize (if f.freeSlots ≠ 0 then fillFree env sb dir.dirsync f.bhs (nr - f.freeSlots)
    ⟨(f.cur.pos - f.freeSlots * DENT_SIZE) % sb.blocksize, f.freeSlots * DENT_SIZE, slots, f.s⟩ else (0, _)) = w at hr hsame
  obtain ⟨err, fill⟩ := w
  simp only at hr hsame
  by_cases herr : err ≠ 0
  · rw [if_pos herr, Option.some.injEq] at hr
    rw [← hr] at h0
    exact absurd h0 herr
  rw [if_neg herr] at hr
  by_cases hleft : nr - f.freeSlots ≠ 0
  · rw [if_pos hleft] at hr
    exact Or.inr ⟨Nat.pos_of_ne_zero hleft, fill.s, _, _, hsame, hr⟩
  · rw [if_neg hleft, Option.some.injEq] at hr
    rw [← hr]
    exact Or.inl ⟨not_not.1 hleft, rfl, hsame⟩

/-- **A call that succeeds** has found enough free slots and left chain and sizes alone, or the directory has grown by
clusters for the slots that do not fit behind the last entry in use. -/
theorem fatAddEntries_zero (hchain : DirChain sb s.vol dir.iStart l) {slots : List UInt8} {nr : ℕ}
    (hnr : 1 ≤ nr) {r : AddEntries} (hr : fatAddEntries env sb s dir slots nr = some r) (h0 : r.err = 0) :
    r.dir = dir ∧ SameFat sb s r.s ∨
      (∀ e ∈ allMarks env sb s dir.toInode, e.1 < FAT_MAX_DIR_SIZE) ∧
      ¬ HasRun ((allMarks env sb s dir.toInode).map Prod.snd) nr ∧ (dir.iStart = 0 → dir.isRoot = true) ∧
      0 < nr - freeTail ((allMarks env sb s dir.toInode).map Prod.snd) ∧
      ∃ s' pos freeSlots rest, SameFat sb s s' ∧ appendSlots env sb dir pos freeSlots
        (nr - freeTail ((allMarks env sb s dir.toInode).map Prod.snd)) rest s' = some r := by
  have hmarks := searchFree_marks env sb s dir.toInode nr
  have hok := searchFree_ok env hchain nr
  have hcount := scanMarks_count (allMarks env sb s dir.toInode) (k := 0) hnr
  have hended := scanMarks_ended (allMarks env sb s dir.toInode) (k := 0) hnr
  rw [← hmarks] at hcount hended
  unfold fatAddEntries at hr
  generalize searchFree env sb s dir.toInode nr = w at hr hok hcount hended
  obtain ⟨fin, f⟩ := w
  simp only at hok hcount hended
  cases fin with
  | full =>
    rw [Option.some.injEq] at hr
    rw [← hr] at h0
    exact absurd h0 (show ¬ (- ENOSPC : ℤ) = 0 by decide)
  | found =>
    rcases hcount with ⟨-, hall⟩ | ⟨hno, -⟩
    · rcases addFound_zero hok hr h0 with ⟨-, hdone⟩ | ⟨hleft, -⟩
      · exact Or.inl hdone
      · omega
    · exact absurd rfl hno
  | ended =>
    obtain ⟨hlt, hrun, htail⟩ := hended rfl
    rw [List.replicate_zero, List.nil_append] at hrun htail
    by_cases hcorrupt : dir.isRoot = false ∧ dir.iStart = 0
    · simp only [if_pos hcorrupt, Option.some.injEq] at hr
      rw [← hr] at h0
      exact absurd h0 (show ¬ (- EIO : ℤ) = 0 by decide)
    simp only [if_neg hcorrupt] at hr
    have hroot : dir.iStart = 0 → dir.isRoot = true := by
      intro hzero
      by_contra hno
      exact hcorrupt ⟨Bool.eq_false_iff.2 hno, hzero⟩
    rcases hcount with ⟨hno, -⟩ | ⟨-, hless⟩
    · exact absurd hno (by simp)
    rcases addFound_zero hok hr h0 with ⟨hleft, -⟩ | ⟨hleft, s', pos, rest, hsame, happ⟩
    · omega
    · rw [htail] at hleft happ
      exact Or.inr ⟨hlt, hrun, hroot, hleft, s', pos, _, rest, hsame, happ⟩

/-! ## Runs -/

/-- the sizes after growing fit the longer chain -/
theorem DirSizes.grown {k : ℕ} {cs : List ℤ} {s' : St} {dir' : DirInode} (h : DirSizes sb s dir)
    (hchain : DirChain sb s.vol dir.iStart l) (hlen : cs.length = k) (hchain' : DirChain sb s'.vol dir'.iStart (l ++ cs))
    (hsize : dir'.iSize = (dir.addSize sb k).iSize) (hmmu : dir'.mmuPrivate = (dir.addSize sb k).mmuPrivate)
    (hblocks : dir'.iBlocks = (dir.addBlocks sb k).iBlocks) (hmax : dir.iSize + k * sb.clusterSize ≤ FAT_MAX_DIR_SIZE) :
    DirSizes sb s' dir' := by
  obtain ⟨⟨l', hl', hi, hm⟩, hb, -⟩ := h
  obtain rfl : l' = l := hl'.unique hchain
  have hsector : 2 ^ (sb.clusterBits - 9) * 512 = sb.clusterSize := by
    have hbits := sb.bits_min
    rw [sb.clusterSize_eq, show (512 : ℕ) = 2 ^ 9 by norm_num, ← pow_add]
    congr 1
    unfold FatSb.clusterBits
    omega
  rw [addSize_iSize hi] at hsize
  simp only [DirInode.addSize, ← sb.clusterSize_eq] at hmmu
  simp only [DirInode.addBlocks] at hblocks
  refine ⟨⟨l' ++ cs, hchain', ?_, ?_⟩, ?_, ?_⟩
  · rw [hsize, List.length_append, hlen]
  · rw [hmmu, hm, List.length_append, hlen, Nat.add_mul]
  · rw [hblocks, hsize, Nat.add_mul, Nat.mul_assoc, hsector, hb, hi, Nat.add_mul]
  · rw [hsize, Nat.add_mul, ← hi]
    exact hmax

theorem linkedTo_congr {s' : St} (h : SameFat sb s s') (k : ℕ) : linkedTo sb ⟨dir, s'⟩ k = linkedTo sb ⟨dir, s⟩ k := by
  unfold linkedTo
  simp only [freeEntries_congr h.vol, h.prevFree]

/-- what a run of calls keeps -/
def DirState.Inv (sb : FatSb) (σ : DirState) : Prop := PrevFreeOk sb σ.s ∧ DirSizes sb σ.s σ.dir

/-- **One call** that succeeds, and fits. -/
theorem addStep_inv {σ : DirState} {c : AddCall} (hinv : σ.Inv sb) (hsucc : c.Succeeds sb σ) (hfits : c.Fits sb σ) :
    (addStep sb σ c).Inv sb := by
  obtain ⟨hpf, hsizes⟩ := hinv
  obtain ⟨hnr, -, r, hr, h0⟩ := hsucc
  obtain ⟨l, hchain, hi, hm⟩ := hsizes.chain
  rw [addStep_eq hr]
  rcases fatAddEntries_zero hchain hnr hr h0 with ⟨hdir, hsame⟩ |
    ⟨hlt, hrun, hroot, hleft, s', pos, freeSlots, rest, hsame, happ⟩
  · refine ⟨?_, ?_, ?_, ?_⟩
    · unfold PrevFreeOk
      simp only
      rw [hsame.prevFree]
      exact hpf
    · rw [hdir]
      exact ⟨l, EqFat.dirChain hsame.vol hchain, hi, hm⟩
    · rw [hdir]
      exact hsizes.blocks
    · rw [hdir]
      exact hsizes.max
  · rcases hfits with ⟨e, he, hfull⟩ | hfound | ⟨hmax, hbad⟩
    · exact absurd (hlt e he) (not_lt.2 hfull)
    · exact absurd hfound hrun
    have hpf' : PrevFreeOk sb s' := by
      unfold PrevFreeOk
      rw [hsame.prevFree]
      exact hpf
    have hbad' : BAD_FAT32 ∉ linkedTo sb ⟨σ.dir, s'⟩ (nrCluster sb (c.nrSlots -
        freeTail ((allMarks c.env sb σ.s σ.dir.toInode).map Prod.snd))) := by
      rw [linkedTo_congr hsame]
      exact hbad
    obtain ⟨cs, hlen, hchain', hp, hsize, hmmu, hblocks⟩ :=
      appendSlots_zero (EqFat.dirChain hsame.vol hchain) hroot hpf' hleft happ h0 hbad'
    exact ⟨hp, hsizes.grown hchain hlen hchain' hsize hmmu hblocks hmax⟩

end

/-- **The sizes fit the chain** after every call of a run of calls that succeed and fit. -/
theorem dirSizes_run {sb : FatSb} {σ : DirState} (hpf : PrevFreeOk sb σ.s) (hsizes : DirSizes sb σ.s σ.dir)
    {calls : List AddCall} (hsucc : Meets (addStep sb) (fun σ c => c.Succeeds sb σ) σ calls)
    (hfits : Meets (addStep sb) (fun σ c => c.Fits sb σ) σ calls) :
    Meets (addStep sb) (fun σ c => DirSizes sb (addStep sb σ c).s (addStep sb σ c).dir) σ calls := by
  have hstep : ∀ (σ : DirState) (c : AddCall), σ.Inv sb → c.Succeeds sb σ ∧ c.Fits sb σ → (addStep sb σ c).Inv sb :=
    fun _ _ hinv hok => addStep_inv hinv hok.1 hok.2
  exact meets_of_inv hstep (fun σ c hinv hok => (hstep σ c hinv hok).2) ⟨hpf, hsizes⟩ (hsucc.and hfits)

/-! ## A directory with free slots -/

/-- a directory of cluster 3, whose slots are all free -/
def emptyDir : DirState :=
  ⟨⟨⟨3, 1024⟩, 3, 0, 2, 1024, false, false, 16, ⟨0, 0⟩⟩, St.idle (tinyVol fun k => if k = 3 then 0x0FFFFFFF else 0)⟩

/-- two entries are added -/
def addTwo : AddCall := ⟨goodEnv, List.replicate 64 65, 2⟩

theorem emptyDir_sizes : DirSizes tinySb emptyDir.s emptyDir.dir :=
  ⟨⟨[3], Or.inr (.last (by decide +kernel)), rfl, rfl⟩, rfl, by decide⟩

/-- so are 21 -/
def addMany : AddCall := ⟨goodEnv, List.replicate 672 65, 21⟩

theorem AddCall.succeeds {sb : FatSb} {σ : DirState} {c : AddCall} (h1 : 1 ≤ c.nrSlots) (h21 : c.nrSlots ≤ 21)
    (h : (fatAddEntries c.env sb σ.s σ.dir c.slots c.nrSlots).map AddEntries.err = some 0) : c.Succeeds sb σ := by
  obtain ⟨r, hr, h0⟩ := Option.map_eq_some_iff.1 h
  exact ⟨h1, h21, r, hr, h0⟩

/-- 21 entries are added twice: the second time the 11 slots that are left do not do, and a cluster is appended -/
theorem dirSizes_run_grown :
    Meets (addStep tinySb) (fun σ c => DirSizes tinySb (addStep tinySb σ c).s (addStep tinySb σ c).dir) emptyDir
      [addMany, addMany] ∧
    (run (addStep tinySb) emptyDir [addMany, addMany]).dir.iSize = 2048 := by
  have hsucc : addMany.Succeeds tinySb emptyDir := AddCall.succeeds (by decide) (by decide) (by decide +kernel)
  have hsucc' : addMany.Succeeds tinySb (addStep tinySb emptyDir addMany) :=
    AddCall.succeeds (by decide) (by decide) (by decide +kernel)
  have hrun : HasRun ((allMarks goodEnv tinySb emptyDir.s emptyDir.dir.toInode).map Prod.snd) 21 := ⟨0, by decide +kernel⟩
  have hgrow : addMany.Fits tinySb (addStep tinySb emptyDir addMany) := Or.inr (Or.inr ⟨by decide +kernel, by decide +kernel⟩)
  refine ⟨?_, by decide +kernel⟩
  exact dirSizes_run ⟨le_rfl, by decide⟩ emptyDir_sizes ⟨hsucc, hsucc', trivial⟩ ⟨Or.inr (Or.inl hrun), hgrow, trivial⟩

/-! ## One cluster below the maximum size -/

section
variable {env : Env} {sb : FatSb} {s : St} {dir : DirInode} {l : List ℤ}

/-- **A directory without a free slot** grows, when there are enough free clusters and nothing fails. -/
theorem fatAddEntries_grows (env : Env) (henv : env.NoFault) (hpf : PrevFreeOk sb s) (p : Path (table sb s.vol) dir.iStart l)
    (hlen : l.length ≤ clusterLimit sb + 1) (hsize : dirBlocks sb dir.toInode * sb.blocksize < FAT_MAX_DIR_SIZE)
    (hused : ∀ b, sb.dataStart ≤ b → ∀ off, ¬ IsFree (entAt s.vol b off)) {nr : ℕ} (hnr : 0 < nr) (h2 : nrCluster sb nr ≤ 2)
    (hvalid : s.freeClusValid = false) (hle : nrCluster sb nr ≤ (freeEntries sb s.vol s.prevFree).length)
    (slots : List UInt8) : ∃ r, fatAddEntries env sb s dir slots nr = some r ∧ r.err = 0 ∧
      r.dir.iSize = (dir.addSize sb (nrCluster sb nr)).iSize := by
  have hchain : DirChain sb s.vol dir.iStart l := Or.inr p
  have hstart : dir.iStart ≠ 0 := (path_inRange p _ p.head_mem).pos.ne'
  have hmarks := searchFree_marks env sb s dir.toInode nr
  have hok := searchFree_ok env hchain nr
  have hall : allMarks env sb s dir.toInode = dirMarks env sb dir.toInode (dirEntries sb dir.toInode) s dirCursorInit := rfl
  rw [hall, scanMarks_used (dirMarks_used env hsize _ hchain (cursorOk_init sb dir.toInode) hused)] at hmarks
  have hcall : fatAddEntries env sb s dir slots nr = appendSlots env sb dir (searchFree env sb s dir.toInode nr).2.cur.pos 0 nr
      slots (searchFree env sb s dir.toInode nr).2.s := by
    unfold fatAddEntries
    generalize searchFree env sb s dir.toInode nr = w at hmarks
    obtain ⟨fin, f⟩ := w
    obtain ⟨rfl, h0⟩ := Prod.mk.inj hmarks
    simp only at h0
    have hcorrupt : ¬ (dir.isRoot = false ∧ dir.iStart = 0) := fun h => hstart h.2
    simp only [if_neg hcorrupt, addFound, h0, ne_eq, not_true_eq_false, if_false, Nat.sub_zero, Nat.zero_mul, if_pos hnr.ne']
  have hsame := hok.looked.sameFat sb
  generalize (searchFree env sb s dir.toInode nr).2 = f at hcall hok hsame
  have hpf' : PrevFreeOk sb f.s := by
    unfold PrevFreeOk
    rw [hsame.prevFree]
    exact hpf
  have hfree : freeEntries sb f.s.vol f.s.prevFree = freeEntries sb s.vol s.prevFree := by
    rw [hsame.prevFree, freeEntries_congr hsame.vol]
  have hno : ¬ Refused f.s (nrCluster sb nr) := by
    rintro ⟨-, hv, -⟩
    rw [hsame.freeClusValid, hvalid] at hv
    exact absurd hv (by simp)
  obtain ⟨n, hn, hret⟩ := fatAddNewEntries_ok henv hpf' hnr h2 hno (hfree.symm ▸ hle) dir.dirsync slots
  obtain ⟨cs, -, -, hch, -, -, -⟩ := fatAddNewEntries_ret hpf' hnr hn hret
  have p' : Path (table sb f.s.vol) dir.iStart l := by
    rw [EqFat.table hsame.vol]
    exact p
  have p1 : Path (table sb n.s.vol) dir.iStart l := p'.congr fun x hx => hch.table_frame x fun hxc =>
    p'.not_free hx (hch.table_free x hxc)
  obtain ⟨hadd, -⟩ := fatChainAdd_ok henv p1 hlen n.ret n.nrCluster
  have happ : ∃ r, appendSlots env sb dir f.cur.pos 0 nr slots f.s = some r ∧ r.err = 0 := by
    unfold appendSlots
    rw [hn]
    simp only [if_neg hret, hadd, ne_eq, not_true_eq_false, if_false]
    exact ⟨_, rfl, rfl⟩
  obtain ⟨r, hr, h0⟩ := happ
  obtain ⟨cs, -, hcslen, hgrown⟩ := appendSlots_grown (Or.inr p') (fun h => absurd h hstart) hpf' hnr hr h0
  exact ⟨r, hcall.trans hr, h0, hcslen ▸ hgrown.iSize⟩

end

/-- the clusters 2 to 4096 are a chain, the others are free -/
def fullWords (k : ℕ) : ℕ := if k < 4096 then k + 1 else if k = 4096 then 0x0FFFFFFF else 0

/-- a volume with these FAT words, whose data blocks hold entries in use -/
def fullVol : Vol := fun b i => if b < 65 then UInt8.ofNat (fullWords (((b - 1) * 512 + i) / 4) / 2 ^ (8 * (i % 4))) else 1

/-- the directory of the chain: 4095 clusters, one below the maximum size -/
def fullDir : DirState := ⟨⟨⟨2, 2096640⟩, 2, 0, 4095, 2096640, false, false, 16, ⟨0, 0⟩⟩, St.idle fullVol⟩

/-- 17 slots, one more than a cluster holds -/
def addSeventeen : AddCall := ⟨goodEnv, List.replicate 544 65, 17⟩

/-- 512-byte clusters, one FAT of 64 blocks, clusters 2 to 4199 -/
def fullSb : FatSb := .at1 9 0 64 1 65 4200 (by decide)

theorem fatVal_fullVol {k : ℕ} (hk : k < 4200) : fatVal fullSb fullVol k = fullWords k := by
  obtain ⟨heq, -⟩ := fatEntBlocknr_spec fullSb (k := k) hk
  have hbs : fullSb.blocksize = 512 := by decide
  have hfs : fullSb.fatStart = 1 := rfl
  rw [hbs, hfs] at heq
  have hbyte : ∀ j < 4, fullVol (1 + 4 * k / 512) (4 * k % 512 + j) = UInt8.ofNat (fullWords k / 2 ^ (8 * j)) := by
    intro j hj
    unfold fullVol
    have hidx : ((1 + 4 * k / 512 - 1) * 512 + (4 * k % 512 + j)) / 4 = k := by omega
    have hmod : (4 * k % 512 + j) % 4 = j := by omega
    rw [if_pos (by omega), hidx, hmod]
  have hlt : fullWords k < 2 ^ 28 := by
    unfold fullWords
    split_ifs
    · omega
    · norm_num
    · norm_num
  have h0 := hbyte 0 (by norm_num)
  rw [Nat.add_zero] at h0
  unfold fatVal fatWord
  rw [heq]
  simp only [le32]
  rw [h0, hbyte 1 (by norm_num), hbyte 2 (by norm_num), hbyte 3 (by norm_num)]
  simp only [UInt8.toNat_ofNat']
  generalize fullWords k = w at hlt
  norm_cast
  omega

theorem fullChain_path (n : ℕ) : ∀ k : ℕ, 2 ≤ k → k + n = 4096 →
    Path (table fullSb fullVol) k ((List.range' k (n + 1)).map fun i : ℕ => (i : ℤ)) := by
  have hin : ∀ k : ℕ, 2 ≤ k → k ≤ 4096 → InRange fullSb k := by
    intro k h2 hk
    refine ⟨?_, ?_⟩
    · unfold FAT_START_ENT
      omega
    · change (k : ℤ) < 4200
      omega
  induction n with
  | zero =>
    intro k h2 hk
    have hlast : k = 4096 := by omega
    subst hlast
    refine .last ?_
    rw [table_of_inRange (hin 4096 (by norm_num) le_rfl), fatLink_eq, fatVal_fullVol (by norm_num)]
    decide
  | succ n ih =>
    intro k h2 hk
    have hword : fullWords k = k + 1 := if_pos (by omega)
    have hnext : table fullSb fullVol k = .next ((k + 1 : ℕ) : ℤ) := by
      rw [table_of_inRange (hin k h2 (by omega)), fatLink_eq, fatVal_fullVol (by omega), hword]
      apply toLink_readBack (hin (k + 1) (by omega) (by omega))
      unfold BAD_FAT32
      omega
    exact .next hnext (ih (k + 1) (by omega) (by omega))

/-- **Beyond the maximum size.** 17 slots for a full directory of 4095 clusters of 512 bytes take two more. -/
theorem dirSizes_exceeded : ¬ ∀ (sb : FatSb) (σ : DirState) (calls : List AddCall), PrevFreeOk sb σ.s →
    DirSizes sb σ.s σ.dir → Meets (addStep sb) (fun σ c => c.Succeeds sb σ) σ calls →
    Meets (addStep sb) (fun σ c => DirSizes sb (addStep sb σ c).s (addStep sb σ c).dir) σ calls := by
  intro hall
  have p : Path (table fullSb fullDir.s.vol) fullDir.dir.iStart ((List.range' 2 4095).map fun i : ℕ => (i : ℤ)) :=
    fullChain_path 4094 2 le_rfl rfl
  have hpf : PrevFreeOk fullSb fullDir.s := ⟨le_rfl, by decide⟩
  have hlen : ((List.range' 2 4095).map fun i : ℕ => (i : ℤ)).length = 4095 := by rw [List.length_map, List.length_range']
  have hsizes : DirSizes fullSb fullDir.s fullDir.dir := by
    refine ⟨⟨_, Or.inr p, ?_, ?_⟩, rfl, by decide⟩
    · rw [hlen]
      rfl
    · rw [hlen]
      rfl
  have hk : nrCluster fullSb addSeventeen.nrSlots = 2 := by decide
  have hused : ∀ b, fullSb.dataStart ≤ b → ∀ off, ¬ IsFree (entAt fullDir.s.vol b off) := by
    intro b hb off
    have hone : entAt fullDir.s.vol b off 0 = 1 := if_neg (not_lt.2 hb)
    unfold IsFree
    rw [hone]
    decide
  have hfree : nrCluster fullSb addSeventeen.nrSlots ≤ (freeEntries fullSb fullDir.s.vol fullDir.s.prevFree).length := by
    rw [hk]
    have hsub : [(4097 : ℤ), 4098] ⊆ freeEntries fullSb fullDir.s.vol fullDir.s.prevFree := by
      intro x hx
      simp only [List.mem_cons, List.not_mem_nil, or_false] at hx
      rcases hx with rfl | rfl
      · exact (mem_freeEntries (by decide)).2 (fatVal_fullVol (k := 4097) (by norm_num))
      · exact (mem_freeEntries (by decide)).2 (fatVal_fullVol (k := 4098) (by norm_num))
    exact (List.subperm_of_subset (by decide) hsub).length_le
  obtain ⟨r, hr, h0, hsize⟩ := fatAddEntries_grows addSeventeen.env goodEnv_noFault hpf p (by rw [hlen]; decide) (by decide) hused (by decide)
    (by rw [hk]) rfl hfree addSeventeen.slots
  have hsucc : addSeventeen.Succeeds fullSb fullDir := ⟨by decide, by decide, r, hr, h0⟩
  have hmax := (hall fullSb fullDir [addSeventeen] hpf hsizes ⟨hsucc, trivial⟩).1.max
  rw [addStep_eq (c := addSeventeen) hr, hsize, hk] at hmax
  exact absurd hmax (by decide)

end AtsLdd.Fat
