/-
Runs of allocations, growths and releases of cluster chains.

The state is the volume with the set of heads of the chains in use. A chain is well formed when it stays in the volume,
has no repetition and ends at an EOF mark, and different heads have disjoint chains.

- `ChainOp.Does`: what an operation does to the FAT: a new disjoint chain, a chain hung behind another one, a chain freed;
- `step_inv`, `step_does`: one operation;
- `chains_wellFormed`: every run of operations that store no link to `BAD_FAT32`;
- `link_to_bad_is_lost`: a volume may have a cluster of that number, and a link to it is read back as the end of a chain.
-/
import AtsLdd.Core.Run
import AtsLdd.Fat.AllocClusters
import AtsLdd.Fat.ChainAdd

namespace AtsLdd.Fat

open AtsLdd.Machine AtsLdd.LinkTable AtsLdd.Run

/-! ## Operations -/

inductive ChainOp where
  | alloc (needsSync : Bool) (nrCluster : ℕ)
  | chainAdd (dir : DirInode) (newDclus : ℤ) (nrCluster : ℕ)
  | free (cluster : ℤ)

structure ChainState where
  s : St
  /-- the heads of the chains in use -/
  heads : Set ℤ

/-- the heads after an allocation -/
def AllocClusters.heads (r : AllocClusters) (heads : Set ℤ) : Set ℤ :=
  match r.cluster with
  | [] => heads
  | c :: _ => if r.err = 0 then insert c heads else heads

/-- one operation -/
def chainStep (env : Env) (sb : FatSb) (σ : ChainState) : ChainOp → ChainState
  | .alloc needsSync nr =>
    match fatAllocClusters env sb σ.s needsSync nr with
    | none => σ
    | some r => ⟨r.s, r.heads σ.heads⟩
  | .chainAdd dir new nr =>
    let r := fatChainAdd env sb σ.s dir new nr
    ⟨r.s, if r.ret = 0 ∧ dir.iStart ≠ 0 then σ.heads \ {new} else σ.heads⟩
  | .free c =>
    let r := fatFreeClusters env sb σ.s c
    ⟨r.2, if r.1 = 0 then σ.heads \ {c} else σ.heads⟩

/-- the calls: up to 4 clusters at a time; a chain of its own for a directory, whose entry is not in the FAT; a head -/
def ChainOp.Allowed (sb : FatSb) (σ : ChainState) : ChainOp → Prop
  | .alloc _ nr => 0 < nr ∧ nr ≤ MAX_BUF_PER_PAGE / 2
  | .chainAdd dir new _ =>
    (dir.iStart = 0 ∨ dir.iStart ∈ σ.heads) ∧ new ∈ σ.heads ∧ new ≠ dir.iStart ∧ EntryOutside sb dir
  | .free c => c ∈ σ.heads

/-- the operation stores no link to the number of the bad mark; an allocation that the free counter refuses stores none, nor does
a growth of a chain that is too long for `fat_get_cluster` -/
def ChainOp.NoBadLink (sb : FatSb) (σ : ChainState) : ChainOp → Prop
  | .alloc _ nr => ¬ Refused σ.s nr → BAD_FAT32 ∉ ((freeEntries sb σ.s.vol σ.s.prevFree).take nr).tail
  | .chainAdd dir new _ => dir.iStart ≠ 0 → (∀ l, Path (table sb σ.s.vol) dir.iStart l → l.length ≤ clusterLimit sb + 1) →
      new ≠ BAD_FAT32
  | .free _ => True

/-- every entry holds what it held -/
def SameVals (sb : FatSb) (vol vol' : Vol) : Prop := ∀ x, InRange sb x → fatVal sb vol' x = fatVal sb vol x

/-- what an operation does to the FAT -/
def ChainOp.Does (env : Env) (sb : FatSb) (σ : ChainState) : ChainOp → Prop
  | .alloc needsSync nr => ∃ r, fatAllocClusters env sb σ.s needsSync nr = some r ∧
      (r.err = 0 ∧ r.cluster.length = nr ∧ (∃ c, Path (table sb r.s.vol) c r.cluster) ∧
          (∀ x ∈ r.cluster, InRange sb x ∧ table sb σ.s.vol x = .free) ∧
          (∀ x, InRange sb x → x ∉ r.cluster → fatVal sb r.s.vol x = fatVal sb σ.s.vol x) ∧
          (∀ h ∈ σ.heads, ∀ l, Path (table sb σ.s.vol) h l → Path (table sb r.s.vol) h l ∧ l.Disjoint r.cluster) ∨
        r.err < 0 ∧ SameVals sb σ.s.vol r.s.vol)
  | .chainAdd dir new nr =>
    let r := fatChainAdd env sb σ.s dir new nr
    r.ret = 0 ∧ dir.iStart = 0 ∧ r.dir.iStart = new ∧ SameVals sb σ.s.vol r.s.vol ∨
      r.ret = 0 ∧ dir.iStart ≠ 0 ∧ r.dir.iStart = dir.iStart ∧
        (∀ l l', Path (table sb σ.s.vol) dir.iStart l → Path (table sb σ.s.vol) new l' →
          Path (table sb r.s.vol) dir.iStart (l ++ l') ∧
            ∀ x, InRange sb x → l.getLast? ≠ some x → fatVal sb r.s.vol x = fatVal sb σ.s.vol x) ∨
      r.ret < 0 ∧ SameVals sb σ.s.vol r.s.vol
  | .free c =>
    let r := fatFreeClusters env sb σ.s c
    r.1 = 0 ∧ ∀ l, Path (table sb σ.s.vol) c l → ∀ x, InRange sb x →
      fatVal sb r.2.vol x = if x ∈ l then FAT_ENT_FREE else fatVal sb σ.s.vol x

/-- the invariant: the chains are well formed, and the next search starts in the volume -/
def ChainState.Inv (sb : FatSb) (σ : ChainState) : Prop :=
  WellFormed (table sb σ.s.vol) (InRange sb) σ.heads ∧ PrevFreeOk sb σ.s

/-! ## One operation -/

section
variable {env : Env} {sb : FatSb} {σ : ChainState}

theorem SameVals.table {vol vol' : Vol} (h : SameVals sb vol vol') : table sb vol' = table sb vol := by
  funext d
  unfold Fat.table
  by_cases hd : InRange sb d
  · rw [if_pos hd, if_pos hd, fatLink_eq, fatLink_eq, h d hd]
  · rw [if_neg hd, if_neg hd]

theorem EqFat.sameVals {vol vol' : Vol} (h : EqFat sb vol vol') : SameVals sb vol vol' := fun _ hx => h.val hx

/-- the entries that become a chain, in the table -/
theorem Chained.table_frame {vol0 vol : Vol} {cs : List ℤ} (h : Chained sb vol0 vol cs) :
    ∀ x, x ∉ cs → table sb vol x = table sb vol0 x := by
  intro x hx
  unfold table
  by_cases hin : InRange sb x
  · rw [if_pos hin, if_pos hin, fatLink_eq, fatLink_eq, h.frame x hin hx]
  · rw [if_neg hin, if_neg hin]

theorem Chained.table_free {vol0 vol : Vol} {cs : List ℤ} (h : Chained sb vol0 vol cs) :
    ∀ x ∈ cs, table sb vol0 x = .free := by
  intro x hx
  exact (table_eq_free (h.inRange x hx)).2 (fatLink_eq_free.2 (h.free x hx))

/-- a failed allocation leaves the heads as they are -/
theorem AllocClusters.heads_of_err {r : AllocClusters} (h : r.err ≠ 0) (heads : Set ℤ) : r.heads heads = heads := by
  unfold AllocClusters.heads
  cases r.cluster with
  | nil => rfl
  | cons c cs => exact if_neg h

/-- an allocation -/
theorem alloc_spec (henv : env.NoFault) (hinv : σ.Inv sb) {needsSync : Bool} {nr : ℕ}
    (hal : (ChainOp.alloc needsSync nr).Allowed sb σ) (hbad : (ChainOp.alloc needsSync nr).NoBadLink sb σ) :
    (chainStep env sb σ (.alloc needsSync nr)).Inv sb ∧ (ChainOp.alloc needsSync nr).Does env sb σ := by
  obtain ⟨hwf, hpf⟩ := hinv
  obtain ⟨hnr, h4⟩ := hal
  simp only [ChainOp.NoBadLink] at hbad
  simp only [chainStep, ChainOp.Does]
  have henospc : (- ENOSPC : ℤ) < 0 := by decide
  by_cases href : Refused σ.s nr
  · rw [fatAllocClusters_refused env sb href h4]
    refine ⟨⟨hwf, hpf⟩, _, rfl, Or.inr ⟨henospc, fun x _ => rfl⟩⟩
  have hbad := hbad href
  rcases Nat.lt_or_ge (freeEntries sb σ.s.vol σ.s.prevFree).length nr with hlt | hle
  · rw [List.take_of_length_le hlt.le] at hbad
    obtain ⟨cs, s', hres, hsame, hpf'⟩ := fatAllocClusters_enospc henv hpf hnr h4 href hlt hbad needsSync
    have hvals : SameVals sb σ.s.vol s'.vol := fun x hx => (hsame x hx).1
    rw [hres]
    refine ⟨⟨?_, hpf'⟩, _, rfl, Or.inr ⟨henospc, hvals⟩⟩
    have hheads : (AllocClusters.mk (- ENOSPC) cs s').heads σ.heads = σ.heads :=
      AllocClusters.heads_of_err henospc.ne σ.heads
    simp only [hheads, hvals.table]
    exact hwf
  · obtain ⟨s', hres, hch, hpf'⟩ := fatAllocClusters_ok henv hpf hnr h4 href hle needsSync
    rw [hres]
    have hlen : ((freeEntries sb σ.s.vol σ.s.prevFree).take nr).length = nr := by
      rw [List.length_take, min_eq_left hle]
    generalize (freeEntries sb σ.s.vol σ.s.prevFree).take nr = cs at hbad hch hlen ⊢
    cases cs with
    | nil =>
      rw [← hlen] at hnr
      exact absurd hnr (lt_irrefl 0)
    | cons c cs =>
      have p := hch.path (List.cons_ne_nil c cs) hbad
      rw [List.head_cons] at p
      refine ⟨⟨hwf.alloc p hch.inRange hch.table_free hch.table_frame, hpf'⟩, _, rfl,
        Or.inl ⟨rfl, hlen, ⟨c, p⟩, fun x hx => ⟨hch.inRange x hx, hch.table_free x hx⟩, hch.frame, fun h hh l q => ?_⟩⟩
      have hdis : l.Disjoint (c :: cs) := fun x hxl hxc => q.not_free hxl (hch.table_free x hxc)
      exact ⟨q.congr fun x hx => hch.table_frame x (hdis hx), hdis⟩

/-- a growth -/
theorem chainAdd_spec (henv : env.NoFault) (hinv : σ.Inv sb) {dir : DirInode} {new : ℤ} {nr : ℕ}
    (hal : (ChainOp.chainAdd dir new nr).Allowed sb σ) (hbad : (ChainOp.chainAdd dir new nr).NoBadLink sb σ) :
    (chainStep env sb σ (.chainAdd dir new nr)).Inv sb ∧ (ChainOp.chainAdd dir new nr).Does env sb σ := by
  obtain ⟨hwf, hpf⟩ := hinv
  obtain ⟨hdir, hnew, hne, hout⟩ := hal
  simp only [chainStep, ChainOp.Does, ChainState.Inv]
  by_cases h0 : dir.iStart = 0
  · obtain ⟨hret, hd, heq, hpf'⟩ := fatChainAdd_empty (s := σ.s) henv hout h0 new nr
    refine ⟨⟨?_, ?_⟩, Or.inl ⟨hret, h0, by rw [hd]; rfl, heq.sameVals⟩⟩
    · rw [if_neg (fun h => h.2 h0), heq.table]
      exact hwf
    · unfold PrevFreeOk
      rw [hpf']
      exact hpf
  · have hdir := hdir.resolve_left h0
    obtain ⟨l, p, -, hlin⟩ := hwf.1 _ hdir
    obtain ⟨l', p', -, hlin'⟩ := hwf.1 _ hnew
    have hnewin : InRange sb new := hlin' new p'.head_mem
    have hlast : InRange sb (l.getLast p.ne_nil) := hlin _ (List.getLast_mem p.ne_nil)
    rcases Nat.lt_or_ge (clusterLimit sb + 1) l.length with hlong | hlen
    · obtain ⟨hret, -, hvol, hpf'⟩ := fatChainAdd_long henv p hlong new nr
      have hneg : (fatChainAdd env sb σ.s dir new nr).ret < 0 := by
        rw [hret]
        decide
      refine ⟨⟨?_, ?_⟩, Or.inr (Or.inr ⟨hneg, fun x _ => by rw [hvol]⟩)⟩
      · rw [if_neg (fun h => hneg.ne h.1), hvol]
        exact hwf
      · unfold PrevFreeOk
        rw [hpf']
        exact hpf
    · obtain ⟨hret, hd, heq, hpf'⟩ := fatChainAdd_ok henv p hlen new nr
      have htable : table sb (fatChainAdd env sb σ.s dir new nr).s.vol =
          Function.update (table sb σ.s.vol) (l.getLast p.ne_nil) (.next new) := by
        rw [heq.table, table_fatPut hlast hnewin.storable, toLink_readBack hnewin (hbad h0 fun k q => by rwa [q.unique p])]
      obtain ⟨hpath, hwf'⟩ := hwf.append hdir hnew (fun h => hne h.symm) p p'
      refine ⟨⟨?_, ?_⟩, Or.inr (Or.inl ⟨hret, h0, by rw [hd]; rfl, fun k k' q q' => ⟨?_, fun x hx hxl => ?_⟩⟩)⟩
      · rw [if_pos ⟨hret, h0⟩, htable]
        exact hwf'
      · unfold PrevFreeOk
        rw [hpf']
        exact hpf
      · rw [htable, q.unique p, q'.unique p']
        exact hpath
      · rw [q.unique p, List.getLast?_eq_some_getLast p.ne_nil] at hxl
        rw [heq.val hx, fatVal_fatPut hlast hnewin.storable hx, if_neg fun he => hxl (by rw [he])]

/-- a release -/
theorem free_spec (henv : env.NoFault) (hinv : σ.Inv sb) {c : ℤ} (hc : c ∈ σ.heads) :
    (chainStep env sb σ (.free c)).Inv sb ∧ (ChainOp.free c).Does env sb σ := by
  obtain ⟨hwf, hpf⟩ := hinv
  obtain ⟨l, p, -, hlin⟩ := hwf.1 c hc
  obtain ⟨s', hres, heq, hpf'⟩ := fatFreeClusters_path henv p
  simp only [chainStep, ChainOp.Does, ChainState.Inv, hres, if_true]
  refine ⟨⟨?_, ?_⟩, trivial, fun k q x hx => ?_⟩
  · rw [heq.table, table_freePuts hlin]
    exact hwf.free hc p
  · unfold PrevFreeOk
    rw [hpf']
    exact hpf
  · rw [q.unique p, heq.val hx, fatVal_freePuts hlin hx]

/-- the calls that the run theorem is about -/
def ChainOp.Ok (sb : FatSb) (σ : ChainState) (op : ChainOp) : Prop := op.Allowed sb σ ∧ op.NoBadLink sb σ

theorem step_spec (henv : env.NoFault) (hinv : σ.Inv sb) {op : ChainOp} (h : op.Ok sb σ) :
    (chainStep env sb σ op).Inv sb ∧ op.Does env sb σ := by
  cases op with
  | alloc needsSync nr => exact alloc_spec henv hinv h.1 h.2
  | chainAdd dir new nr => exact chainAdd_spec henv hinv h.1 h.2
  | free c => exact free_spec henv hinv h.1

end

/-! ## Runs -/

/-- **The chains stay well formed** in every run that stores no link to `BAD_FAT32`, and every operation of the run does
what it is for. -/
theorem chains_wellFormed {env : Env} (henv : env.NoFault) {sb : FatSb} {σ : ChainState}
    (hwf : WellFormed (table sb σ.s.vol) (InRange sb) σ.heads) (hpf : PrevFreeOk sb σ.s) {ops : List ChainOp}
    (hok : Meets (chainStep env sb) (fun σ op => op.Ok sb σ) σ ops) :
    WellFormed (table sb (run (chainStep env sb) σ ops).s.vol) (InRange sb)
        (run (chainStep env sb) σ ops).heads ∧
      Meets (chainStep env sb) (fun σ op => op.Does env sb σ) σ ops := by
  have hstep : ∀ (σ : ChainState) (op : ChainOp), σ.Inv sb → op.Ok sb σ → (chainStep env sb σ op).Inv sb :=
    fun _ _ hinv h => (step_spec henv hinv h).1
  have hgood : ∀ (σ : ChainState) (op : ChainOp), σ.Inv sb → op.Ok sb σ → op.Does env sb σ :=
    fun _ _ hinv h => (step_spec henv hinv h).2
  have hinv : σ.Inv sb := ⟨hwf, hpf⟩
  exact ⟨(run_inv hstep hinv hok).1, meets_of_inv hstep hgood hinv hok⟩

/-- a small volume has no cluster of that number -/
theorem noBadLink_of_small {sb : FatSb} (h : (sb.maxCluster : ℤ) ≤ BAD_FAT32) {σ : ChainState} {op : ChainOp}
    (hal : op.Allowed sb σ) (hheads : ∀ x ∈ σ.heads, InRange sb x) : op.NoBadLink sb σ := by
  have hout : ¬ InRange sb BAD_FAT32 := fun hin => absurd hin.2 (not_lt.2 h)
  cases op with
  | alloc needsSync nr =>
    intro _ hmem
    have hfree := List.mem_of_mem_take (List.mem_of_mem_tail hmem)
    refine hout (scan_inRange ?_ _ (List.mem_of_mem_filter hfree))
    by_contra hmax
    have hzero : sb.maxCluster - 2 = 0 := by omega
    unfold freeEntries at hfree
    rw [hzero] at hfree
    exact absurd hfree List.not_mem_nil
  | chainAdd dir new nr =>
    intro _ _ he
    exact hout (he ▸ hheads new hal.2.1)
  | free c => trivial

/-- one chain, 3 and 4 -/
def tinyChains : ChainState := ⟨St.idle (tinyVol fun c => if c = 3 then 4 else EOF_FAT32.toNat), {3}⟩

theorem tinyChains_path : Path (table tinySb tinyChains.s.vol) 3 [3, 4] := by
  have h3 : table tinySb tinyChains.s.vol 3 = .next 4 := by decide
  have h4 : table tinySb tinyChains.s.vol 4 = .last := by decide
  exact .next h3 (.last h4)

theorem tinyChains_wellFormed : WellFormed (table tinySb tinyChains.s.vol) (InRange tinySb) tinyChains.heads := by
  refine ⟨fun h hh => ?_, fun h hh h' hh' hne => absurd (hh.trans hh'.symm) hne⟩
  rw [Set.mem_singleton_iff.1 hh]
  exact ⟨_, tinyChains_path, tinyChains_path.nodup, path_inRange tinyChains_path⟩

/-- freeing one chain and allocating another one -/
theorem chains_wellFormed_tiny :
    WellFormed (table tinySb (run (chainStep goodEnv tinySb) tinyChains [.free 3, .alloc false 2]).s.vol)
      (InRange tinySb) (run (chainStep goodEnv tinySb) tinyChains [.free 3, .alloc false 2]).heads := by
  have hsmall : (tinySb.maxCluster : ℤ) ≤ BAD_FAT32 := by decide
  have hal : (ChainOp.alloc false 2).Allowed tinySb (chainStep goodEnv tinySb tinyChains (.free 3)) :=
    ⟨by decide, by decide⟩
  have hheads : ∀ x ∈ (chainStep goodEnv tinySb tinyChains (.free 3)).heads, InRange tinySb x := by
    intro x hx
    have hx3 : x ∈ tinyChains.heads := by
      simp only [chainStep] at hx
      split_ifs at hx
      · exact hx.1
      · exact hx
    rw [Set.mem_singleton_iff.1 hx3]
    decide
  have hok : Meets (chainStep goodEnv tinySb) (fun σ op => op.Ok tinySb σ) tinyChains [.free 3, .alloc false 2] :=
    ⟨⟨rfl, trivial⟩, ⟨hal, noBadLink_of_small hsmall hal hheads⟩, trivial⟩
  exact (chains_wellFormed goodEnv_noFault tinyChains_wellFormed ⟨le_rfl, by decide⟩ hok).1

/-! ## The cluster whose number is the bad mark -/

/-- a directory with the first cluster 3 -/
def dirAtThree : DirInode := ⟨⟨3, 512⟩, 3, 0, 1, 512, false, false, 16, ⟨0, 0⟩⟩

/-- a volume whose bytes are all ones: every cluster is a chain of its own -/
def onesVol : Vol := fun _ _ => 255

theorem fat32EntGet_ones (off : ℕ) : fat32EntGet (fun _ => 255) off = FAT_ENT_EOF := by
  have hword : le32 (fun _ => 255) off = 2 ^ 32 - 1 := by
    simp only [le32]
    decide
  unfold fat32EntGet
  rw [hword]
  decide

theorem table_onesVol {sb : FatSb} {c : ℤ} (hc : InRange sb c) : table sb onesVol c = .last := by
  rw [table_eq_last hc]
  unfold fatLink linkIn onesVol
  exact fat32EntGet_ones _

/-- the directory, and a chain of the cluster whose number is the bad mark -/
def largeChains : ChainState := ⟨St.idle onesVol, {3, BAD_FAT32}⟩

/-- the largest volume that can be mounted: its last cluster is 0x0FFFFFF7 -/
def largeSb : FatSb := .at1 9 0 (2 ^ 21) 1 (2 ^ 21 + 1) (MAX_FAT32 + 2) (by decide)

theorem largeChains_path {h : ℤ} (hh : h ∈ largeChains.heads) : Path (table largeSb largeChains.s.vol) h [h] := by
  refine .last (table_onesVol ?_)
  rcases hh with rfl | rfl
  · decide
  · decide

theorem largeChains_wellFormed : WellFormed (table largeSb largeChains.s.vol) (InRange largeSb) largeChains.heads := by
  refine ⟨fun h hh => ⟨_, largeChains_path hh, (largeChains_path hh).nodup, path_inRange (largeChains_path hh)⟩, ?_⟩
  intro h hh h' hh' hne l l' q q'
  rw [q.unique (largeChains_path hh), q'.unique (largeChains_path hh')]
  exact List.singleton_disjoint.2 fun hm => hne (List.mem_singleton.1 hm)

/-- **A link to `BAD_FAT32` is lost.** The cluster of that number is added to a directory, and is not in its chain. -/
theorem link_to_bad_is_lost : ¬ ∀ (env : Env) (sb : FatSb) (σ : ChainState) (ops : List ChainOp), env.NoFault →
    WellFormed (table sb σ.s.vol) (InRange sb) σ.heads → PrevFreeOk sb σ.s →
    Meets (chainStep env sb) (fun σ op => op.Allowed sb σ) σ ops →
    Meets (chainStep env sb) (fun σ op => op.Does env sb σ) σ ops := by
  intro hall
  have h3 : dirAtThree.iStart ∈ largeChains.heads := Or.inl rfl
  have hbad : BAD_FAT32 ∈ largeChains.heads := Or.inr rfl
  have hin3 : InRange largeSb dirAtThree.iStart := by decide
  have hinbad : InRange largeSb BAD_FAT32 := by decide
  have hne : BAD_FAT32 ≠ dirAtThree.iStart := by decide
  have hout : EntryOutside largeSb dirAtThree := by
    unfold EntryOutside InFat
    decide
  have hdoes := (hall goodEnv largeSb largeChains [.chainAdd dirAtThree BAD_FAT32 1] goodEnv_noFault
    largeChains_wellFormed ⟨le_rfl, by decide⟩ ⟨⟨Or.inr h3, hbad, hne, hout⟩, trivial⟩).1
  -- the growth succeeds, and leaves the EOF mark in the entry of cluster 3
  obtain ⟨hret, -, heq, -⟩ := fatChainAdd_ok goodEnv_noFault (largeChains_path h3) (Nat.le_add_left 1 _) BAD_FAT32 1
  have hlast : table largeSb (fatChainAdd goodEnv largeSb largeChains.s dirAtThree BAD_FAT32 1).s.vol
      dirAtThree.iStart = .last := by
    rw [heq.table, List.getLast_singleton, table_fatPut hin3 hinbad.storable, toLink_readBack_bad, Function.update_self]
  rcases hdoes with ⟨-, h0, -⟩ | ⟨-, -, -, hpath⟩ | ⟨hneg, -⟩
  · exact absurd h0 (by decide)
  · obtain ⟨q, -⟩ := hpath _ _ (largeChains_path h3) (largeChains_path hbad)
    cases q with
    | next hn q =>
      rw [hlast] at hn
      exact absurd hn (by simp)
  · rw [hret] at hneg
    exact absurd hneg (lt_irrefl 0)

end AtsLdd.Fat
