/-
Backup FATs stay in step: allocations, releases and growing directories without a failure of the device.

An allocation mirrors what it changed when it succeeds; when it finds too few clusters it frees what it took, and mirrors
that. A release mirrors at an EOF mark only. A directory that grows changes one entry, which is mirrored at once; one that
gets its first cluster is written back to its own directory entry.

- `fatAllocClusters_inStep`, `fatFreeClusters_inStep`, `fatChainAdd_inStep`: when each of them leaves the FATs in step;
- `backup_fats_iff`: the same for any call.
-/
import AtsLdd.Fat.AllocClusters
import AtsLdd.Fat.ChainAdd
import AtsLdd.Fat.Mirror
import Mathlib.Data.List.TakeWhile

namespace AtsLdd.Fat

open AtsLdd.Machine AtsLdd.LinkTable

/-! ## What an allocation touches -/

/-- an allocation has changed the blocks of the clusters taken, which it has collected, and nothing else -/
structure Touched (sb : FatSb) (vol0 : Vol) (a : Alloc) : Prop where
  frame : ∀ b, b ∉ a.bhs → a.s.vol b = vol0 b
  bhs : ∀ b, b ∈ a.bhs ↔ b ∈ entryBlocks sb a.cluster
  prev : ∀ b, a.prevEnt.bh = some b → b ∈ a.bhs

section
variable {env : Env} {sb : FatSb} {vol0 : Vol} {e : ℤ}

theorem FatEntry.put_other (fatent : FatEntry) (s : St) (new : ℤ) {b : ℕ} (h : fatent.bh ≠ some b) :
    (fatent.put s new).vol b = s.vol b := by
  unfold FatEntry.put
  split
  · rename_i x off hbh _
    exact Function.update_of_ne (fun he => h (by rw [hbh, he])) _ _
  · rfl

theorem takeFree_touched {a : Alloc} (h : Touched sb vol0 a) (hat : a.fatent.At sb e) :
    Touched sb vol0 (takeFree a) ∧ (fatEntBlocknr sb e).2 ∈ (takeFree a).bhs := by
  have hbhs : (takeFree a).bhs =
      if (fatEntBlocknr sb e).2 ∈ a.bhs then a.bhs else a.bhs ++ [(fatEntBlocknr sb e).2] := fatCollectBhs_bhs hat _ _
  have hmem : ∀ b, b ∈ (takeFree a).bhs ↔ b ∈ a.bhs ∨ b = (fatEntBlocknr sb e).2 := by
    intro b
    rw [hbhs]
    split_ifs with hin
    · exact ⟨Or.inl, fun hor => hor.elim id fun he => he ▸ hin⟩
    · rw [List.mem_append, List.mem_singleton]
  have hcl : (takeFree a).cluster = a.cluster ++ [e] := congrArg (fun x => a.cluster ++ [x]) hat.entry
  refine ⟨⟨fun b hb => ?_, fun b => ?_, fun b hb => (hmem b).2 (Or.inl (h.prev b hb))⟩, (hmem _).2 (Or.inr rfl)⟩
  · rw [hmem, not_or] at hb
    have hvol : (takeFree a).s.vol = (if a.prevEnt.bh.isSome then
        a.prevEnt.put (a.fatent.put a.s FAT_ENT_EOF) a.fatent.entry else a.fatent.put a.s FAT_ENT_EOF).vol :=
      fatCollectBhs_vol a.bhs _ a.fatent
    have hent : a.fatent.bh ≠ some b := by
      rw [hat.bh]
      intro he
      exact hb.2 (Option.some.inj he).symm
    have hfirst : (a.fatent.put a.s FAT_ENT_EOF).vol b = vol0 b := (a.fatent.put_other _ _ hent).trans (h.frame b hb.1)
    rw [hvol]
    split_ifs
    · exact (a.prevEnt.put_other _ _ fun he => hb.1 (h.prev b he)).trans hfirst
    · exact hfirst
  · rw [hmem, hcl, h.bhs]
    unfold entryBlocks
    rw [List.map_append, List.mem_append, List.map_singleton, List.mem_singleton]

/-- the head of the outer loop moves the cursor only -/
theorem allocHead_vol (env : Env) (sb : FatSb) (more : Bool) (a : Alloc) :
    ∃ ok e' s', (if more then (true, a) else allocReadBlock env sb a) = (ok, { a with fatent := e', s := s' }) ∧
      s'.vol = a.s.vol := by
  cases more with
  | true => exact ⟨true, a.fatent, a.s, rfl, rfl⟩
  | false => exact ⟨_, _, _, rfl, fatEntReadBlock_vol env sb a.s _⟩

/-- **What a search touches** are the blocks of the clusters it takes. -/
theorem fatAllocLoop_touched (henv : env.NoFault) (hmax : 2 < sb.maxCluster) (nr left : ℕ) :
    ∀ {e : ℤ} {more : Bool} {a : Alloc}, Touched sb vol0 a → InRange sb e → Cursor sb more a e →
    Touched sb vol0 (fatAllocLoop env sb nr left more a).2 := by
  induction left with
  | zero => exact fun h _ _ => ⟨h.frame, h.bhs, h.prev⟩
  | succ left ih =>
    intro e more a h he hcur
    obtain ⟨e', s', hhead, hat, -⟩ := allocHead_ok henv hcur
    obtain ⟨ok, e'', s'', hhead', hvol⟩ := allocHead_vol env sb more a
    rw [hhead] at hhead'
    have hs' : s'.vol = a.s.vol := by
      have hsame : s' = s'' := congrArg (fun r => r.2.s) hhead'
      rw [hsame, hvol]
    have h1 : Touched sb vol0 { a with fatent := e', s := s' } :=
      ⟨fun b hb => (congrFun hs' b).trans (h.frame b hb), h.bhs, h.prev⟩
    have hnextIn : InRange sb (wrapEntry sb (e + 1)) := wrapEntry_inRange hmax (by have := he.1; omega)
    simp only [fatAllocLoop, hhead]
    by_cases hfree : e'.get s' = FAT_ENT_FREE
    · simp only [if_pos hfree]
      obtain ⟨h2, hblk⟩ := takeFree_touched h1 hat
      have htf : (takeFree { a with fatent := e', s := s' }).fatent = e' := rfl
      generalize takeFree { a with fatent := e', s := s' } = b at h2 hblk htf ⊢
      by_cases hdone : b.cluster.length = nr
      · simp only [if_pos hdone]
        exact h2
      · simp only [if_neg hdone]
        have h3 : Touched sb vol0 { b with prevEnt := b.fatent, fatent := (fatEntNext sb b.fatent).2 } := by
          refine ⟨h2.frame, h2.bhs, fun x hx => ?_⟩
          simp only [htf, hat.bh, Option.some.injEq] at hx
          exact hx ▸ hblk
        exact ih h3 hnextIn (cursor_next he (htf ▸ hat) rfl)
    · simp only [if_neg hfree]
      have h3 : Touched sb vol0 { a with fatent := (fatEntNext sb e').2, s := s' } := ⟨h1.frame, h1.bhs, h1.prev⟩
      exact ih h3 hnextIn (cursor_next he hat rfl)

/-- the search of a call -/
theorem fatAllocLoop_start_touched (henv : env.NoFault) {s : St} (hpf : PrevFreeOk sb s) (nr : ℕ) :
    Touched sb s.vol (fatAllocLoop env sb nr (sb.maxCluster - 2) false (allocStart s)).2 := by
  have h0 : Touched sb s.vol (allocStart s) :=
    ⟨fun _ _ => rfl, fun b => by simp [allocStart, entryBlocks], fun b hb => absurd hb (by simp [allocStart, fatentInit])⟩
  rcases Nat.lt_or_ge 2 sb.maxCluster with hmax | hmax
  · refine fatAllocLoop_touched henv hmax nr _ h0 (wrapEntry_inRange hmax ?_) (cursor_start hpf)
    have h2 := hpf.1
    unfold FAT_START_ENT
    omega
  · have hzero : sb.maxCluster - 2 = 0 := by omega
    rw [hzero]
    exact ⟨h0.frame, h0.bhs, h0.prev⟩

end

/-! ## Allocations -/

/-- the clusters that are freed again when `cs` were taken and are not enough: a link to the number of the bad mark reads
back as the end of the chain -/
def released : List ℤ → List ℤ
  | [] => []
  | c :: cs => c :: cs.takeWhile (· ≠ BAD_FAT32)

section
variable {env : Env} {sb : FatSb} {vol0 vol : Vol}

theorem Chained.path_released {c : ℤ} {cs : List ℤ} (h : Chained sb vol0 vol (c :: cs)) :
    Path (table sb vol) c (released (c :: cs)) := by
  have hsplit : c :: cs = released (c :: cs) ++ cs.dropWhile (· ≠ BAD_FAT32) := by
    unfold released
    rw [List.cons_append, List.takeWhile_append_dropWhile]
  have hne : released (c :: cs) ≠ [] := List.cons_ne_nil _ _
  have hin : ∀ x ∈ released (c :: cs), InRange sb x := fun x hx =>
    h.inRange x (hsplit ▸ List.mem_append_left _ hx)
  have hchain := h.chain
  rw [hsplit] at hchain
  obtain ⟨hfront, -, hlink⟩ := List.isChain_append.1 hchain
  refine path_of_isChain hne (hfront.imp_of_mem_tail_imp fun x y hx hy hxy => ?_) ?_
  · have hbad : y ≠ BAD_FAT32 := by
      have hkeep := List.mem_takeWhile_imp (show y ∈ cs.takeWhile (· ≠ BAD_FAT32) from hy)
      simpa using hkeep
    rw [table_of_inRange (hin x hx), fatLink_eq, hxy]
    exact toLink_readBack (hin y (List.mem_of_mem_tail hy)) hbad
  · have hlast : (released (c :: cs)).getLast? = some ((released (c :: cs)).getLast hne) :=
      List.getLast?_eq_some_getLast hne
    rw [table_of_inRange (hin _ (List.getLast_mem hne)), fatLink_eq]
    cases hrest : cs.dropWhile (· ≠ BAD_FAT32) with
    | nil =>
      rw [hrest, List.append_nil] at hsplit
      rw [h.last _ ((congrArg List.getLast? hsplit).trans hlast)]
      exact toLink_readBack_eof
    | cons d rest =>
      -- the first cluster that is left over has the number of the bad mark
      have hd : d = BAD_FAT32 := by
        have hhead := List.head?_dropWhile_not (fun x : ℤ => decide (x ≠ BAD_FAT32)) cs
        rw [hrest] at hhead
        simpa using hhead
      rw [hlink _ hlast d (by rw [hrest]; rfl), hd]
      exact toLink_readBack_bad

/-- when an allocation leaves the FATs in step: it mirrors what it took, or nothing of what it took is left over -/
def AllocInStep (sb : FatSb) (s : St) (nr : ℕ) : Prop :=
  Refused s nr ∨ nr ≤ (freeEntries sb s.vol s.prevFree).length ∨
    ∀ b ∈ entryBlocks sb (freeEntries sb s.vol s.prevFree), b ∈ entryBlocks sb (released (freeEntries sb s.vol s.prevFree))

/-- the end of an allocation that found enough clusters -/
theorem allocOut_found (henv : env.NoFault) {a : Alloc} (hbhs : BhsInFat sb a.bhs) (needsSync : Bool) :
    ∃ s0 s1, s0.vol = a.s.vol ∧ Mirrored sb a.bhs s0 s1 ∧ (allocOut env sb needsSync (0, a)).s.vol = s1.vol := by
  obtain ⟨s1, hwrite, hm⟩ := fatWriteBhs_mirrored henv hbhs (a.fatent.brelse a.s).2 needsSync
  refine ⟨_, s1, a.fatent.brelse_vol a.s, hm, ?_⟩
  unfold allocOut
  simp only [if_true, hwrite]
  cases a.cluster with
  | nil => exact foldl_brelse_vol a.bhs s1
  | cons c cs =>
    simp only [ne_eq, not_true_eq_false, if_false]
    exact foldl_brelse_vol a.bhs s1

/-- the end of an allocation that found too few -/
theorem allocOut_few (env : Env) (sb : FatSb) (a : Alloc) (needsSync : Bool) {err : ℤ} (herr : err ≠ 0) :
    ∃ s1, s1.vol = a.s.vol ∧ (allocOut env sb needsSync (err, a)).s =
      match a.cluster with
      | [] => s1
      | c :: _ => (fatFreeClusters env sb s1 c).2 := by
  refine ⟨a.bhs.foldl brelse (a.fatent.brelse a.s).2,
    (foldl_brelse_vol a.bhs _).trans (a.fatent.brelse_vol a.s), ?_⟩
  unfold allocOut
  simp only [if_neg herr]
  cases a.cluster with
  | nil => rfl
  | cons c cs => exact if_pos herr

/-- a block that an allocation did not touch -/
theorem Touched.sameCopies {a : Alloc} (h : Touched sb vol0 a) (hbhs : BhsInFat sb a.bhs) {b : ℕ} (hb : InFat sb b)
    (hnot : b ∉ a.bhs) (h0 : SameCopies sb vol0 b) : SameCopies sb a.s.vol b := by
  intro copy h1 hc
  rw [h.frame _ fun hm => fatCopy_not_inFat h1 hc hb (hbhs _ hm), h.frame b hnot]
  exact h0 copy h1 hc

/-- **After an allocation that found too few** the FATs are in step exactly when no block of a cluster that is not freed
again is left over. -/
theorem release_inStep (henv : env.NoFault) (hstep : InStep sb vol0) (hfats : 1 < sb.fats) {a : Alloc} {c : ℤ} {cs : List ℤ}
    (hcl : a.cluster = c :: cs) (hch : Chained sb vol0 a.s.vol a.cluster) (htouch : Touched sb vol0 a)
    (hbhs : BhsInFat sb a.bhs) {s1 : St} (hs1 : s1.vol = a.s.vol) :
    InStep sb (fatFreeClusters env sb s1 c).2.vol ↔
      ∀ b ∈ entryBlocks sb (c :: cs), b ∈ entryBlocks sb (released (c :: cs)) := by
  rw [hcl] at hch
  rw [← hs1] at hch
  obtain ⟨s2, hfree, hputs, hsame, hframe⟩ := fatFreeClusters_last henv hch.path_released.erase
  rw [hfree]
  constructor
  · intro hall b hb
    by_contra hnot
    obtain ⟨x, hx, rfl⟩ := List.mem_map.1 hb
    have hxin := hch.inRange x hx
    have hbin := fatEntBlocknr_inFat hxin
    obtain ⟨h1, h2⟩ := hframe _ hbin hnot
    -- the entry is free in the other FATs, and not in the first one
    have hcopy := hall _ hbin 1 le_rfl hfats
    have hnotb : fatCopy sb 1 (fatEntBlocknr sb x).2 ∉ a.bhs := fun hm =>
      fatCopy_not_inFat le_rfl hfats hbin (hbhs _ hm)
    rw [h1, h2 1 le_rfl hfats, hs1, htouch.frame _ hnotb, hstep _ hbin 1 le_rfl hfats, ← hs1] at hcopy
    have hval : fatVal sb s1.vol x = fatVal sb vol0 x := by
      unfold fatVal fatWord
      rw [hcopy]
    exact hch.val_ne_free hx (hval.trans (hch.free x hx))
  · intro hall b hb
    by_cases hmem : b ∈ entryBlocks sb (released (c :: cs))
    · exact hsame b hmem
    · obtain ⟨h1, h2⟩ := hframe b hb hmem
      have hnot : b ∉ a.bhs := fun hm => hmem (hall b (hcl ▸ (htouch.bhs b).1 hm))
      have h0 := htouch.sameCopies hbhs hb hnot (hstep b hb)
      intro copy hp hc
      rw [h2 copy hp hc, h1, hs1]
      exact h0 copy hp hc

/-- **Allocations** and the backup FATs. -/
theorem fatAllocClusters_inStep (henv : env.NoFault) {s : St} (hstep : InStep sb s.vol) (hfats : 1 < sb.fats)
    (hpf : PrevFreeOk sb s) {nr : ℕ} (hnr : 0 < nr) (h4 : nr ≤ MAX_BUF_PER_PAGE / 2) {needsSync : Bool}
    {r : AllocClusters} (hr : fatAllocClusters env sb s needsSync nr = some r) :
    InStep sb r.s.vol ↔ AllocInStep sb s nr := by
  unfold AllocInStep
  by_cases href : Refused s nr
  · rw [fatAllocClusters_refused env sb href h4, Option.some.injEq] at hr
    rw [← hr]
    exact ⟨fun _ => Or.inl href, fun _ => hstep⟩
  obtain ⟨a, hloop, hcl, hch, hbhs, -⟩ := fatAllocLoop_start henv hpf hnr
  have htouch := fatAllocLoop_start_touched henv hpf nr
  rw [hloop] at htouch
  unfold fatAllocClusters at hr
  rw [if_neg (not_lt.2 h4), if_neg href, hloop, Option.some.injEq] at hr
  rw [← hr]
  by_cases hle : nr ≤ (freeEntries sb s.vol s.prevFree).length
  · -- what was taken is mirrored
    refine ⟨fun _ => Or.inr (Or.inl hle), fun _ b hb => ?_⟩
    rw [if_pos hle]
    obtain ⟨s0, s1, hs0, hm, hvol⟩ := allocOut_found henv hbhs needsSync
    rw [hvol]
    apply hm.sameCopies hb
    by_cases hmem : b ∈ a.bhs
    · exact Or.inl hmem
    · right
      rw [hs0]
      exact htouch.sameCopies hbhs hb hmem (hstep b hb)
  · rw [if_neg hle]
    rw [List.take_of_length_le (not_le.1 hle).le] at hcl
    obtain ⟨s1, hs1, hout⟩ := allocOut_few env sb a needsSync (show (- ENOSPC : ℤ) ≠ 0 by decide)
    rw [hout, ← hcl, or_iff_right href, or_iff_right (hcl ▸ hle)]
    cases hcs : a.cluster with
    | nil =>
      refine ⟨fun _ b hb => hb, fun _ b hb => ?_⟩
      have hnot : b ∉ a.bhs := by
        rw [htouch.bhs, hcs]
        exact List.not_mem_nil
      rw [hs1]
      exact htouch.sameCopies hbhs hb hnot (hstep b hb)
    | cons c cs => exact release_inStep henv hstep hfats hcs hch htouch hbhs hs1

end

/-! ## Releases -/

/-- when a release leaves the FATs in step: it comes to an EOF mark, or no block waits where it stops -/
def FreeInStep (sb : FatSb) (vol : Vol) (a : ℤ) : Prop := ∀ l, Erase (table sb vol) a l false → awaiting sb l = []

section
variable {env : Env} {sb : FatSb} {s : St}

/-- **Releases** and the backup FATs. -/
theorem fatFreeClusters_inStep (henv : env.NoFault) (hstep : InStep sb s.vol) (hfats : 1 < sb.fats) (a : ℤ) :
    InStep sb (fatFreeClusters env sb s a).2.vol ↔ FreeInStep sb s.vol a := by
  obtain ⟨l, ended, p, -⟩ := erase_table sb s.vol a
  cases ended with
  | true =>
    obtain ⟨s', hfree, -, hsame, hframe⟩ := fatFreeClusters_last henv p
    rw [hfree]
    refine ⟨fun _ l' p' => absurd (p.unique p').2 (by simp), fun _ b hb => ?_⟩
    by_cases hmem : b ∈ entryBlocks sb l
    · exact hsame b hmem
    · obtain ⟨h1, h2⟩ := hframe b hb hmem
      intro copy hp hc
      rw [h2 copy hp hc, h1]
      exact hstep b hb copy hp hc
  | false =>
    obtain ⟨s', hfree, hiff⟩ := fatFreeClusters_stop henv p hstep hfats
    rw [hfree]
    constructor
    · intro hall l' p'
      rw [(p'.unique p).1, List.eq_nil_iff_forall_not_mem]
      intro b hw
      have hin : InFat sb b := awaiting_inFat p b hw
      exact (hiff b hin).1 (hall b hin) hw
    · intro hnil b hb
      rw [hiff b hb, hnil l p]
      exact List.not_mem_nil

/-! ## Directories -/

/-- when growing a directory leaves the FATs in step: unless its first cluster is stored in a directory entry that lies in
one of them, and changes it -/
def ChainAddInStep (sb : FatSb) (s : St) (dir : DirInode) (newDclus : ℤ) : Prop :=
  dir.iStart ≠ 0 ∨ dir.dirsync = false ∨ dir.isRoot = true ∨ dir.iPos = 0 ∨ ¬ InFats sb (iPosBlock sb dir.iPos) ∨
    rawEntry { dir with iStart := newDclus, iLogstart := newDclus } (s.vol (iPosBlock sb dir.iPos))
      (iPosOffset sb dir.iPos) = s.vol (iPosBlock sb dir.iPos)

theorem fatGetClusterLoop_ne_zero (env : Env) (sb : FatSb) (cluster : ℤ) (fuel : ℕ) : ∀ (s : St) (fclus : ℕ) {dclus : ℤ},
    dclus ≠ 0 → (fatGetClusterLoop env sb cluster fuel s fclus dclus).dclus ≠ 0 := by
  induction fuel with
  | zero =>
    intro _ _ _ h
    exact h
  | succ fuel ih =>
    intro s fclus dclus h
    rw [fatGetClusterLoop]
    split_ifs with h1 h2
    · exact h
    · exact h
    · split
      · exact h
      · split_ifs with hfree heof
        · exact h
        · exact h
        · exact ih _ _ hfree

/-- looking for the last cluster changes no block -/
theorem lastCluster_vol (env : Env) (sb : FatSb) (s : St) (dir : DirInode) : (lastCluster env sb s dir).2.2.vol = s.vol := by
  unfold lastCluster
  split_ifs with h0
  · obtain ⟨es, m, w, -, hquiet, -⟩ := fatGetClusterLoop_walk env sb FAT_ENT_EOF
      (clusterLimit sb + 2) s 0 dir.iStart _ (Nat.zero_le _) (Nat.le_refl _) rfl
    exact hquiet.vol
  · rfl

/-- a block of the FATs is a copy of a block of the first one -/
theorem inFats_copy {b : ℕ} (h : InFats sb b) : ∃ copy d, copy < sb.fats ∧ InFat sb d ∧ b = fatCopy sb copy d := by
  obtain ⟨h1, h2⟩ := h
  have hpos : 0 < sb.fatLength := by
    by_contra hzero
    rw [Nat.eq_zero_of_not_pos hzero, Nat.mul_zero] at h2
    omega
  have hlt : b - sb.fatStart < sb.fats * sb.fatLength := by omega
  have hcopy : (b - sb.fatStart) / sb.fatLength < sb.fats := Nat.div_lt_of_lt_mul (Nat.mul_comm _ _ ▸ hlt)
  have hmod := Nat.mod_lt (b - sb.fatStart) hpos
  have hin : InFat sb (sb.fatStart + (b - sb.fatStart) % sb.fatLength) := ⟨by omega, by omega⟩
  refine ⟨_, _, hcopy, hin, ?_⟩
  rw [fatCopy_eq hcopy hin]
  have hdm := Nat.div_add_mod (b - sb.fatStart) sb.fatLength
  omega

theorem fatCopy_inFats {copy d : ℕ} (hc : copy < sb.fats) (hd : InFat sb d) : InFats sb (fatCopy sb copy d) := by
  rw [fatCopy_eq hc hd]
  have hle : sb.fatLength * (copy + 1) ≤ sb.fatLength * sb.fats := Nat.mul_le_mul_left _ hc
  rw [Nat.mul_succ, Nat.mul_comm sb.fatLength sb.fats] at hle
  obtain ⟨h1, h2⟩ := hd
  exact ⟨by omega, by omega⟩

theorem fatCopy_zero {d : ℕ} (hd : InFat sb d) : fatCopy sb 0 d = d := by
  rw [fatCopy_eq sb.fats_pos hd, Nat.mul_zero, Nat.zero_add]

/-- **One block is stored**: the FATs stay in step exactly when it is outside them, or stays as it is. -/
theorem inStep_update {vol : Vol} (hstep : InStep sb vol) (hfats : 1 < sb.fats) (x : ℕ) (buf : Buf) :
    InStep sb (Function.update vol x buf) ↔ ¬ InFats sb x ∨ buf = vol x := by
  constructor
  · intro hall
    by_contra hno
    rw [not_or, not_not] at hno
    obtain ⟨⟨copy, d, hc, hd, rfl⟩, hne⟩ := And.imp_left inFats_copy hno
    rcases Nat.eq_zero_or_pos copy with rfl | hpos
    · -- the block of the first FAT changes, and its copies do not
      rw [fatCopy_zero hd] at hall hne
      have h1 := hall d hd 1 le_rfl hfats
      have hother : fatCopy sb 1 d ≠ d := fun he => fatCopy_not_inFat le_rfl hfats hd (he.symm ▸ hd)
      rw [Function.update_self, Function.update_of_ne hother, hstep d hd 1 le_rfl hfats] at h1
      exact hne h1.symm
    · have h1 := hall d hd copy hpos hc
      have hother : d ≠ fatCopy sb copy d := fun he => fatCopy_not_inFat hpos hc hd (he ▸ hd)
      rw [Function.update_self, Function.update_of_ne hother, ← hstep d hd copy hpos hc] at h1
      exact hne h1
  · rintro (hout | rfl)
    · intro b hb copy h1 hc
      have hcopy : fatCopy sb copy b ≠ x := fun he => hout (he ▸ fatCopy_inFats hc hb)
      have hb0 : b ≠ x := fun he => hout (he ▸ fatCopy_zero hb ▸ fatCopy_inFats sb.fats_pos hb)
      rw [Function.update_of_ne hcopy, Function.update_of_ne hb0]
      exact hstep b hb copy h1 hc
    · rw [Function.update_eq_self]
      exact hstep

theorem fatSyncInode_inStep (henv : env.NoFault) (hstep : InStep sb s.vol) (hfats : 1 < sb.fats) (dir : DirInode) :
    (fatSyncInode env sb s dir).1 = 0 ∧ (InStep sb (fatSyncInode env sb s dir).2.vol ↔
      dir.isRoot = true ∨ dir.iPos = 0 ∨ ¬ InFats sb (iPosBlock sb dir.iPos) ∨
        rawEntry dir (s.vol (iPosBlock sb dir.iPos)) (iPosOffset sb dir.iPos) = s.vol (iPosBlock sb dir.iPos)) := by
  unfold fatSyncInode
  by_cases hroot : dir.isRoot = true
  · rw [if_pos hroot]
    exact ⟨rfl, fun _ => Or.inl hroot, fun _ => hstep⟩
  by_cases hpos : dir.iPos = 0
  · rw [if_neg hroot, if_pos hpos]
    exact ⟨rfl, fun _ => Or.inr (Or.inl hpos), fun _ => hstep⟩
  rw [if_neg hroot, if_neg hpos, or_iff_right hroot, or_iff_right hpos]
  simp only [sbBread_ok (henv.bread _ _), syncDirtyBuffer, henv.sync, if_true]
  exact ⟨trivial, inStep_update hstep hfats _ _⟩

/-- an entry that is written is mirrored -/
theorem fatEntWrite_inStep (henv : env.NoFault) (hstep : InStep sb s.vol) {e : FatEntry} {c : ℤ} (hat : e.At sb c)
    (hc : InRange sb c) (new : ℤ) (wait : Bool) :
    ∃ s', fatEntWrite env sb s e new wait = (0, s') ∧ InStep sb s'.vol := by
  have hin : BhsInFat sb e.bh.toList := hat.bhs_inFat hc
  obtain ⟨s', hwrite, hm⟩ := fatWriteBhs_mirrored henv hin (e.put s new) wait
  refine ⟨s', hwrite, fun b hb => hm.sameCopies hb ?_⟩
  have hblk := fatEntBlocknr_inFat hc
  by_cases hbb : b = (fatEntBlocknr sb c).2
  · left
    rw [hat.bh, hbb]
    exact List.mem_singleton.2 rfl
  · right
    intro copy h1 hlt
    have hcopy : fatCopy sb copy b ≠ (fatEntBlocknr sb c).2 := fun he => fatCopy_not_inFat h1 hlt hb (he ▸ hblk)
    rw [hat.put]
    change fatPut sb s.vol c new _ = fatPut sb s.vol c new b
    rw [fatPut, Function.update_of_ne hcopy, Function.update_of_ne hbb]
    exact hstep b hb copy h1 hlt

/-- **Growing a directory** and the backup FATs. -/
theorem fatChainAdd_inStep (henv : env.NoFault) (hstep : InStep sb s.vol) (hfats : 1 < sb.fats) (dir : DirInode) (new : ℤ)
    (nr : ℕ) : InStep sb (fatChainAdd env sb s dir new nr).s.vol ↔ ChainAddInStep sb s dir new := by
  unfold ChainAddInStep
  by_cases h0 : dir.iStart = 0
  · rw [or_iff_right (not_not.2 h0)]
    unfold fatChainAdd lastCluster
    simp only [h0, ne_eq, not_true_eq_false, if_false, lt_irrefl]
    set dir' : DirInode := { dir with iStart := new, iLogstart := new } with hdir'
    obtain ⟨hret, hiff⟩ := fatSyncInode_inStep henv hstep hfats dir'
    cases hsync : dir.dirsync with
    | false =>
      simp only [Bool.false_eq_true, if_false, not_true_eq_false]
      exact ⟨fun _ => Or.inl trivial, fun _ => hstep⟩
    | true =>
      simp only [if_true, hret, not_true_eq_false, if_false, Bool.true_eq_false, false_or]
      exact hiff
  · refine ⟨fun _ => Or.inl h0, fun _ => ?_⟩
    have hvol := lastCluster_vol env sb s dir
    have hlast : (lastCluster env sb s dir).2.1 ≠ 0 := by
      unfold lastCluster
      rw [if_pos h0]
      exact fatGetClusterLoop_ne_zero env sb _ _ _ _ h0
    unfold fatChainAdd
    generalize lastCluster env sb s dir = r at hvol hlast ⊢
    obtain ⟨ret, last, s1⟩ := r
    simp only at hvol hlast ⊢
    rw [← hvol] at hstep
    by_cases hret : ret < 0
    · rw [if_pos hret]
      exact hstep
    rw [if_neg hret, if_pos hlast]
    have hread := fatEntRead_any env sb s1 fatentInit last
    obtain ⟨v, e, s2, hres, -, hor⟩ := hread
    have hvol2 := fatEntRead_vol env sb s1 fatentInit last
    rw [hres] at hvol2 ⊢
    simp only at hvol2 ⊢
    rw [← hvol2] at hstep
    by_cases hneg : v < 0
    · rw [if_pos hneg]
      exact hstep
    rw [if_neg hneg]
    rcases hor with rfl | ⟨hin, -, hat⟩
    · exact absurd (show (- EIO : ℤ) < 0 by decide) hneg
    · obtain ⟨s3, hwrite, hstep3⟩ := fatEntWrite_inStep henv hstep hat hin new true
      rw [hwrite]
      simp only [lt_irrefl, if_false]
      rw [e.brelse_vol s3]
      exact hstep3

end

/-! ## Any call -/

/-- a call that changes the FAT -/
inductive FatCall where
  | alloc (needsSync : Bool) (nrCluster : ℕ)
  | free (cluster : ℤ)
  | chainAdd (dir : DirInode) (newDclus : ℤ) (nrCluster : ℕ)

/-- the volume when the call returns, with success or with an error -/
def FatCall.vol (env : Env) (sb : FatSb) (s : St) : FatCall → Vol
  | .alloc needsSync nr =>
    match fatAllocClusters env sb s needsSync nr with
    | none => s.vol
    | some r => r.s.vol
  | .free c => (fatFreeClusters env sb s c).2.vol
  | .chainAdd dir new nr => (fatChainAdd env sb s dir new nr).s.vol

/-- the callers ask for at least one cluster, and at most for the fixed limit -/
def FatCall.Allowed : FatCall → Prop
  | .alloc _ nr => 0 < nr ∧ nr ≤ MAX_BUF_PER_PAGE / 2
  | .free _ => True
  | .chainAdd _ _ _ => True

/-- the call leaves no change of the FATs without its mirror -/
def FatCall.Mirrors (sb : FatSb) (s : St) : FatCall → Prop
  | .alloc _ nr => AllocInStep sb s nr
  | .free c => FreeInStep sb s.vol c
  | .chainAdd dir new _ => ChainAddInStep sb s dir new

/-- **The backup FATs stay in step** exactly when there are none, or the call leaves nothing without its mirror. -/
theorem backup_fats_iff {env : Env} (henv : env.NoFault) {sb : FatSb} {s : St} (hstep : InStep sb s.vol)
    (hpf : PrevFreeOk sb s) {call : FatCall} (hcall : call.Allowed) :
    InStep sb (call.vol env sb s) ↔ sb.fats = 1 ∨ call.Mirrors sb s := by
  by_cases hone : sb.fats = 1
  · exact ⟨fun _ => Or.inl hone, fun _ => inStep_of_fats hone _⟩
  have hpos := sb.fats_pos
  have hfats : 1 < sb.fats := by omega
  rw [or_iff_right hone]
  cases call with
  | alloc needsSync nr =>
    obtain ⟨hnr, h4⟩ := hcall
    simp only [FatCall.vol, FatCall.Mirrors]
    cases hr : fatAllocClusters env sb s needsSync nr with
    | none =>
      unfold fatAllocClusters at hr
      rw [if_neg (not_lt.2 h4)] at hr
      split_ifs at hr
    | some r => exact fatAllocClusters_inStep henv hstep hfats hpf hnr h4 hr
  | free c => exact fatFreeClusters_inStep henv hstep hfats c
  | chainAdd dir new nr => exact fatChainAdd_inStep henv hstep hfats dir new nr

/-! ## A release that stops short -/

/-- a volume whose two FATs have the words `words` -/
def twoFatVol (words : ℕ → ℕ) : Vol := fun b => if b = 2 then tinyVol words 1 else tinyVol words b

/-- `tinySb` with two FATs -/
def twoFatSb : FatSb := .at1 9 1 1 2 3 10 (by decide)

theorem twoFatVol_inStep (words : ℕ → ℕ) : InStep twoFatSb (twoFatVol words) := by
  intro b hb copy h1 hc
  obtain ⟨hb1, hb2⟩ := hb
  have hbe : b = 1 := le_antisymm (Nat.le_of_lt_succ hb2) hb1
  have hce : copy = 1 := le_antisymm (Nat.le_of_lt_succ hc) h1
  rw [hbe, hce]
  rfl

/-- cluster 3 leads to cluster 4, which ends its chain -/
def endedWords : ℕ → ℕ := fun k => if k = 3 then 4 else if k = 4 then 0x0FFFFFFF else 0

theorem endedWords_erase : Erase (table twoFatSb (twoFatVol endedWords)) 3 [3, 4] true :=
  .next (by decide +kernel) (.last (by decide +kernel))

/-- a chain is released -/
theorem backup_fats_ended :
    InStep twoFatSb (FatCall.vol goodEnv twoFatSb (St.idle (twoFatVol endedWords)) (.free 3)) := by
  have hcall : FatCall.Allowed (.free 3) := trivial
  refine (backup_fats_iff goodEnv_noFault (twoFatVol_inStep endedWords) ⟨le_rfl, by decide⟩ hcall).2 (Or.inr ?_)
  intro _ p
  exact absurd (p.unique endedWords_erase).2 (by simp)

/-- cluster 3 leads to cluster 4, which is free -/
def brokenWords : ℕ → ℕ := fun k => if k = 3 then 4 else 0

theorem brokenWords_erase : Erase (table twoFatSb (twoFatVol brokenWords)) 3 [3] false :=
  .next (b := 4) (by decide +kernel) (.stop (by decide +kernel))

/-- **A backup FAT out of step.** The release frees cluster 3 and finds that cluster 4 is free already; it fails, and the
backup FAT keeps the link. -/
theorem backup_fat_out_of_step : ¬ ∀ (env : Env) (sb : FatSb) (s : St) (call : FatCall), env.NoFault → InStep sb s.vol →
    PrevFreeOk sb s → call.Allowed → InStep sb (call.vol env sb s) := by
  intro hall
  have hstep := twoFatVol_inStep brokenWords
  have h := hall goodEnv twoFatSb (St.idle (twoFatVol brokenWords)) (.free 3) goodEnv_noFault hstep ⟨le_rfl, by decide⟩
    trivial
  have hwait := (fatFreeClusters_inStep goodEnv_noFault hstep (by decide) 3).1 h [3] brokenWords_erase
  exact absurd hwait (by decide)

end AtsLdd.Fat
