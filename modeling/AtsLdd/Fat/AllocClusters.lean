/-
Allocating clusters: `fat_alloc_clusters` (fat_entry.c).

The FAT is searched from `prev_free` on, once around, and the free entries met are linked through two cursors: `fatent` on
the entry in hand, `prev_ent` on the one before it in the new chain.

- `freeEntries`: the free entries in the order of the search; every entry of the volume is visited once;
- `Chained`: free entries of one volume have become a chain in another one, which agrees with it elsewhere;
- `fatAllocLoop_any`: the search, whatever fails;
- `fatAllocClusters_ok`: without a failure, the first free entries become a chain, or nothing changes for want of them.
-/
import AtsLdd.Fat.FreeClusters

namespace AtsLdd.Fat

open AtsLdd.Machine AtsLdd.LinkTable

def ENOSPC : ℕ := 28

/-! ## The code -/

/-- the variables of `fat_alloc_clusters` -/
structure Alloc where
  fatent : FatEntry
  prevEnt : FatEntry
  bhs : List ℕ
  /-- the clusters allocated so far -/
  cluster : List ℤ
  s : St

/-- the head of the outer loop: the search goes on in another block, or at the start of the FAT -/
def allocReadBlock (env : Env) (sb : FatSb) (a : Alloc) : Bool × Alloc :=
  let entry := if sb.maxCluster ≤ ulong a.fatent.entry then FAT_START_ENT else a.fatent.entry
  match fatEntReadBlock env sb a.s (a.fatent.setEntry entry) with
  | (ok, fatent, s) => (ok, { a with fatent := fatent, s := s })

/-- a free entry becomes the new end of the chain -/
def takeFree (a : Alloc) : Alloc :=
  let entry := a.fatent.entry
  let s := a.fatent.put a.s FAT_ENT_EOF
  let s := if a.prevEnt.bh.isSome then a.prevEnt.put s entry else s
  let (bhs, s) := fatCollectBhs a.bhs s a.fatent
  let s := { s with
    prevFree := (entry % 2 ^ 32).toNat
    freeClusters := if s.freeClusters ≠ FREE_UNKNOWN then (s.freeClusters + (2 ^ 32 - 1)) % 2 ^ 32 else s.freeClusters }
  { a with bhs := bhs, cluster := a.cluster ++ [entry], s := s }

/-- the two loops of `fat_alloc_clusters` with `left` entries to go; `more` when the next one is in the same block.
The cursor is stepped also behind the last entry, where nothing looks at it any more. -/
def fatAllocLoop (env : Env) (sb : FatSb) (nrCluster : ℕ) : ℕ → Bool → Alloc → ℤ × Alloc
  | 0, _, a => (- ENOSPC, { a with s := { a.s with freeClusters := 0, freeClusValid := true } })
  | left + 1, more, a =>
    match if more then (true, a) else allocReadBlock env sb a with
    | (false, a) => (- EIO, a)
    | (true, a) =>
      if a.fatent.get a.s = FAT_ENT_FREE then
        let a := takeFree a
        if a.cluster.length = nrCluster then (0, a)
        else
          let (more, fatent) := fatEntNext sb a.fatent
          fatAllocLoop env sb nrCluster left more { a with prevEnt := a.fatent, fatent := fatent }
      else
        let (more, fatent) := fatEntNext sb a.fatent
        fatAllocLoop env sb nrCluster left more { a with fatent := fatent }

/-- the counter says that there are not enough free clusters -/
def Refused (s : St) (nr : ℕ) : Prop := s.freeClusters ≠ FREE_UNKNOWN ∧ s.freeClusValid = true ∧ s.freeClusters < nr

instance (s : St) (nr : ℕ) : Decidable (Refused s nr) := inferInstanceAs (Decidable (_ ∧ _))

/-- what `fat_alloc_clusters` leaves: 0 or a negative error, and the clusters it took -/
structure AllocClusters where
  err : ℤ
  cluster : List ℤ
  s : St

/-- the variables when the search starts -/
def allocStart (s : St) : Alloc :=
  ⟨fatentInit.setEntry (int32 ((s.prevFree + 1 : ℕ) : ℤ)), fatentInit, [], [], s⟩

/-- the end of `fat_alloc_clusters`, from the label `out` on: the buffers are written, or the clusters freed again -/
def allocOut (env : Env) (sb : FatSb) (needsSync : Bool) : ℤ × Alloc → AllocClusters
  | (err, a) =>
    let s := (a.fatent.brelse a.s).2
    let (err, s) := if err = 0 then fatWriteBhs env sb s a.bhs needsSync else (err, s)
    let s := a.bhs.foldl brelse s
    match a.cluster with
    | [] => ⟨err, [], s⟩
    | c :: _ => ⟨err, a.cluster, if err ≠ 0 then (fatFreeClusters env sb s c).2 else s⟩

/-- `fat_alloc_clusters`; `none` is its `BUG_ON`. `needsSync` is `inode_needs_sync` of the inode it is for. -/
def fatAllocClusters (env : Env) (sb : FatSb) (s : St) (needsSync : Bool) (nrCluster : ℕ) : Option AllocClusters :=
  if MAX_BUF_PER_PAGE / 2 < nrCluster then none
  else if Refused s nrCluster then some ⟨- ENOSPC, [], s⟩
  else some (allocOut env sb needsSync (fatAllocLoop env sb nrCluster (sb.maxCluster - 2) false (allocStart s)))

/-! ## The order of the search -/

/-- the entry at which a search that has come to `e` goes on -/
def wrapEntry (sb : FatSb) (e : ℤ) : ℤ := if (sb.maxCluster : ℤ) ≤ e then FAT_START_ENT else e

/-- the entry visited `i` steps after entry `e` -/
def scanEntry (sb : FatSb) (e : ℤ) (i : ℕ) : ℤ :=
  FAT_START_ENT + (e - FAT_START_ENT + i) % (sb.maxCluster - FAT_START_ENT)

/-- the `n` entries that a search visits from entry `e` on -/
def scan (sb : FatSb) (e : ℤ) (n : ℕ) : List ℤ := (List.range n).map (scanEntry sb e)

/-- the free entries in the order in which a search from `prev_free` on meets them -/
def freeEntries (sb : FatSb) (vol : Vol) (prevFree : ℕ) : List ℤ :=
  (scan sb (wrapEntry sb (prevFree + 1)) (sb.maxCluster - 2)).filter fun c => fatVal sb vol c = FAT_ENT_FREE

section
variable {sb : FatSb} {e c : ℤ} {n : ℕ}

theorem scan_inRange (hmax : 2 < sb.maxCluster) : ∀ x ∈ scan sb e n, InRange sb x := by
  intro x hx
  obtain ⟨i, -, rfl⟩ := List.mem_map.1 hx
  have hpos : (0 : ℤ) < sb.maxCluster - FAT_START_ENT := by
    unfold FAT_START_ENT
    omega
  have h0 := Int.emod_nonneg (e - FAT_START_ENT + i) hpos.ne'
  have h1 := Int.emod_lt_of_pos (e - FAT_START_ENT + i) hpos
  unfold InRange scanEntry
  omega

theorem scan_nodup (hn : n ≤ sb.maxCluster - 2) : (scan sb e n).Nodup := by
  refine List.Nodup.map_on ?_ List.nodup_range
  intro i hi j hj h
  have hi := List.mem_range.1 hi
  have hj := List.mem_range.1 hj
  have hmod : (i : ℤ) ≡ j [ZMOD (sb.maxCluster - FAT_START_ENT)] :=
    Int.ModEq.add_left_cancel' (e - FAT_START_ENT) (Int.add_left_cancel h)
  have hlt : ∀ k : ℕ, k < n → (k : ℤ) % (sb.maxCluster - FAT_START_ENT) = k := by
    intro k hk
    apply Int.emod_eq_of_lt (Int.natCast_nonneg k)
    unfold FAT_START_ENT
    omega
  unfold Int.ModEq at hmod
  rw [hlt i hi, hlt j hj] at hmod
  exact Int.natCast_inj.1 hmod

/-- a search that goes once around visits every entry of the volume -/
theorem mem_scan (hc : InRange sb c) : c ∈ scan sb e (sb.maxCluster - 2) := by
  have hpos : (0 : ℤ) < sb.maxCluster - FAT_START_ENT := by
    have h1 := hc.1
    have h2 := hc.2
    omega
  have hmod0 := Int.emod_nonneg (c - e) hpos.ne'
  have hmod1 := Int.emod_lt_of_pos (c - e) hpos
  refine List.mem_map.2 ⟨((c - e) % (sb.maxCluster - FAT_START_ENT)).toNat, List.mem_range.2 ?_, ?_⟩
  · unfold FAT_START_ENT at *
    omega
  · unfold scanEntry
    rw [Int.toNat_of_nonneg hmod0, Int.add_emod_emod]
    have hsum : e - FAT_START_ENT + (c - e) = c - FAT_START_ENT := by ring
    have hlt : (c - FAT_START_ENT) % (sb.maxCluster - FAT_START_ENT) = c - FAT_START_ENT := by
      refine Int.emod_eq_of_lt ?_ ?_
      · exact Int.sub_nonneg.2 hc.1
      · have := hc.2
        omega
    rw [hsum, hlt]
    ring

theorem scan_succ (he : InRange sb e) : scan sb e (n + 1) = e :: scan sb (wrapEntry sb (e + 1)) n := by
  have h1 := he.1
  have h2 := he.2
  unfold scan
  rw [List.range_succ_eq_map, List.map_cons, List.map_map]
  congr 1
  · unfold scanEntry
    rw [Nat.cast_zero, add_zero, Int.emod_eq_of_lt (by omega) (by omega)]
    ring
  · apply List.map_congr_left
    intro i _
    simp only [Function.comp, scanEntry, wrapEntry]
    by_cases hwrap : (sb.maxCluster : ℤ) ≤ e + 1
    · have hlast : e - FAT_START_ENT + ((i + 1 : ℕ) : ℤ) = i + (sb.maxCluster - FAT_START_ENT) := by
        push_cast
        omega
      rw [if_pos hwrap, hlast, Int.add_emod_right, sub_self, zero_add]
    · have hnext : e - FAT_START_ENT + ((i + 1 : ℕ) : ℤ) = e + 1 - FAT_START_ENT + i := by
        push_cast
        ring
      rw [if_neg hwrap, hnext]

theorem mem_freeEntries {vol : Vol} {prevFree : ℕ} (hc : InRange sb c) :
    c ∈ freeEntries sb vol prevFree ↔ fatVal sb vol c = FAT_ENT_FREE := by
  unfold freeEntries
  rw [List.mem_filter, decide_eq_true_eq]
  exact ⟨fun h => h.2, fun h => ⟨mem_scan hc, h⟩⟩

theorem freeEntries_nodup (sb : FatSb) (vol : Vol) (prevFree : ℕ) : (freeEntries sb vol prevFree).Nodup :=
  (scan_nodup le_rfl).filter _

end

/-! ## Making a chain -/

/-- the clusters `cs`, free in `vol0`, are a chain in `vol`, which agrees with `vol0` elsewhere -/
structure Chained (sb : FatSb) (vol0 vol : Vol) (cs : List ℤ) : Prop where
  nodup : cs.Nodup
  inRange : ∀ x ∈ cs, InRange sb x
  free : ∀ x ∈ cs, fatVal sb vol0 x = FAT_ENT_FREE
  frame : ∀ x, InRange sb x → x ∉ cs → fatVal sb vol x = fatVal sb vol0 x
  chain : cs.IsChain fun x y => fatVal sb vol x = y
  last : ∀ x, cs.getLast? = some x → fatVal sb vol x = FAT_ENT_EOF
  top : ∀ x, InRange sb x → fatTop sb vol x = fatTop sb vol0 x

theorem InRange.ne_eof {sb : FatSb} {c : ℤ} (h : InRange sb c) : c ≠ FAT_ENT_EOF := by
  have hle := h.le_bad
  unfold BAD_FAT32 at hle
  unfold FAT_ENT_EOF
  omega

section
variable {sb : FatSb} {vol0 vol vol' : Vol} {cs : List ℤ} {c : ℤ}

theorem Chained.nil (sb : FatSb) (vol : Vol) : Chained sb vol vol [] where
  nodup := List.nodup_nil
  inRange := fun _ hx => absurd hx List.not_mem_nil
  free := fun _ hx => absurd hx List.not_mem_nil
  frame := fun _ _ _ => rfl
  chain := List.IsChain.nil
  last := fun _ hx => absurd hx (by simp)
  top := fun _ _ => rfl

theorem Chained.congr (h : Chained sb vol0 vol cs) (heq : EqFat sb vol vol') : Chained sb vol0 vol' cs where
  nodup := h.nodup
  inRange := h.inRange
  free := h.free
  frame := fun x hx hxc => (heq.val hx).trans (h.frame x hx hxc)
  chain := h.chain.imp_of_mem_imp fun x _ hx _ hxy => (heq.val (h.inRange x hx)).trans hxy
  last := fun x hx => (heq.val (h.inRange x (List.mem_of_getLast? hx))).trans (h.last x hx)
  top := fun x hx => (heq.top hx).trans (h.top x hx)

/-- the stores that hang `c` behind the clusters `cs` -/
def hang (sb : FatSb) (vol : Vol) (cs : List ℤ) (c : ℤ) : Vol :=
  match cs.getLast? with
  | none => fatPut sb vol c FAT_ENT_EOF
  | some p => fatPut sb (fatPut sb vol c FAT_ENT_EOF) p c

/-- the value of an entry after `c` is hung behind `cs` -/
theorem fatVal_hang (hin : ∀ x ∈ cs, InRange sb x) (hc : InRange sb c) (hcs : c ∉ cs) {x : ℤ} (hx : InRange sb x) :
    fatVal sb (hang sb vol cs c) x =
      if x = c then FAT_ENT_EOF else if cs.getLast? = some x then c else fatVal sb vol x := by
  unfold hang
  cases hl : cs.getLast? with
  | none =>
    simp only
    rw [fatVal_fatPut hc Storable.eof hx, if_neg (show ¬ (none = some x) by simp)]
  | some p =>
    have hp := List.mem_of_getLast? hl
    have hpc : p ≠ c := fun h => hcs (h ▸ hp)
    simp only [Option.some.injEq]
    rw [fatVal_fatPut (hin p hp) hc.storable hx, fatVal_fatPut hc Storable.eof hx]
    by_cases hxp : x = p
    · rw [if_pos hxp, if_neg (hxp ▸ hpc), if_pos hxp.symm]
    · have hpx : p ≠ x := fun h => hxp h.symm
      rw [if_neg hxp, if_neg hpx]

theorem fatTop_hang (hin : ∀ x ∈ cs, InRange sb x) (hc : InRange sb c) {x : ℤ} (hx : InRange sb x) :
    fatTop sb (hang sb vol cs c) x = fatTop sb vol x := by
  unfold hang
  cases hl : cs.getLast? with
  | none => exact fatTop_fatPut hc Storable.eof hx
  | some p =>
    simp only
    rw [fatTop_fatPut (hin p (List.mem_of_getLast? hl)) hc.storable hx, fatTop_fatPut hc Storable.eof hx]

/-- **One more cluster.** -/
theorem Chained.snoc (h : Chained sb vol0 vol cs) (hc : InRange sb c) (hcs : c ∉ cs)
    (hfree : fatVal sb vol0 c = FAT_ENT_FREE) : Chained sb vol0 (hang sb vol cs c) (cs ++ [c]) where
  nodup := by
    refine List.nodup_append.2 ⟨h.nodup, List.nodup_singleton c, ?_⟩
    intro x hx y hy hxy
    rw [List.mem_singleton.1 hy] at hxy
    exact hcs (hxy ▸ hx)
  inRange := by
    intro x hx
    rcases List.mem_append.1 hx with hx | hx
    · exact h.inRange x hx
    · exact List.mem_singleton.1 hx ▸ hc
  free := by
    intro x hx
    rcases List.mem_append.1 hx with hx | hx
    · exact h.free x hx
    · exact List.mem_singleton.1 hx ▸ hfree
  frame := by
    intro x hx hxc
    have hxcs : x ∉ cs := fun hm => hxc (List.mem_append_left _ hm)
    have hne : x ≠ c := fun hm => hxc (List.mem_append_right _ (List.mem_singleton.2 hm))
    have hlast : ¬ cs.getLast? = some x := fun hl => hxcs (List.mem_of_getLast? hl)
    rw [fatVal_hang h.inRange hc hcs hx, if_neg hne, if_neg hlast]
    exact h.frame x hx hxcs
  chain := by
    refine List.IsChain.append ?_ (List.IsChain.singleton c) ?_
    · apply h.chain.imp_of_mem_imp
      intro x y hx hy hxy
      -- the last one holds the EOF mark, so that it leads nowhere
      have hlast : ¬ cs.getLast? = some x := by
        intro hl
        rw [h.last x hl] at hxy
        exact (h.inRange y hy).ne_eof hxy.symm
      rw [fatVal_hang h.inRange hc hcs (h.inRange x hx), if_neg (fun hm : x = c => hcs (hm ▸ hx)), if_neg hlast]
      exact hxy
    · intro x hx y hy
      have hlast : cs.getLast? = some x := hx
      have hxcs := List.mem_of_getLast? hlast
      rw [List.head?_cons, Option.mem_some_iff] at hy
      rw [fatVal_hang h.inRange hc hcs (h.inRange x hxcs), if_neg (fun hm : x = c => hcs (hm ▸ hxcs)), if_pos hlast,
        hy]
  last := by
    intro x hx
    rw [List.getLast?_append, List.getLast?_singleton, Option.some_or, Option.some.injEq] at hx
    rw [← hx, fatVal_hang h.inRange hc hcs hc, if_pos rfl]
  top := fun x hx => (fatTop_hang h.inRange hc hx).trans (h.top x hx)

/-- none of the clusters is free any more -/
theorem Chained.val_ne_free (h : Chained sb vol0 vol cs) (hc : c ∈ cs) : fatVal sb vol c ≠ FAT_ENT_FREE := by
  obtain ⟨l1, l2, rfl⟩ := List.append_of_mem hc
  cases l2 with
  | nil =>
    rw [h.last c (by simp)]
    decide
  | cons d l2 =>
    have hval : fatVal sb vol c = d := (List.isChain_append.1 h.chain).2.1.rel
    rw [hval]
    exact (h.inRange d (by simp)).pos.ne'

/-- **It is a chain of the FAT**, unless one of its links is the number of the bad mark. -/
theorem Chained.path (h : Chained sb vol0 vol cs) (hne : cs ≠ []) (hbad : BAD_FAT32 ∉ cs.tail) :
    Path (table sb vol) (cs.head hne) cs := by
  refine path_of_isChain hne ?_ ?_
  · apply h.chain.imp_of_mem_tail_imp
    intro x y hx hy hxy
    have hyin := h.inRange y (List.mem_of_mem_tail hy)
    rw [table_of_inRange (h.inRange x hx), fatLink_eq, hxy]
    exact toLink_readBack hyin fun he => hbad (he ▸ hy)
  · have hl : cs.getLast? = some (cs.getLast hne) := List.getLast?_eq_some_getLast hne
    have hin := h.inRange _ (List.getLast_mem hne)
    rw [table_of_inRange hin, fatLink_eq, h.last _ hl]
    exact toLink_readBack_eof

end

/-! ## What it does -/

/-- the search starts inside the volume, or right behind it -/
def PrevFreeOk (sb : FatSb) (s : St) : Prop := 2 ≤ s.prevFree ∧ s.prevFree ≤ sb.maxCluster

/-- a search that has made a chain of the clusters it found -/
structure Search (sb : FatSb) (vol0 : Vol) (a : Alloc) : Prop where
  chained : Chained sb vol0 a.s.vol a.cluster
  prev : ∀ p, a.cluster.getLast? = some p → a.prevEnt.At sb p
  prevNil : a.cluster = [] → a.prevEnt.bh = none
  bhs : BhsInFat sb a.bhs
  prevFree : PrevFreeOk sb a.s

section
variable {env : Env} {sb : FatSb} {vol0 : Vol} {e : ℤ}

theorem wrapEntry_of_lt (h : e < sb.maxCluster) : wrapEntry sb e = e := if_neg (not_le.2 h)

theorem wrapEntry_inRange (hmax : 2 < sb.maxCluster) (h : FAT_START_ENT ≤ e) : InRange sb (wrapEntry sb e) := by
  unfold wrapEntry
  split_ifs with hwrap
  · refine ⟨le_rfl, ?_⟩
    unfold FAT_START_ENT
    omega
  · exact ⟨h, not_le.1 hwrap⟩

/-- the head of the outer loop puts the cursor on the next entry of the search -/
theorem allocReadBlock_ok (henv : env.NoFault) (a : Alloc) (h0 : 0 ≤ a.fatent.entry) (h1 : a.fatent.entry < 2 ^ 63) :
    ∃ e' s', allocReadBlock env sb a = (true, { a with fatent := e', s := s' }) ∧
      e'.At sb (wrapEntry sb a.fatent.entry) ∧ SameFat sb a.s s' := by
  have hcond : sb.maxCluster ≤ ulong a.fatent.entry ↔ (sb.maxCluster : ℤ) ≤ a.fatent.entry := by
    have hu := ulong_of_bounds h0 (show a.fatent.entry < 2 ^ 64 by omega)
    omega
  obtain ⟨e', s', hread, hat, hsame⟩ := fatEntReadBlock_ok henv sb a.s (a.fatent.setEntry (wrapEntry sb a.fatent.entry))
  refine ⟨e', s', ?_, hat, hsame⟩
  unfold allocReadBlock
  simp only [hcond]
  change (match fatEntReadBlock env sb a.s (a.fatent.setEntry (wrapEntry sb a.fatent.entry)) with
    | (ok, fatent, s) => (ok, { a with fatent := fatent, s := s })) = _
  rw [hread]

/-- what taking a free entry does to the volume, the counters and the cursors -/
theorem takeFree_vol {a : Alloc} (hprev : ∀ p, a.cluster.getLast? = some p → a.prevEnt.At sb p)
    (hnil : a.cluster = [] → a.prevEnt.bh = none) (hbhs : BhsInFat sb a.bhs) (hat : a.fatent.At sb e)
    (he : InRange sb e) :
    (takeFree a).cluster = a.cluster ++ [e] ∧ EqFat sb (hang sb a.s.vol a.cluster e) (takeFree a).s.vol ∧
      BhsInFat sb (takeFree a).bhs ∧ PrevFreeOk sb (takeFree a).s ∧
      (takeFree a).s.freeClusValid = a.s.freeClusValid ∧ (takeFree a).s.freeClusters =
        if a.s.freeClusters ≠ FREE_UNKNOWN then (a.s.freeClusters + (2 ^ 32 - 1)) % 2 ^ 32 else a.s.freeClusters := by
  have hentry := hat.entry
  set s1 : St := { a.s with vol := fatPut sb a.s.vol e FAT_ENT_EOF } with hs1
  have hput : a.fatent.put a.s FAT_ENT_EOF = s1 := hat.put a.s FAT_ENT_EOF
  -- both stores together
  have hboth : (if a.prevEnt.bh.isSome then a.prevEnt.put s1 e else s1) =
      { a.s with vol := hang sb a.s.vol a.cluster e } := by
    unfold hang
    cases hl : a.cluster.getLast? with
    | none =>
      rw [hnil (List.getLast?_eq_none_iff.1 hl)]
      rfl
    | some p =>
      rw [(hprev p hl).bh, (hprev p hl).put]
      rfl
  obtain ⟨hbhs', hsame⟩ := fatCollectBhs_spec { a.s with vol := hang sb a.s.vol a.cluster e } hat he hbhs
  unfold takeFree
  simp only [hput, hentry, hboth]
  refine ⟨trivial, hsame.vol, hbhs', ?_, hsame.freeClusValid, ?_⟩
  · obtain ⟨k, rfl, h2, hk⟩ := inRange_natCast he
    have hmax := sb.maxCluster_max
    unfold MAX_FAT32 at hmax
    unfold PrevFreeOk
    simp only
    omega
  · rw [hsame.freeClusters]

/-- **Taking a free entry** hangs it behind the clusters found so far. -/
theorem takeFree_spec {a : Alloc} (h : Search sb vol0 a) (hat : a.fatent.At sb e) (he : InRange sb e)
    (hnew : e ∉ a.cluster) (hfree : fatVal sb vol0 e = FAT_ENT_FREE) :
    (takeFree a).fatent = a.fatent ∧ (takeFree a).cluster = a.cluster ++ [e] ∧
      Chained sb vol0 (takeFree a).s.vol (takeFree a).cluster ∧ BhsInFat sb (takeFree a).bhs ∧
      PrevFreeOk sb (takeFree a).s := by
  obtain ⟨hcluster, hvol, hbhs, hpf, -, -⟩ := takeFree_vol h.prev h.prevNil h.bhs hat he
  refine ⟨rfl, hcluster, ?_, hbhs, hpf⟩
  rw [hcluster]
  exact (h.chained.snoc he hnew hfree).congr hvol

/-- where the search stands: on entry `e`, or about to read the block of `e` -/
def Cursor (sb : FatSb) (more : Bool) (a : Alloc) (e : ℤ) : Prop :=
  (more = true → a.fatent.At sb e) ∧
    (more = false → 0 ≤ a.fatent.entry ∧ a.fatent.entry < 2 ^ 63 ∧ wrapEntry sb a.fatent.entry = e)

theorem allocHead_ok (henv : env.NoFault) {more : Bool} {a : Alloc} (hcur : Cursor sb more a e) :
    ∃ e' s', (if more then (true, a) else allocReadBlock env sb a) = (true, { a with fatent := e', s := s' }) ∧
      e'.At sb e ∧ SameFat sb a.s s' := by
  cases more with
  | true => exact ⟨a.fatent, a.s, rfl, hcur.1 rfl, SameFat.refl sb a.s⟩
  | false =>
    obtain ⟨h0, h1, hwrap⟩ := hcur.2 rfl
    obtain ⟨e', s', hread, hat, hsame⟩ := allocReadBlock_ok henv a h0 h1
    rw [hwrap] at hat
    exact ⟨e', s', hread, hat, hsame⟩

/-- the head of the outer loop, whatever fails -/
theorem allocHead_any (env : Env) {more : Bool} {a : Alloc} {e : ℤ} (hcur : Cursor sb more a e) :
    ∃ ok e' s', (if more then (true, a) else allocReadBlock env sb a) = (ok, { a with fatent := e', s := s' }) ∧
      (ok = true → e'.At sb e) ∧ SameFat sb a.s s' := by
  cases more with
  | true => exact ⟨true, a.fatent, a.s, rfl, fun _ => hcur.1 rfl, SameFat.refl sb a.s⟩
  | false =>
    obtain ⟨h0, h1, hwrap⟩ := hcur.2 rfl
    have hcond : sb.maxCluster ≤ ulong a.fatent.entry ↔ (sb.maxCluster : ℤ) ≤ a.fatent.entry := by
      have hu := ulong_of_bounds h0 (show a.fatent.entry < 2 ^ 64 by omega)
      omega
    obtain ⟨ok, e', s', hread, hsame, hat⟩ := fatEntReadBlock_any env sb a.s (a.fatent.setEntry e)
    refine ⟨ok, e', s', ?_, hat, hsame⟩
    unfold wrapEntry at hwrap
    simp only [Bool.false_eq_true, if_false, allocReadBlock, hcond, hwrap, hread]

/-- stepping the cursor -/
theorem cursor_next {fatent : FatEntry} (he : InRange sb e) (hat : fatent.At sb e) {a : Alloc}
    (ha : a.fatent = (fatEntNext sb fatent).2) : Cursor sb (fatEntNext sb fatent).1 a (wrapEntry sb (e + 1)) := by
  obtain ⟨hentry, hmore⟩ := fatEntNext_spec he hat
  have hmax := sb.maxCluster_max
  unfold MAX_FAT32 at hmax
  refine ⟨fun h => ?_, fun _ => ?_⟩
  · obtain ⟨hin, hnext⟩ := hmore h
    rw [wrapEntry_of_lt hin.2, ha]
    exact hnext
  · rw [ha, hentry]
    have hpos := he.pos
    have hlt := he.2
    exact ⟨by omega, by omega, rfl⟩

/-- **The search**, whatever fails: it takes the free entries in its order until there are enough of them, or a block of the
FAT cannot be read. -/
theorem fatAllocLoop_any (env : Env) (hmax : 2 < sb.maxCluster) (nr left : ℕ) :
    ∀ {e : ℤ} {more : Bool} {a : Alloc}, Search sb vol0 a → InRange sb e → Cursor sb more a e →
    (scan sb e left).Nodup → a.cluster.Disjoint (scan sb e left) → a.cluster.length < nr →
    ∃ r a', fatAllocLoop env sb nr left more a = (r, a') ∧
      (r = - EIO ∧ ¬ env.NoFault ∨
        r = (if nr ≤ a.cluster.length + ((scan sb e left).filter fun c => fatVal sb vol0 c = FAT_ENT_FREE).length then 0
          else (- ENOSPC : ℤ)) ∧
        a'.cluster = a.cluster ++
          ((scan sb e left).filter fun c => fatVal sb vol0 c = FAT_ENT_FREE).take (nr - a.cluster.length)) ∧
      Chained sb vol0 a'.s.vol a'.cluster ∧ BhsInFat sb a'.bhs ∧ PrevFreeOk sb a'.s := by
  induction left with
  | zero =>
    intro e more a h he hcur hnd hdis hlt
    refine ⟨_, { a with s := { a.s with freeClusters := 0, freeClusValid := true } }, rfl, Or.inr ⟨?_, ?_⟩, h.chained, h.bhs,
      h.prevFree⟩
    · rw [if_neg (by simpa [scan] using hlt)]
    · simp [scan]
  | succ left ih =>
    intro e more a h he hcur hnd hdis hlt
    rw [scan_succ he] at hnd hdis ⊢
    obtain ⟨hnot, hnd'⟩ := List.nodup_cons.1 hnd
    have hnew : e ∉ a.cluster := fun hm => hdis hm List.mem_cons_self
    obtain ⟨ok, e', s', hhead, hat, hsame⟩ := allocHead_any env hcur
    have hsearch : Search sb vol0 { a with fatent := e', s := s' } :=
      ⟨h.chained.congr hsame.vol, h.prev, h.prevNil, h.bhs, by rw [PrevFreeOk, hsame.prevFree]; exact h.prevFree⟩
    simp only [fatAllocLoop, hhead]
    cases ok with
    | false =>
      refine ⟨_, { a with fatent := e', s := s' }, rfl, Or.inl ⟨rfl, fun henv => ?_⟩, hsearch.chained, hsearch.bhs,
        hsearch.prevFree⟩
      obtain ⟨e'', s'', hok, -⟩ := allocHead_ok henv hcur
      rw [hok] at hhead
      exact absurd (congrArg Prod.fst hhead) (by simp)
    | true =>
      have hat := hat rfl
      have hval : fatVal sb s'.vol e = fatVal sb vol0 e := (EqFat.val hsame.vol he).trans (h.chained.frame e he hnew)
      have hget : e'.get s' = FAT_ENT_FREE ↔ fatVal sb vol0 e = FAT_ENT_FREE := by
        rw [hat.get, fatLink_eq_free, hval]
      have hnextIn : InRange sb (wrapEntry sb (e + 1)) := wrapEntry_inRange hmax (by have := he.1; omega)
      by_cases hfree : fatVal sb vol0 e = FAT_ENT_FREE
      · simp only [if_pos (hget.2 hfree)]
        obtain ⟨htf, htc, hchained, hbhs, hpf⟩ := takeFree_spec hsearch hat he hnew hfree
        generalize takeFree { a with fatent := e', s := s' } = b at htf htc hchained hbhs hpf ⊢
        simp only at htf htc
        have hlen : b.cluster.length = a.cluster.length + 1 := by rw [htc, List.length_append, List.length_singleton]
        rw [List.filter_cons_of_pos (by simpa using hfree), List.length_cons]
        by_cases hdone : b.cluster.length = nr
        · simp only [if_pos hdone]
          refine ⟨0, b, rfl, Or.inr ⟨?_, ?_⟩, hchained, hbhs, hpf⟩
          · rw [if_pos (by omega)]
          · have htake : nr - a.cluster.length = 0 + 1 := by omega
            rw [htc, htake, List.take_succ_cons, List.take_zero]
        · simp only [if_neg hdone]
          have hsearch' : Search sb vol0
              { b with prevEnt := b.fatent, fatent := (fatEntNext sb b.fatent).2 } := by
            refine ⟨hchained, fun p hp => ?_, fun hnil => ?_, hbhs, hpf⟩
            · have hpe : p = e := by
                simp only [htc, List.getLast?_append, List.getLast?_singleton, Option.some_or, Option.some.injEq] at hp
                exact hp.symm
              rw [hpe]
              exact htf ▸ hat
            · simp only [htc] at hnil
              exact absurd hnil (by simp)
          have hdis' : b.cluster.Disjoint (scan sb (wrapEntry sb (e + 1)) left) := by
            rw [htc]
            refine List.disjoint_append_left.2 ⟨fun x hx hs => hdis hx (List.mem_cons_of_mem _ hs), ?_⟩
            exact List.singleton_disjoint.2 hnot
          obtain ⟨r, a', hres, hout, hch, hbh, hp⟩ := ih hsearch' hnextIn
            (cursor_next he (htf ▸ hat) rfl) hnd' hdis' (show b.cluster.length < nr by omega)
          refine ⟨r, a', hres, hout.imp id fun ⟨hr, hcl⟩ => ⟨?_, ?_⟩, hch, hbh, hp⟩
          · have hsum : ∀ m, a.cluster.length + (m + 1) = b.cluster.length + m := by
              intro m
              omega
            rw [hsum]
            exact hr
          · have htake : nr - a.cluster.length = (nr - b.cluster.length) + 1 := by omega
            simp only at hcl
            rw [hcl, htake, List.take_succ_cons, htc, List.append_assoc]
            rfl
      · simp only [if_neg (fun h => hfree (hget.1 h))]
        rw [List.filter_cons_of_neg (by simpa using hfree)]
        have hsearch' : Search sb vol0 { a with fatent := (fatEntNext sb e').2, s := s' } :=
          ⟨hsearch.chained, hsearch.prev, hsearch.prevNil, hsearch.bhs, hsearch.prevFree⟩
        exact ih hsearch' hnextIn (cursor_next he hat rfl) hnd'
          (fun x hx hs => hdis hx (List.mem_cons_of_mem _ hs)) hlt

/-- where the search of a call starts -/
theorem cursor_start {s : St} (hpf : PrevFreeOk sb s) :
    Cursor sb false (allocStart s) (wrapEntry sb ((s.prevFree : ℤ) + 1)) := by
  have hbound := sb.maxCluster_max
  unfold MAX_FAT32 at hbound
  obtain ⟨h2, hle⟩ := hpf
  have hint : int32 ((s.prevFree + 1 : ℕ) : ℤ) = ((s.prevFree + 1 : ℕ) : ℤ) := int32_of_bounds (by omega) (by omega)
  have hentry : (allocStart s).fatent.entry = (s.prevFree : ℤ) + 1 := by
    have hset : (allocStart s).fatent.entry = int32 ((s.prevFree + 1 : ℕ) : ℤ) := by
      simp only [allocStart, FatEntry.setEntry]
    rw [hset, hint, Nat.cast_add, Nat.cast_one]
  refine ⟨fun h => absurd h (by simp), fun _ => ?_⟩
  rw [hentry]
  exact ⟨by omega, by omega, rfl⟩

/-- the search of a call, which visits every entry of the volume, whatever fails -/
theorem fatAllocLoop_start_any (env : Env) {s : St} (hpf : PrevFreeOk sb s) {nr : ℕ} (hnr : 0 < nr) :
    ∃ r a', fatAllocLoop env sb nr (sb.maxCluster - 2) false (allocStart s) = (r, a') ∧
      (r = - EIO ∧ ¬ env.NoFault ∨ r = (if nr ≤ (freeEntries sb s.vol s.prevFree).length then 0 else (- ENOSPC : ℤ)) ∧
        a'.cluster = (freeEntries sb s.vol s.prevFree).take nr) ∧
      Chained sb s.vol a'.s.vol a'.cluster ∧ BhsInFat sb a'.bhs ∧ PrevFreeOk sb a'.s := by
  set a : Alloc := allocStart s with ha
  have hsearch : Search sb s.vol a :=
    ⟨Chained.nil sb s.vol, fun p hp => absurd hp (by simp [ha, allocStart]), fun _ => rfl, BhsInFat.nil sb, hpf⟩
  rcases Nat.lt_or_ge 2 sb.maxCluster with hmax | hmax
  · have hcur : Cursor sb false a (wrapEntry sb ((s.prevFree : ℤ) + 1)) := cursor_start hpf
    have hin : InRange sb (wrapEntry sb ((s.prevFree : ℤ) + 1)) := by
      apply wrapEntry_inRange hmax
      have h2 := hpf.1
      unfold FAT_START_ENT
      omega
    obtain ⟨r, a', hres, hout, hch, hbhs, hp⟩ := fatAllocLoop_any env hmax nr (sb.maxCluster - 2) hsearch hin hcur
      (scan_nodup le_rfl) (List.disjoint_nil_left _) hnr
    refine ⟨r, a', hres, hout.imp id fun ⟨hr, hcl⟩ => ⟨?_, ?_⟩, hch, hbhs, hp⟩
    · simp only [ha, allocStart, List.length_nil, Nat.zero_add] at hr
      exact hr
    · simp only [ha, allocStart, List.length_nil, Nat.sub_zero, List.nil_append] at hcl
      exact hcl
  · -- a volume without clusters
    have hzero : sb.maxCluster - 2 = 0 := by omega
    have hnil : freeEntries sb s.vol s.prevFree = [] := by
      unfold freeEntries
      rw [hzero]
      rfl
    refine ⟨- ENOSPC, { a with s := { a.s with freeClusters := 0, freeClusValid := true } }, ?_, Or.inr ⟨?_, ?_⟩,
      hsearch.chained, hsearch.bhs, hsearch.prevFree⟩
    · rw [hzero]
      rfl
    · rw [hnil, List.length_nil, if_neg (not_le.2 hnr)]
    · rw [hnil, List.take_nil, ha]
      rfl

/-- the search of a call without a failure -/
theorem fatAllocLoop_start (henv : env.NoFault) {s : St} (hpf : PrevFreeOk sb s) {nr : ℕ} (hnr : 0 < nr) :
    ∃ a', fatAllocLoop env sb nr (sb.maxCluster - 2) false (allocStart s) =
        ((if nr ≤ (freeEntries sb s.vol s.prevFree).length then 0 else (- ENOSPC : ℤ)), a') ∧
      a'.cluster = (freeEntries sb s.vol s.prevFree).take nr ∧ Chained sb s.vol a'.s.vol a'.cluster ∧
      BhsInFat sb a'.bhs ∧ PrevFreeOk sb a'.s := by
  obtain ⟨r, a', hres, ⟨-, hfault⟩ | ⟨hr, hcl⟩, hch, hbhs, hp⟩ := fatAllocLoop_start_any env hpf hnr
  · exact absurd henv hfault
  · exact ⟨a', hr ▸ hres, hcl, hch, hbhs, hp⟩

theorem fatAllocClusters_refused (env : Env) (sb : FatSb) {s : St} {nr : ℕ} (h : Refused s nr)
    (h4 : nr ≤ MAX_BUF_PER_PAGE / 2) (sync : Bool) :
    fatAllocClusters env sb s sync nr = some ⟨- ENOSPC, [], s⟩ := by
  unfold fatAllocClusters
  rw [if_neg (not_lt.2 h4), if_pos h]

/-- **Allocation succeeds** when there are enough free entries: the first ones become a chain. -/
theorem fatAllocClusters_ok (henv : env.NoFault) {s : St} (hpf : PrevFreeOk sb s) {nr : ℕ} (hnr : 0 < nr)
    (h4 : nr ≤ MAX_BUF_PER_PAGE / 2) (hno : ¬ Refused s nr) (hle : nr ≤ (freeEntries sb s.vol s.prevFree).length)
    (sync : Bool) :
    ∃ s', fatAllocClusters env sb s sync nr = some ⟨0, (freeEntries sb s.vol s.prevFree).take nr, s'⟩ ∧
      Chained sb s.vol s'.vol ((freeEntries sb s.vol s.prevFree).take nr) ∧ PrevFreeOk sb s' := by
  obtain ⟨a, hloop, hcl, hch, hbhs, hp⟩ := fatAllocLoop_start henv hpf hnr
  rw [if_pos hle] at hloop
  obtain ⟨s1, hwrite, hsame1⟩ := fatWriteBhs_ok henv (a.fatent.brelse a.s).2 hbhs sync
  have hsame := ((FatEntry.brelse_spec sb a.fatent a.s).2.trans hsame1).trans (foldl_brelse_sameFat sb a.bhs s1)
  refine ⟨a.bhs.foldl brelse s1, ?_, hcl ▸ hch.congr hsame.vol, ?_⟩
  · unfold fatAllocClusters
    rw [if_neg (not_lt.2 h4), if_neg hno, hloop, ← hcl]
    simp only [allocOut, if_true, hwrite]
    cases a.cluster with
    | nil => rfl
    | cons c cs => simp
  · unfold PrevFreeOk
    rw [hsame.prevFree]
    exact hp

/-- an allocation that finds too few free entries: it takes them all, and frees the chain of the first one again -/
theorem fatAllocClusters_few (henv : env.NoFault) {s : St} (hpf : PrevFreeOk sb s) {nr : ℕ} (hnr : 0 < nr)
    (h4 : nr ≤ MAX_BUF_PER_PAGE / 2) (hno : ¬ Refused s nr) (hlt : (freeEntries sb s.vol s.prevFree).length < nr)
    (sync : Bool) :
    ∃ s1 s', fatAllocClusters env sb s sync nr = some ⟨- ENOSPC, freeEntries sb s.vol s.prevFree, s'⟩ ∧
      Chained sb s.vol s1.vol (freeEntries sb s.vol s.prevFree) ∧ PrevFreeOk sb s1 ∧
      (freeEntries sb s.vol s.prevFree = [] → s' = s1) ∧
      ∀ c, (freeEntries sb s.vol s.prevFree).head? = some c → s' = (fatFreeClusters env sb s1 c).2 := by
  obtain ⟨a, hloop, hcl, hch, hbhs, hp⟩ := fatAllocLoop_start henv hpf hnr
  rw [if_neg (not_le.2 hlt)] at hloop
  rw [List.take_of_length_le hlt.le] at hcl
  have hsame := (FatEntry.brelse_spec sb a.fatent a.s).2.trans (foldl_brelse_sameFat sb a.bhs _)
  have hp1 : PrevFreeOk sb (a.bhs.foldl brelse (a.fatent.brelse a.s).2) := by
    unfold PrevFreeOk
    rw [hsame.prevFree]
    exact hp
  unfold fatAllocClusters
  rw [if_neg (not_lt.2 h4), if_neg hno, hloop, ← hcl]
  unfold allocOut
  simp only [if_neg (show ¬ (- ENOSPC : ℤ) = 0 by decide)]
  have hch1 := hch.congr hsame.vol
  generalize a.bhs.foldl brelse (a.fatent.brelse a.s).2 = s1 at hch1 hp1
  clear hloop hch hcl
  generalize a.cluster = cl at hch1
  cases cl with
  | nil => exact ⟨s1, s1, rfl, hch1, hp1, fun _ => rfl, fun c hc => absurd hc (by simp)⟩
  | cons c cs =>
    refine ⟨s1, (fatFreeClusters env sb s1 c).2, ?_, hch1, hp1, fun h => absurd h (List.cons_ne_nil c cs), ?_⟩
    · simp only [if_pos (show (- ENOSPC : ℤ) ≠ 0 by decide)]
    · intro d hd
      rw [List.head?_cons, Option.some.injEq] at hd
      rw [hd]

/-- **Allocation fails** for want of free entries: what it had taken is freed again. -/
theorem fatAllocClusters_enospc (henv : env.NoFault) {s : St} (hpf : PrevFreeOk sb s) {nr : ℕ} (hnr : 0 < nr)
    (h4 : nr ≤ MAX_BUF_PER_PAGE / 2) (hno : ¬ Refused s nr) (hlt : (freeEntries sb s.vol s.prevFree).length < nr)
    (hbad : BAD_FAT32 ∉ (freeEntries sb s.vol s.prevFree).tail) (sync : Bool) :
    ∃ cs s', fatAllocClusters env sb s sync nr = some ⟨- ENOSPC, cs, s'⟩ ∧
      (∀ x, InRange sb x → fatVal sb s'.vol x = fatVal sb s.vol x ∧ fatTop sb s'.vol x = fatTop sb s.vol x) ∧
      PrevFreeOk sb s' := by
  obtain ⟨s1, s', hres, hch, hp, hnil, hcons⟩ := fatAllocClusters_few henv hpf hnr h4 hno hlt sync
  refine ⟨_, s', hres, ?_⟩
  generalize freeEntries sb s.vol s.prevFree = cs at hch hbad hnil hcons
  cases cs with
  | nil =>
    rw [hnil rfl]
    exact ⟨fun x hx => ⟨hch.frame x hx List.not_mem_nil, hch.top x hx⟩, hp⟩
  | cons c cs =>
    have p := hch.path (List.cons_ne_nil c cs) hbad
    obtain ⟨s2, hfree, hput, hpf2⟩ := fatFreeClusters_path henv p
    rw [List.head_cons] at hfree
    rw [hcons c rfl, hfree]
    refine ⟨fun x hx => ⟨?_, ?_⟩, ?_⟩
    · rw [hput.val hx, fatVal_freePuts hch.inRange hx]
      by_cases hxc : x ∈ c :: cs
      · rw [if_pos hxc, hch.free x hxc]
      · rw [if_neg hxc, hch.frame x hx hxc]
    · rw [hput.top hx, fatTop_freePuts hch.inRange hx, hch.top x hx]
    · unfold PrevFreeOk
      rw [hpf2]
      exact hp

end

end AtsLdd.Fat
