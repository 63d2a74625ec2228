/-
The list extension in ATS beside the C loop it replaces (`scull_follow` of main.c, kept under `#if(0)`).

The C loop walks to the index and allocates a node wherever `next` is NULL. `scull_follow_main` makes the missing nodes
as a list of its own, picks the node in it and appends it. `nodesMade` says how many nodes a row of allocations gives
before the first one that fails; both functions are described by it.

- `scullFollow_eq`, `scullFollowMain_eq`: what each of the two leaves, for an index below `INT_MAX`;
- `scullFollowMain_refines`: the two agree if and only if the index is below `INT_MAX`, or it is `INT_MAX`, the list is
  not empty and an allocation fails;
- `scullFollowMain_not_refines`: on an empty list, index `INT_MAX` makes the number of missing nodes negative.
-/
import AtsLdd.Scull.Contents

namespace AtsLdd.Scull

open AtsLdd.Machine

/-! ## The retired loop -/

/-- what the C `scull_follow` leaves: `dev->data`, the node or NULL, and the allocations tried -/
structure FollowedC where
  data : List Qset
  qs : Option ℕ
  k : ℕ
deriving DecidableEq, Repr

/-- the loop from node `qs`, with `n` to go -/
def scullFollowLoop (mem : ℕ → Bool) : ℕ → List Qset → ℕ → ℕ → FollowedC
  | 0, data, qs, k => ⟨data, some qs, k⟩
  | n + 1, data, qs, k =>
    if qs + 1 < data.length then scullFollowLoop mem n data (qs + 1) k
    else if mem k then scullFollowLoop mem n (data ++ [⟨none⟩]) (qs + 1) (k + 1)
    else ⟨data, none, k + 1⟩ -- never mind

/-- `scull_follow` of main.c; `while (n--)` counts an `int` down to 0, through a wrap if it is negative -/
def scullFollow (mem : ℕ → Bool) (data : List Qset) (n : ℤ) (k : ℕ) : FollowedC :=
  match data with
  | [] =>
    if mem k then scullFollowLoop mem (n % 2 ^ 32).toNat [⟨none⟩] 0 (k + 1) else ⟨[], none, k + 1⟩ -- never mind
  | _ :: _ => scullFollowLoop mem (n % 2 ^ 32).toNat data 0 k

/-- one does what the other does: the allocations, the node at the index or NULL, and the list; `ln_qlst` is its
length -/
structure Refines (xs : List Qset) (n : ℕ) (f : Followed) (c : FollowedC) : Prop where
  k : f.k = c.k
  pm : f.pm = some n ∧ c.qs = some n ∧ n < f.xs.length ∨ f.pm = none ∧ c.qs = none
  xs : ∃ r, f.xs = xs ++ List.replicate r ⟨none⟩ ∧ c.data = xs ++ List.replicate r ⟨none⟩
  ln0 : f.ln0 = f.xs.length

/-! ## A row of allocations -/

/-- the nodes that `need` allocations from the k-th give before the first failure -/
def nodesMade (mem : ℕ → Bool) : ℕ → ℕ → ℕ
  | 0, _ => 0
  | need + 1, k => if mem k then nodesMade mem need (k + 1) + 1 else 0

section
variable {mem : ℕ → Bool}

theorem nodesMade_le (need k : ℕ) : nodesMade mem need k ≤ need := by
  induction need generalizing k with
  | zero => exact le_rfl
  | succ need ih =>
    rw [nodesMade]
    split_ifs
    · exact Nat.succ_le_succ (ih (k + 1))
    · exact Nat.zero_le _

theorem nodesMade_lt_iff (need k : ℕ) : nodesMade mem need k < need ↔ ∃ i < need, mem (k + i) = false := by
  induction need generalizing k with
  | zero => simp [nodesMade]
  | succ need ih =>
    rw [nodesMade]
    split_ifs with hk
    · rw [Nat.succ_lt_succ_iff, ih (k + 1)]
      constructor
      · rintro ⟨i, hi, hf⟩
        exact ⟨i + 1, Nat.succ_lt_succ hi, by rw [← hf]; congr 1; omega⟩
      · rintro ⟨i, hi, hf⟩
        cases i with
        | zero => rw [Nat.add_zero, hk] at hf; cases hf
        | succ i => exact ⟨i, Nat.lt_of_succ_lt_succ hi, by rw [← hf]; congr 1; omega⟩
    · exact iff_of_true (Nat.succ_pos need) ⟨0, Nat.succ_pos need, by simpa using hk⟩

/-- the allocations tried: those that succeed and the one that fails -/
def nodesTried (mem : ℕ → Bool) (need k : ℕ) : ℕ := min need (nodesMade mem need k + 1)

theorem nodesTried_succ (need k : ℕ) :
    nodesTried mem (need + 1) k = if mem k then nodesTried mem need (k + 1) + 1 else 1 := by
  unfold nodesTried
  rw [nodesMade]
  split_ifs
  · exact Nat.add_min_add_right _ _ 1
  · exact Nat.min_eq_right (Nat.le_add_left 1 need)

/-! ## What each of the two leaves -/

/-- the node that a walk with `need` missing nodes returns -/
def nodeFound (mem : ℕ → Bool) (need k n : ℕ) : Option ℕ := if nodesMade mem need k = need then some n else none

theorem nodeFound_succ (need k n : ℕ) :
    nodeFound mem (need + 1) k n = if mem k then nodeFound mem need (k + 1) n else none := by
  unfold nodeFound
  rw [nodesMade]
  split_ifs with hk h1 h2 h2
  · rfl
  · exact absurd (Nat.succ.inj h1) h2
  · exact absurd (congrArg (· + 1) h2) h1
  · rfl
  · omega
  · rfl

theorem extend_succ (xs : List Qset) (r : ℕ) :
    (xs ++ [⟨none⟩]) ++ List.replicate r ⟨none⟩ = xs ++ List.replicate (r + 1) (⟨none⟩ : Qset) := by
  rw [List.append_assoc, List.singleton_append, List.replicate_succ]

/-- **The C loop** from a node of the list: the missing nodes are made one by one. -/
theorem scullFollowLoop_eq (n : ℕ) (data : List Qset) (qs k : ℕ) (hqs : qs < data.length) :
    scullFollowLoop mem n data qs k = ⟨data ++ List.replicate (nodesMade mem (qs + n + 1 - data.length) k) ⟨none⟩,
      nodeFound mem (qs + n + 1 - data.length) k (qs + n), k + nodesTried mem (qs + n + 1 - data.length) k⟩ := by
  induction n generalizing data qs k with
  | zero =>
    have hneed : qs + 0 + 1 - data.length = 0 := by omega
    rw [hneed]
    simp [scullFollowLoop, nodesMade, nodeFound, nodesTried]
  | succ n ih =>
    rw [scullFollowLoop]
    by_cases hnext : qs + 1 < data.length
    · rw [if_pos hnext, ih data (qs + 1) k hnext]
      have hidx : qs + 1 + n = qs + (n + 1) := by omega
      rw [hidx]
    · rw [if_neg hnext]
      obtain ⟨need, hneed⟩ : ∃ need, qs + (n + 1) + 1 - data.length = need + 1 := ⟨n, by omega⟩
      rw [hneed, nodesTried_succ, nodeFound_succ, nodesMade]
      by_cases hk : mem k = true
      · have hlen : (data ++ [(⟨none⟩ : Qset)]).length = data.length + 1 := by simp
        have hrest : qs + 1 + n + 1 - (data ++ [(⟨none⟩ : Qset)]).length = need := by omega
        have hidx : qs + 1 + n = qs + (n + 1) := by omega
        simp only [if_pos hk]
        rw [ih _ (qs + 1) (k + 1) (by omega), hrest, hidx, extend_succ]
        simp only [FollowedC.mk.injEq, true_and]
        omega
      · simp only [if_neg hk]
        simp

/-- **The C function.** -/
theorem scullFollow_eq (data : List Qset) (n k : ℕ) (hn : (n : ℤ) ≤ INT_MAX) :
    scullFollow mem data n k = ⟨data ++ List.replicate (nodesMade mem (n + 1 - data.length) k) ⟨none⟩,
      nodeFound mem (n + 1 - data.length) k n, k + nodesTried mem (n + 1 - data.length) k⟩ := by
  have hcount : ((n : ℤ) % 2 ^ 32).toNat = n := by unfold INT_MAX at hn; omega
  cases data with
  | cons x data =>
    simp only [scullFollow]
    rw [hcount, scullFollowLoop_eq n _ 0 k (by simp), Nat.zero_add]
  | nil =>
    simp only [scullFollow, List.length_nil, Nat.sub_zero]
    rw [hcount, nodesTried_succ, nodeFound_succ, nodesMade]
    by_cases hk : mem k = true
    · simp only [if_pos hk]
      rw [scullFollowLoop_eq n _ 0 (k + 1) (by simp)]
      simp only [List.length_singleton, Nat.zero_add, Nat.add_sub_cancel, FollowedC.mk.injEq, true_and]
      refine ⟨?_, by omega⟩
      exact extend_succ [] _
    · simp only [if_neg hk]
      simp

theorem qsetlstMakeLoop_eq (i0 : ℕ) (res : List Qset) (lnRes : ℤ) (k : ℕ) (h0 : 0 ≤ lnRes)
    (hmax : lnRes + i0 ≤ INT_MAX) :
    qsetlstMakeLoop mem i0 res lnRes k = (List.replicate (nodesMade mem i0 k) ⟨none⟩ ++ res,
      lnRes + nodesMade mem i0 k, k + nodesTried mem i0 k) := by
  induction i0 generalizing res lnRes k with
  | zero => simp [qsetlstMakeLoop, nodesMade, nodesTried]
  | succ i0 ih =>
    rw [qsetlstMakeLoop, nodesTried_succ, nodesMade]
    push_cast at hmax
    by_cases hk : mem k = true
    · have hw : int32 (lnRes + 1) = lnRes + 1 := int32_of_bounds (by omega) (by unfold INT_MAX at hmax; omega)
      simp only [if_pos hk]
      rw [hw, ih (⟨none⟩ :: res) (lnRes + 1) (k + 1) (by omega) (by omega), List.replicate_succ', List.append_assoc]
      simp only [List.singleton_append, Prod.mk.injEq, true_and]
      push_cast
      omega
    · simp only [if_neg hk]
      simp

theorem qsetlstMake_eq (need k : ℕ) (hneed : (need : ℤ) ≤ INT_MAX) :
    qsetlstMake mem need k =
      (List.replicate (nodesMade mem need k) ⟨none⟩, (nodesMade mem need k : ℤ), k + nodesTried mem need k) := by
  unfold qsetlstMake
  rw [Int.toNat_natCast, qsetlstMakeLoop_eq need [] 0 k le_rfl (by omega), List.append_nil, Int.zero_add]

/-- **The ATS function**, when the number of missing nodes is an `int`. Only the sum put in `ln_qlst` can wrap. -/
theorem scullFollowMain_eq (xs : List Qset) (n k : ℕ) (hlen : (xs.length : ℤ) ≤ INT_MAX) (hn : (n : ℤ) ≤ INT_MAX)
    (hneed : ((n + 1 - xs.length : ℕ) : ℤ) ≤ INT_MAX) :
    scullFollowMain mem xs xs.length n k =
      .ok ⟨xs ++ List.replicate (nodesMade mem (n + 1 - xs.length) k) ⟨none⟩,
        int32 (xs.length + nodesMade mem (n + 1 - xs.length) k), nodeFound mem (n + 1 - xs.length) k n,
        k + nodesTried mem (n + 1 - xs.length) k⟩ := by
  unfold scullFollowMain
  by_cases hlt : n < xs.length
  · have hzero : n + 1 - xs.length = 0 := by omega
    have hself : int32 (xs.length : ℤ) = xs.length := int32_of_bounds (by omega) (by unfold INT_MAX at hlen; omega)
    rw [if_pos (by omega), scullFollowLessthan_ok hlt hn, hzero]
    simp [nodesMade, nodeFound, nodesTried, hself, bind, Except.bind]
  · obtain ⟨df, hdf⟩ : ∃ df, n = xs.length + df := ⟨n - xs.length, by omega⟩
    have hmissing : n + 1 - xs.length = df + 1 := by omega
    rw [hmissing] at hneed ⊢
    have hdf1 : int32 ((n : ℤ) - xs.length) = df := by
      rw [int32_of_bounds (by omega) (by unfold INT_MAX at hn; omega)]; omega
    have hdf2 : int32 ((df : ℤ) + 1) = ((df + 1 : ℕ) : ℤ) := by
      rw [int32_of_bounds (by omega) (by unfold INT_MAX at hneed; omega)]; rfl
    rw [if_neg (by omega)]
    simp only [hdf1, hdf2, qsetlstMake_eq (df + 1) k hneed]
    have hle : nodesMade mem (df + 1) k ≤ df + 1 := nodesMade_le (df + 1) k
    by_cases hall : nodesMade mem (df + 1) k = df + 1
    · have hin : df < (List.replicate (df + 1) (⟨none⟩ : Qset)).length := by simp
      have hfound : nodeFound mem (df + 1) k n = some n := if_pos hall
      rw [hall, if_pos (by push_cast; omega), scullFollowLessthan_ok hin (by omega), hfound, hdf]
      rfl
    · have hfound : nodeFound mem (df + 1) k n = none := if_neg hall
      rw [if_neg (by omega), hfound]

/-! ## Refinement -/

/-- the two return the node in the same cases -/
theorem nodeFound_cases {xs : List Qset} (n k : ℕ) :
    nodeFound mem (n + 1 - xs.length) k n = some n ∧
        n < (xs ++ List.replicate (nodesMade mem (n + 1 - xs.length) k) (⟨none⟩ : Qset)).length ∨
      nodeFound mem (n + 1 - xs.length) k n = none := by
  unfold nodeFound
  split_ifs with hall
  · refine Or.inl ⟨rfl, ?_⟩
    rw [List.length_append, List.length_replicate, hall]
    omega
  · exact Or.inr rfl

/-- when the number of missing nodes is an `int`, the two can only differ in `ln_qlst` -/
theorem refines_iff_ln0 {xs : List Qset} {n k : ℕ} (hlen : (xs.length : ℤ) ≤ INT_MAX) (hn : (n : ℤ) ≤ INT_MAX)
    (hneed : ((n + 1 - xs.length : ℕ) : ℤ) ≤ INT_MAX) :
    (∃ f, scullFollowMain mem xs xs.length n k = .ok f ∧ Refines xs n f (scullFollow mem xs n k)) ↔
      int32 (xs.length + nodesMade mem (n + 1 - xs.length) k) = xs.length + nodesMade mem (n + 1 - xs.length) k := by
  rw [scullFollowMain_eq xs n k hlen hn hneed, scullFollow_eq xs n k hn]
  constructor
  · rintro ⟨f, hf, -, -, -, hln⟩
    obtain rfl := Except.ok.inj hf
    simpa only [List.length_append, List.length_replicate, Nat.cast_add] using hln
  · intro hln
    refine ⟨_, rfl, rfl, ?_, ⟨_, rfl, rfl⟩, ?_⟩
    · rcases @nodeFound_cases mem xs n k with ⟨hfound, hin⟩ | hnull
      · exact Or.inl ⟨hfound, hfound, hin⟩
      · exact Or.inr ⟨hnull, hnull⟩
    · simpa only [List.length_append, List.length_replicate, Nat.cast_add] using hln

/-- on an empty list, index `INT_MAX` makes the number of missing nodes negative: no allocation is tried -/
theorem scullFollowMain_wraps {n k : ℕ} {ln0 : ℤ} (h0 : ln0 = 0) (hn : (n : ℤ) = INT_MAX) :
    scullFollowMain mem [] ln0 n k = .ok ⟨[], 0, none, k⟩ := by
  have hpos : 0 < INT_MAX := by decide
  have hdf : int32 ((n : ℤ) - ln0) = INT_MAX := by
    rw [h0, Int.sub_zero, hn]
    exact int32_of_bounds (by omega) (by unfold INT_MAX; omega)
  have hwrap : int32 (INT_MAX + 1) = - 2 ^ 31 := rfl
  have hnone : qsetlstMake mem (- 2 ^ 31) k = ([], 0, k) := by
    unfold qsetlstMake
    rw [Int.toNat_of_nonpos (by norm_num)]
    rfl
  have hsum : int32 (ln0 + 0) = 0 := by rw [h0]; rfl
  unfold scullFollowMain
  rw [if_neg (by omega)]
  simp only [hdf, hwrap, hnone, hsum, List.append_nil]
  rw [if_neg (by omega)]

theorem not_refines_empty {n k : ℕ} (hn : (n : ℤ) = INT_MAX) :
    ¬ ∃ f, scullFollowMain mem [] 0 n k = .ok f ∧ Refines [] n f (scullFollow mem [] n k) := by
  rintro ⟨f, hf, hr⟩
  rw [scullFollowMain_wraps rfl hn] at hf
  obtain rfl := Except.ok.inj hf
  have hk := hr.k
  rw [scullFollow_eq [] n k hn.le, List.length_nil, Nat.sub_zero] at hk
  have htried : 1 ≤ nodesTried mem (n + 1) k := le_min (Nat.le_add_left 1 n) (Nat.le_add_left 1 _)
  have : k = k + nodesTried mem (n + 1) k := hk
  omega

/-- **The ATS extension refines the C loop** if and only if the index is below `INT_MAX`, or it is `INT_MAX`, the list is
not empty and an allocation fails. -/
theorem scullFollowMain_refines (mem : ℕ → Bool) (xs : List Qset) (n k : ℕ) (hlen : (xs.length : ℤ) ≤ INT_MAX)
    (hn : (n : ℤ) ≤ INT_MAX) :
    (∃ f, scullFollowMain mem xs xs.length n k = .ok f ∧ Refines xs n f (scullFollow mem xs n k)) ↔
      (n : ℤ) < INT_MAX ∨ xs ≠ [] ∧ ∃ i < n + 1 - xs.length, mem (k + i) = false := by
  have hmade : nodesMade mem (n + 1 - xs.length) k ≤ n + 1 - xs.length := nodesMade_le _ k
  rcases lt_or_eq_of_le hn with hlt | heq
  · refine iff_of_true ?_ (Or.inl hlt)
    rw [refines_iff_ln0 hlen hn (by omega)]
    exact int32_of_bounds (by omega) (by unfold INT_MAX at hlt hlen; omega)
  · rw [or_iff_right (by omega)]
    cases xs with
    | nil => exact iff_of_false (not_refines_empty heq) fun h => h.1 rfl
    | cons x xs =>
      have hpos : 0 < (x :: xs).length := Nat.succ_pos _
      rw [refines_iff_ln0 hlen hn (by omega), ← nodesMade_lt_iff]
      generalize (x :: xs).length = len at *
      unfold INT_MAX at heq hlen
      constructor
      · intro hln
        refine ⟨List.cons_ne_nil x xs, ?_⟩
        -- the length fits an `int`, so at least one of the missing nodes is missing still
        have hfits := (int32_bounds ((len : ℤ) + nodesMade mem (n + 1 - len) k)).2
        rw [hln] at hfits
        omega
      · rintro ⟨-, hfail⟩
        exact int32_of_bounds (by omega) (by omega)

theorem scullFollowMain_refines_two :
    ∃ f, scullFollowMain (fun _ => true) [⟨none⟩] 1 2 0 = .ok f ∧
      Refines [⟨none⟩] 2 f (scullFollow (fun _ => true) [⟨none⟩] 2 0) :=
  (scullFollowMain_refines (fun _ => true) [⟨none⟩] 2 0 (by decide) (by decide)).2 (Or.inl (by decide))

/-- on an empty list with memory for every node, the C loop returns the node at `INT_MAX` and the ATS function NULL -/
theorem scullFollowMain_not_refines :
    ¬ ∃ f, scullFollowMain (fun _ => true) [] 0 2147483647 0 = .ok f ∧
      Refines [] 2147483647 f (scullFollow (fun _ => true) [] 2147483647 0) :=
  @not_refines_empty (fun _ => true) 2147483647 0 rfl

end

end AtsLdd.Scull
