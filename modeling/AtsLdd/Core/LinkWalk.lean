/-
Walking a table of links to an index, and stretches of the way on which the places are consecutive numbers.

- `walk_from`: a walk that begins at a place on the way ends as the whole walk does;
- `Path.walk_reached`, `Path.walk_last`: a walk along a chain, to one of its indices and beyond it;
- `Stretch.congr`, `Stretch.extend`: a stretch depends on the links before its end only, and grows by one place.
-/
import AtsLdd.Core.Chain
import AtsLdd.Core.LinkTable

namespace AtsLdd.LinkTable

open AtsLdd.Chain

variable {α : Type*} {T T' : α → Link α} {a d : α} {limit n j k : ℕ}

/-- the place that a place leads to -/
def succ (T : α → Link α) (x : α) : Option α :=
  match T x with
  | .next y => some y
  | .last => none
  | .free => none

theorem succ_eq_some {x y : α} : succ T x = some y ↔ T x = .next y := by
  unfold succ
  cases T x <;> simp

/-! ## Walks -/

/-- why a walk ended -/
inductive Stop where
  /-- at the index asked for -/
  | reached
  /-- behind the limit -/
  | long
  /-- at the last place -/
  | last
  /-- at a free place -/
  | free
deriving DecidableEq

/-- `m` more steps from place `d` at index `k`; no step is made from an index behind `limit` -/
def walk (T : α → Link α) (limit : ℕ) : ℕ → ℕ → α → ℕ × α × Stop
  | 0, k, d => (k, d, .reached)
  | m + 1, k, d =>
    if limit < k then (k, d, .long)
    else
      match T d with
      | .free => (k, d, .free)
      | .last => (k, d, .last)
      | .next e => walk T limit m (k + 1) e

theorem walk_next {m : ℕ} {e : α} (hk : k ≤ limit) (h : T d = .next e) : walk T limit (m + 1) k d = walk T limit m (k + 1) e := by
  rw [walk, if_neg (not_lt.2 hk), h]

/-- **A walk that begins at a place on the way** ends as the whole walk does. -/
theorem walk_from (h : nth (succ T) a j = some d) (hn : j ≤ n) (hlim : j ≤ limit + 1) :
    walk T limit (n - j) j d = walk T limit n 0 a := by
  induction j generalizing d with
  | zero =>
    rw [nth_zero, Option.some.injEq] at h
    rw [h, Nat.sub_zero]
  | succ j ih =>
    rw [nth_succ] at h
    obtain ⟨c, hc, hnext⟩ := Option.bind_eq_some_iff.1 h
    rw [← ih hc (Nat.le_of_succ_le hn) (Nat.le_of_succ_le hlim), show n - j = (n - (j + 1)) + 1 by omega,
      walk_next (Nat.le_of_succ_le_succ hlim) (succ_eq_some.1 hnext)]

/-- the place at an index of a chain -/
theorem Path.nth_eq {l : List α} (p : Path T a l) : ∀ k : ℕ, nth (succ T) a k = l[k]? := by
  induction p with
  | @last a h =>
    intro k
    cases k with
    | zero => rfl
    | succ k =>
      have hend : succ T a = none := by rw [succ, h]
      rw [nth_head, hend]
      rfl
  | @next a b l h p ih =>
    intro k
    cases k with
    | zero => rfl
    | succ k =>
      rw [nth_head, succ_eq_some.2 h, Option.bind_some, ih k]
      rfl

/-- a walk along a chain, to one of its indices -/
theorem Path.walk_reached {l : List α} (p : Path T a l) (hn : n < l.length) (hlim : n ≤ limit + 1) :
    walk T limit n 0 a = (n, l[n], .reached) := by
  have hat : nth (succ T) a n = some (l[n]) := (p.nth_eq n).trans (List.getElem?_eq_getElem hn)
  rw [← walk_from hat le_rfl hlim, Nat.sub_self]
  rfl

/-- a walk along a chain, to an index behind it -/
theorem Path.walk_last {l : List α} (p : Path T a l) (hn : l.length ≤ n) (hlim : l.length ≤ limit + 1) :
    walk T limit n 0 a = (l.length - 1, l.getLast p.ne_nil, .last) := by
  have hpos := List.length_pos_of_ne_nil p.ne_nil
  have hat : nth (succ T) a (l.length - 1) = some (l.getLast p.ne_nil) := by
    rw [p.nth_eq, List.getLast_eq_getElem]
    exact List.getElem?_eq_getElem _
  rw [← walk_from hat (by omega) (by omega), show n - (l.length - 1) = (n - l.length) + 1 by omega, walk,
    if_neg (by omega), p.getLast]

/-! ## Stretches -/

/-- from index `k` on the way from `a`, `n + 1` places are the numbers from `d` on -/
def Stretch (T : ℤ → Link ℤ) (a : ℤ) (k n : ℕ) (d : ℤ) : Prop := ∀ j ≤ n, nth (succ T) a (k + j) = some (d + j)

section
variable {T T' : ℤ → Link ℤ} {a d : ℤ} {k n : ℕ}

theorem Stretch.single (h : nth (succ T) a k = some d) : Stretch T a k 0 d := by
  intro j hj
  obtain rfl := Nat.le_zero.1 hj
  rw [Nat.add_zero, Nat.cast_zero, add_zero]
  exact h

/-- one more place, behind the end -/
theorem Stretch.extend (h : Stretch T a k n d) (hnext : nth (succ T) a (k + (n + 1)) = some (d + (n + 1 : ℕ))) :
    Stretch T a k (n + 1) d := by
  intro j hj
  rcases Nat.le_succ_iff.1 hj with hj | rfl
  · exact h j hj
  · exact hnext

/-- two stretches from one index begin at the same place -/
theorem Stretch.head_eq {n' : ℕ} {d' : ℤ} (h : Stretch T a k n d) (h' : Stretch T a k n' d') : d = d' := by
  have h1 := h 0 (Nat.zero_le _)
  have h2 := h' 0 (Nat.zero_le _)
  rw [h1, Option.some.injEq, Nat.cast_zero, add_zero, add_zero] at h2
  exact h2

/-- **A stretch depends on the links before its end only.** -/
theorem Stretch.congr (h : Stretch T a k n d)
    (hT : ∀ i < k + n, ∀ x y, nth (succ T) a i = some x → T x = .next y → T' x = .next y) : Stretch T' a k n d := by
  intro j hj
  have hsome : nth (succ T) a (k + n) ≠ none := by
    rw [h n le_rfl]
    exact Option.some_ne_none _
  rw [← h j hj]
  apply nth_congr (k := k + n) _ _ (Nat.add_le_add_left hj k)
  intro i hi x hx
  cases hnext : succ T x with
  | none =>
    have hend : nth (succ T) a (i + 1) = none := by rw [nth_succ, hx, Option.bind_some, hnext]
    exact absurd hend (nth_mono hi hsome)
  | some y => exact succ_eq_some.2 (hT i hi x y hx (succ_eq_some.1 hnext))

end

end AtsLdd.LinkTable
