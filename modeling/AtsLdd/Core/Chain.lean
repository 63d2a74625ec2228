/-
Chains of a successor function.

`nth next a k` is the element at index `k` of the chain that starts at `a`, if the chain is that long.
- `nth_succ`, `nth_add`: an index is reached from the head, or from any element before it;
- `nth_congr`: two successor functions that agree on the elements before an index give the same chain up to it;
- `nth_mono`: an index before one that is reached is reached;
- `exists_front`, `nth_of_isChain`: the elements up to an index as a list, and back;
- `Cyclic.nth_ne_none`: a chain that comes back to an element has an element at every index.
-/
import Mathlib.Tactic

namespace AtsLdd.Chain

variable {α : Type*}

/-- the element at index `k` of the chain from `a` -/
def nth (next : α → Option α) (a : α) : ℕ → Option α
  | 0 => some a
  | k + 1 => (nth next a k).bind next

@[simp] theorem nth_zero (next : α → Option α) (a : α) : nth next a 0 = some a := rfl

theorem nth_succ (next : α → Option α) (a : α) (k : ℕ) : nth next a (k + 1) = (nth next a k).bind next := rfl

theorem nth_add (next : α → Option α) (a : α) (i j : ℕ) :
    nth next a (i + j) = (nth next a i).bind fun b => nth next b j := by
  induction j with
  | zero => cases nth next a i <;> rfl
  | succ j ih =>
    rw [← Nat.add_assoc, nth_succ, ih, Option.bind_assoc]
    rfl

/-- one step from the head -/
theorem nth_head (next : α → Option α) (a : α) (k : ℕ) : nth next a (k + 1) = (next a).bind fun b => nth next b k := by
  rw [Nat.add_comm, nth_add]
  rfl

theorem nth_mono {next : α → Option α} {a : α} {i k : ℕ} (h : i ≤ k) (hk : nth next a k ≠ none) :
    nth next a i ≠ none := by
  intro hi
  obtain ⟨j, rfl⟩ := Nat.exists_eq_add_of_le h
  rw [nth_add, hi] at hk
  exact hk rfl

/-- the elements before an index that is reached -/
theorem exists_front {next : α → Option α} {k : ℕ} : ∀ {a b : α}, nth next a k = some b →
    ∃ front : List α, front.length = k ∧ (front ++ [b]).head? = some a ∧
      (front ++ [b]).IsChain fun c d => next c = some d := by
  induction k with
  | zero =>
    intro a b h
    exact ⟨[], rfl, congrArg some (Option.some.inj h).symm, List.isChain_singleton _⟩
  | succ k ih =>
    intro a b h
    rw [nth_head] at h
    obtain ⟨c, hc, hb⟩ := Option.bind_eq_some_iff.1 h
    obtain ⟨front, hlen, hhead, hchain⟩ := ih hb
    refine ⟨a :: front, by rw [List.length_cons, hlen], rfl, ?_⟩
    rw [List.cons_append]
    refine List.isChain_cons.2 ⟨fun d hd => ?_, hchain⟩
    rw [hhead] at hd
    rwa [← Option.some.inj hd]

/-- a list of elements, each the successor of the one before, is the chain of its head -/
theorem nth_of_isChain {next : α → Option α} {k : ℕ} : ∀ {a b : α} {xs : List α}, xs.head? = some a →
    xs.IsChain (fun c d => next c = some d) → xs[k]? = some b → nth next a k = some b := by
  induction k with
  | zero =>
    intro a b xs hhead _ hget
    rw [List.head?_eq_getElem?, hget] at hhead
    exact hhead.symm
  | succ k ih =>
    intro a b xs hhead hchain hget
    cases xs with
    | nil => exact absurd hhead (by simp)
    | cons x xs =>
      obtain rfl : x = a := Option.some.inj hhead
      cases xs with
      | nil => exact absurd hget (by simp)
      | cons y ys =>
        obtain ⟨hxy, hys⟩ := List.isChain_cons_cons.1 hchain
        rw [nth_head, hxy]
        exact ih rfl hys hget

/-- the chain comes back to an element -/
def Cyclic (next : α → Option α) (a : α) : Prop := ∃ i j b, i < j ∧ nth next a i = some b ∧ nth next a j = some b

/-- **A cyclic chain never ends.** -/
theorem Cyclic.nth_ne_none {next : α → Option α} {a : α} (h : Cyclic next a) (k : ℕ) : nth next a k ≠ none := by
  obtain ⟨i, j, b, hij, hi, hj⟩ := h
  obtain ⟨p, rfl⟩ := Nat.exists_eq_add_of_lt hij
  have hround : nth next b (p + 1) = some b := by
    rw [Nat.add_assoc, nth_add, hi] at hj
    exact hj
  have hrounds : ∀ n, nth next b ((p + 1) * n) = some b := by
    intro n
    induction n with
    | zero => rfl
    | succ n ih =>
      rw [Nat.mul_succ, nth_add, ih]
      exact hround
  have hfar : nth next a (i + (p + 1) * k) ≠ none := by
    rw [nth_add, hi, Option.bind_some, hrounds k]
    exact Option.some_ne_none b
  refine nth_mono ?_ hfar
  exact le_trans (Nat.le_mul_of_pos_left k (Nat.succ_pos p)) (Nat.le_add_left _ _)

/-- the chain up to index `k` depends on the successors of the elements before it only -/
theorem nth_congr {next next' : α → Option α} {a : α} {k : ℕ}
    (h : ∀ i, i < k → ∀ b, nth next a i = some b → next' b = next b) : ∀ i, i ≤ k → nth next' a i = nth next a i := by
  intro i hi
  induction i with
  | zero => rfl
  | succ i ih =>
    rw [nth_succ, nth_succ, ih (by omega)]
    cases hb : nth next a i with
    | none => rfl
    | some b => exact h i (by omega) b hb

end AtsLdd.Chain
