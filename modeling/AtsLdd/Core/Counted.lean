/-
Counts of references, and the references in hand.

Every key has a count, and the lowest that its count has been. `Held base held c` says that the counts are `base` plus the
keys in hand, and that none has been below `base`. A reference that is taken comes into the hand, and only one in the hand
can be given back; a call that ends with an empty hand has left the counts as they were.

- `Held.take`, `Held.takeLast`, `Held.give`, `Held.giveAll`: what the two operations do to the hand;
- `Held.of_low`: an empty hand at the start.
-/
import Mathlib.Data.Multiset.Count
import Mathlib.Tactic

namespace AtsLdd.Counted

/-- the count of each key, and the lowest it has been -/
structure Counts (K : Type*) where
  refs : K → ℤ
  low : K → ℤ

section
variable {K : Type*} [DecidableEq K]

/-- a reference is taken -/
def Counts.take (c : Counts K) (k : K) : Counts K := { c with refs := Function.update c.refs k (c.refs k + 1) }

/-- a reference is given back -/
def Counts.give (c : Counts K) (k : K) : Counts K :=
  ⟨Function.update c.refs k (c.refs k - 1), Function.update c.low k (min (c.low k) (c.refs k - 1))⟩

/-- the references in hand are those above `base`, and no count has been below it -/
structure Held (base : K → ℤ) (held : Multiset K) (c : Counts K) : Prop where
  refs : ∀ k, c.refs k = base k + held.count k
  low : ∀ k, base k ≤ c.low k

variable {base : K → ℤ} {held : Multiset K} {c : Counts K} {k : K}

/-- nothing is in hand where the lowest counts start from the counts -/
theorem Held.of_low (h : c.low = c.refs) : Held c.refs 0 c where
  refs _ := by simp
  low k := by rw [h]

/-- the key comes into the hand -/
theorem Held.take (h : Held base held c) (k : K) : Held base (k ::ₘ held) (c.take k) where
  refs j := by
    change Function.update c.refs k (c.refs k + 1) j = _
    by_cases hj : j = k
    · rw [hj, Function.update_self, Multiset.count_cons_self, h.refs k]
      push_cast
      ring
    · rw [Function.update_of_ne hj, Multiset.count_cons_of_ne hj, h.refs j]
  low := h.low

/-- the key comes at the end of a row in hand -/
theorem Held.takeLast {ks : List K} (h : Held base (ks + held) c) (k : K) : Held base ((ks ++ [k] : List K) + held) (c.take k) := by
  have htake := h.take k
  rw [← Multiset.cons_add, Multiset.cons_coe, Multiset.coe_eq_coe.2 (List.perm_append_singleton k ks).symm] at htake
  exact htake

/-- a key in hand is given back, and the count stays at `base` at least -/
theorem Held.give (h : Held base (k ::ₘ held) c) : Held base held (c.give k) := by
  have hk := h.refs k
  rw [Multiset.count_cons_self] at hk
  push_cast at hk
  constructor
  · intro j
    change Function.update c.refs k (c.refs k - 1) j = _
    by_cases hj : j = k
    · rw [hj, Function.update_self, hk]
      ring
    · rw [Function.update_of_ne hj, h.refs j, Multiset.count_cons_of_ne hj]
  · intro j
    change _ ≤ Function.update c.low k (min (c.low k) (c.refs k - 1)) j
    by_cases hj : j = k
    · have hlow := h.low k
      rw [hj, Function.update_self, hk]
      exact le_min hlow (by omega)
    · rw [Function.update_of_ne hj]
      exact h.low j

/-- a row of keys in hand is given back -/
theorem Held.giveAll {ks : List K} (h : Held base (ks + held) c) : Held base held (ks.foldl Counts.give c) := by
  induction ks generalizing c with
  | nil =>
    rw [Multiset.coe_nil, zero_add] at h
    exact h
  | cons k ks ih =>
    rw [← Multiset.cons_coe, Multiset.cons_add] at h
    exact ih h.give

end

end AtsLdd.Counted
