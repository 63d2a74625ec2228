/-
Sweeps: iterators that go over the positions below a bound and pass over some of them.

`rest p n i` is what a sweep of the positions that satisfy `p` has still to yield at position `i`. `drain` calls an iterator
until it refuses.

- `rest_take`, `rest_jump`, `rest_end`: what one call does to the rest;
- `drain_sweep`: an iterator whose calls each yield the head of the rest yields all of it, in order, and then refuses.
-/
import Mathlib.Tactic

namespace AtsLdd.Sweep

/-! ## What is left -/

section
variable {p : ℕ → Bool} {n i j : ℕ}

/-- the positions from `i` on and below `n` that satisfy `p` -/
def rest (p : ℕ → Bool) (n i : ℕ) : List ℕ := (List.range' i (n - i)).filter p

theorem rest_zero (p : ℕ → Bool) (n : ℕ) : rest p n 0 = (List.range n).filter p := by
  rw [rest, Nat.sub_zero, List.range_eq_range']

theorem rest_end (p : ℕ → Bool) (h : n ≤ i) : rest p n i = [] := by
  rw [rest, Nat.sub_eq_zero_of_le h]
  rfl

theorem rest_succ (h : i < n) : rest p n i = if p i then i :: rest p n (i + 1) else rest p n (i + 1) := by
  have hlen : n - i = n - (i + 1) + 1 := by omega
  unfold rest
  rw [hlen, List.range'_succ, List.filter_cons]

theorem rest_take (h : i < n) (hp : p i = true) : rest p n i = i :: rest p n (i + 1) := by
  rw [rest_succ h, if_pos hp]

/-- positions that do not count are passed over -/
theorem rest_jump (h : i ≤ j) (hp : ∀ k, i ≤ k → k < j → k < n → p k = false) : rest p n i = rest p n j := by
  induction j, h using Nat.le_induction with
  | base => rfl
  | succ j hij ih =>
    rw [ih fun k hik hkj hkn => hp k hik (Nat.lt_succ_of_lt hkj) hkn]
    rcases lt_or_ge j n with hj | hj
    · rw [rest_succ hj, if_neg (by rw [hp j hij (Nat.lt_succ_self j) hj]; exact Bool.false_ne_true)]
    · rw [rest_end p hj, rest_end p (Nat.le_succ_of_le hj)]

theorem rest_length (p : ℕ → Bool) (n i : ℕ) : (rest p n i).length ≤ n - i := by
  have h := List.length_filter_le p (List.range' i (n - i))
  rwa [List.length_range'] at h

end

/-! ## Calling an iterator -/

section
variable {σ : Type*} {next : σ → Bool × σ}

/-- the states that calls leave one after the other, and the state that the call that refuses leaves -/
def drain (next : σ → Bool × σ) : ℕ → σ → Option (List σ × σ)
  | 0, _ => none
  | fuel + 1, s =>
    match next s with
    | (false, s) => some ([], s)
    | (true, s) => (drain next fuel s).map fun r => (s :: r.1, r.2)

/-- a call at position `i` yields the head of the rest, or refuses behind the last one -/
inductive Yields (p : ℕ → Bool) (n : ℕ) (Inv : ℕ → σ → Prop) (At : ℕ → σ → Prop) (Done : σ → Prop) (i : ℕ) (r : Bool × σ) :
    Prop
  | entry {j : ℕ} : r.1 = true → rest p n i = j :: rest p n (j + 1) → At j r.2 → Inv (j + 1) r.2 → Yields p n Inv At Done i r
  | refused : r.1 = false → rest p n i = [] → Done r.2 → Yields p n Inv At Done i r

/-- **Sweep rule.** An iterator whose calls each yield the head of the rest yields the whole rest, and then refuses. -/
theorem drain_sweep {p : ℕ → Bool} {n : ℕ} {Inv At : ℕ → σ → Prop} {Done : σ → Prop}
    (hcall : ∀ i s, Inv i s → Yields p n Inv At Done i (next s)) (fuel : ℕ) : ∀ {i : ℕ} {s : σ}, Inv i s →
    (rest p n i).length < fuel → ∃ ss t, drain next fuel s = some (ss, t) ∧ List.Forall₂ At (rest p n i) ss ∧ Done t := by
  induction fuel with
  | zero => exact fun _ h => absurd h (Nat.not_lt_zero _)
  | succ fuel ih =>
    intro i s hs hfuel
    have hdrain : drain next (fuel + 1) s = match next s with
      | (false, s) => some ([], s)
      | (true, s) => (drain next fuel s).map fun r => (s :: r.1, r.2) := rfl
    have hy := hcall i s hs
    rcases hr : next s with ⟨ok, s'⟩
    rw [hdrain, hr]
    rw [hr] at hy
    cases hy with
    | entry hok hrest hat hinv =>
      obtain rfl : ok = true := hok
      rw [hrest, List.length_cons] at hfuel
      obtain ⟨ss, t, hd, hall, hdone⟩ := ih hinv (Nat.lt_of_succ_lt_succ hfuel)
      refine ⟨s' :: ss, t, ?_, ?_, hdone⟩
      · simp only [hd, Option.map_some]
      · rw [hrest]
        exact .cons hat hall
    | refused hok hrest hdone =>
      obtain rfl : ok = false := hok
      refine ⟨[], s', rfl, ?_, hdone⟩
      rw [hrest]
      exact .nil

/-- every state that is left stands at a position -/
theorem at_of_mem {At : ℕ → σ → Prop} {js : List ℕ} {ss : List σ} (h : List.Forall₂ At js ss) : ∀ x ∈ ss, ∃ j, At j x := by
  induction h with
  | nil =>
    intro x hx
    exact absurd hx List.not_mem_nil
  | cons hj _ ih =>
    intro x hx
    rcases List.mem_cons.1 hx with rfl | hx
    · exact ⟨_, hj⟩
    · exact ih x hx

/-- what the positions determine of the states that are left -/
theorem map_of_forall₂ {α : Type*} {At : ℕ → σ → Prop} {f : σ → α} {g : ℕ → α} (hfg : ∀ j x, At j x → f x = g j) {js : List ℕ}
    {ss : List σ} (h : List.Forall₂ At js ss) : ss.map f = js.map g := by
  induction h with
  | nil => rfl
  | cons hj _ ih => rw [List.map_cons, List.map_cons, hfg _ _ hj, ih]

end

end AtsLdd.Sweep
