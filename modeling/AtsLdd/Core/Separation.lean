/-
Separation: a machine that several users share, seen by one of them as a machine of his own.

`Separates step own mine view Inv` says that through `view` every operation of the user is one of the machine `own`, with
the same answer, and every other operation is none. It is stated for one step, under an invariant of the shared machine.

- `Separates.trace_filter`: the answers that the user gets in a run are those of his own machine;
- `Separates.noninterference`: they are the same in the run without the operations of the others.
-/
import AtsLdd.Core.Run

namespace AtsLdd.Separation

open AtsLdd.Run

variable {S O R V : Type*}

/-- seen through `view`, the operations `mine` are those of the machine `own`, and no others are seen -/
structure Separates (step : S → O → S × R) (own : V → O → V × R) (mine : O → Bool) (view : S → V)
    (Inv : S → Prop) : Prop where
  inv : ∀ s o, Inv s → Inv (next step s o)
  answer : ∀ s o, Inv s → mine o = true → (step s o).2 = (own (view s) o).2
  seen : ∀ s o, Inv s → mine o = true → view (next step s o) = next own (view s) o
  unseen : ∀ s o, Inv s → mine o = false → view (next step s o) = view s

section
variable {step : S → O → S × R} {own : V → O → V × R} {mine : O → Bool} {view : S → V} {Inv : S → Prop}

/-- **The user's own machine.** The user's part of a trace is the trace of his own machine. -/
theorem Separates.trace_filter (h : Separates step own mine view Inv) (ops : List O) {s : S} (hs : Inv s) :
    (trace step s ops).filter (fun e => mine e.1) = trace own (view s) (ops.filter mine) := by
  induction ops generalizing s with
  | nil => rfl
  | cons o ops ih =>
    have hrest := ih (h.inv s o hs)
    cases ho : mine o with
    | true =>
      rw [h.seen s o hs ho] at hrest
      rw [List.filter_cons_of_pos ho, trace, trace, ← h.answer s o hs ho, List.filter_cons, if_pos ho]
      exact congrArg _ hrest
    | false =>
      rw [h.unseen s o hs ho] at hrest
      rw [List.filter_cons_of_neg (ne_true_of_eq_false ho), trace, List.filter_cons, if_neg (ne_true_of_eq_false ho)]
      exact hrest

/-- **Noninterference.** The user gets the same answers when the operations of the others are removed. -/
theorem Separates.noninterference (h : Separates step own mine view Inv) (ops : List O) {s : S} (hs : Inv s) :
    (trace step s ops).filter (fun e => mine e.1) = trace step s (ops.filter mine) := by
  have hall : ∀ e ∈ trace step s (ops.filter mine), mine e.1 = true := by
    intro e he
    have hmem : e.1 ∈ (trace step s (ops.filter mine)).map Prod.fst := List.mem_map_of_mem he
    rw [trace_fst] at hmem
    exact (List.mem_filter.1 hmem).2
  calc (trace step s ops).filter (fun e => mine e.1)
      = trace own (view s) (ops.filter mine) := h.trace_filter ops hs
    _ = trace own (view s) ((ops.filter mine).filter mine) := by rw [List.filter_filter]; simp only [Bool.and_self]
    _ = (trace step s (ops.filter mine)).filter (fun e => mine e.1) := (h.trace_filter _ hs).symm
    _ = trace step s (ops.filter mine) := List.filter_eq_self.2 hall

end

end AtsLdd.Separation
