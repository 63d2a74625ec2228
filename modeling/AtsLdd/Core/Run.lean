/-
Runs of a deterministic step function, with the two induction rules that the rest of the development uses.

`Meets step ok s ops` says that along the run of `ops` from `s` every step satisfies `ok` in the state before it. It is
used on both sides of a run theorem: as the condition under which the run takes place, and as the property that every
step of the run is shown to have.
- `run_inv`, `run_keeps`: what one step preserves, a whole run preserves;
- `meets_of_inv`: a property that the invariant gives for one step holds at every step of the run;
- `meets_iff`: two properties of a step that the invariant makes the same hold along the same runs;
- `Meets.mono`, `meets_append`, `Meets.at`: weakening, splitting a run, and reading off one step of it.

For steps that also answer (`step : S → O → S × R`), `trace` pairs every operation of a run with its answer, `Accepts` is
the traces of an abstract, possibly nondeterministic machine, and `trace_accepted` and `trace_simulated` are the refinement
rules between them, by a function and by a relation.
-/
import Mathlib.Tactic

namespace AtsLdd.Run

variable {S O R : Type*}

/-! ## Total steps -/

/-- the state after the operations `ops` -/
def run (step : S → O → S) (s : S) (ops : List O) : S := ops.foldl step s

@[simp] theorem run_nil (step : S → O → S) (s : S) : run step s [] = s := rfl

@[simp] theorem run_cons (step : S → O → S) (s : S) (o : O) (ops : List O) :
    run step s (o :: ops) = run step (step s o) ops := rfl

theorem run_append (step : S → O → S) (s : S) (a b : List O) :
    run step s (a ++ b) = run step (run step s a) b := by
  simp [run, List.foldl_append]

/-- every step of the run of `ops` from `s` satisfies `ok` in the state before it -/
def Meets (step : S → O → S) (ok : S → O → Prop) : S → List O → Prop
  | _, [] => True
  | s, o :: ops => ok s o ∧ Meets step ok (step s o) ops

theorem meets_append {step : S → O → S} {ok : S → O → Prop} {s : S} {a b : List O} :
    Meets step ok s (a ++ b) ↔ Meets step ok s a ∧ Meets step ok (run step s a) b := by
  induction a generalizing s with
  | nil => simp [Meets]
  | cons o a ih => simp only [List.cons_append, Meets, run_cons, ih, and_assoc]

/-- the step taken after the prefix `a` of the run -/
theorem Meets.at {step : S → O → S} {ok : S → O → Prop} {s : S} {a b : List O} {o : O}
    (h : Meets step ok s (a ++ o :: b)) : ok (run step s a) o :=
  (meets_append.1 h).2.1

theorem Meets.mono {step : S → O → S} {ok ok' : S → O → Prop} {s : S} {ops : List O}
    (himp : ∀ s o, ok s o → ok' s o) (h : Meets step ok s ops) : Meets step ok' s ops := by
  induction ops generalizing s with
  | nil => trivial
  | cons o ops ih => exact ⟨himp s o h.1, ih h.2⟩

theorem Meets.and {step : S → O → S} {ok ok' : S → O → Prop} {s : S} {ops : List O} (h : Meets step ok s ops)
    (h' : Meets step ok' s ops) : Meets step (fun s o => ok s o ∧ ok' s o) s ops := by
  induction ops generalizing s with
  | nil => trivial
  | cons o ops ih => exact ⟨⟨h.1, h'.1⟩, ih h.2 h'.2⟩

/-- a condition on the operations alone -/
theorem meets_of_forall {step : S → O → S} {P : O → Prop} {s : S} {ops : List O} (h : ∀ o ∈ ops, P o) :
    Meets step (fun _ o => P o) s ops := by
  induction ops generalizing s with
  | nil => trivial
  | cons o ops ih =>
    obtain ⟨ho, hops⟩ := List.forall_mem_cons.1 h
    exact ⟨ho, ih hops⟩

/-- **Invariant rule.** An invariant that every allowed step preserves holds after every run of allowed steps. -/
theorem run_inv {step : S → O → S} {ok : S → O → Prop} {Inv : S → Prop}
    (hstep : ∀ s o, Inv s → ok s o → Inv (step s o)) {s : S} {ops : List O} (hs : Inv s)
    (h : Meets step ok s ops) : Inv (run step s ops) := by
  induction ops generalizing s with
  | nil => exact hs
  | cons o ops ih => exact ih (hstep s o hs h.1) h.2

/-- an invariant that every step preserves -/
theorem run_keeps {step : S → O → S} {Inv : S → Prop} (hstep : ∀ s o, Inv s → Inv (step s o)) {s : S} (hs : Inv s)
    (ops : List O) : Inv (run step s ops) := by
  induction ops generalizing s with
  | nil => exact hs
  | cons o ops ih => exact ih (hstep s o hs)

/-- **Safety rule.** What the invariant gives for one allowed step holds at every step of a run of allowed steps. -/
theorem meets_of_inv {step : S → O → S} {ok good : S → O → Prop} {Inv : S → Prop}
    (hstep : ∀ s o, Inv s → ok s o → Inv (step s o)) (hgood : ∀ s o, Inv s → ok s o → good s o)
    {s : S} {ops : List O} (hs : Inv s) (h : Meets step ok s ops) : Meets step good s ops := by
  induction ops generalizing s with
  | nil => trivial
  | cons o ops ih => exact ⟨hgood s o hs h.1, ih (hstep s o hs h.1) h.2⟩

/-- two properties of a step that the invariant makes the same, along a run -/
theorem meets_iff {step : S → O → S} {ok ok' : S → O → Prop} {Inv : S → Prop} (hstep : ∀ s o, Inv s → Inv (step s o))
    (hiff : ∀ s o, Inv s → (ok s o ↔ ok' s o)) {s : S} (hs : Inv s) {ops : List O} :
    Meets step ok s ops ↔ Meets step ok' s ops := by
  induction ops generalizing s with
  | nil => exact Iff.rfl
  | cons o ops ih => exact and_congr (hiff s o hs) (ih (hstep s o hs))

/-! ## Steps that answer -/

/-- the state part of a step that also answers -/
def next (step : S → O → S × R) (s : S) (o : O) : S := (step s o).1

/-- the operations of a run, each with its answer -/
def trace (step : S → O → S × R) : S → List O → List (O × R)
  | _, [] => []
  | s, o :: ops => (o, (step s o).2) :: trace step (step s o).1 ops

theorem trace_fst (step : S → O → S × R) (s : S) (ops : List O) : (trace step s ops).map Prod.fst = ops := by
  induction ops generalizing s with
  | nil => rfl
  | cons o ops ih => rw [trace, List.map_cons, ih]

/-- the traces of the abstract machine `spec` that lead from `σ` to `τ` -/
def Accepts {A : Type*} (spec : A → O → R → A → Prop) : A → List (O × R) → A → Prop
  | σ, [], τ => σ = τ
  | σ, e :: es, τ => ∃ ρ, spec σ e.1 e.2 ρ ∧ Accepts spec ρ es τ

/-- **Refinement rule.** If every allowed step, seen through `abs`, is a step of the abstract machine with the same
answer, then the trace of every run of allowed steps is a trace of the abstract machine. -/
theorem trace_accepted {A : Type*} {step : S → O → S × R} {ok : S → O → Prop} {Inv : S → Prop} {abs : S → A}
    {spec : A → O → R → A → Prop} (hstep : ∀ s o, Inv s → ok s o → Inv (next step s o))
    (hsim : ∀ s o, Inv s → ok s o → spec (abs s) o (step s o).2 (abs (next step s o)))
    {s : S} {ops : List O} (hs : Inv s) (h : Meets (next step) ok s ops) :
    Accepts spec (abs s) (trace step s ops) (abs (run (next step) s ops)) := by
  induction ops generalizing s with
  | nil => rfl
  | cons o ops ih => exact ⟨_, hsim s o hs h.1, ih (hstep s o hs h.1) h.2⟩

/-- **Simulation rule.** If every allowed step from related states is matched by a step of the abstract machine with the
same answer, to related states, then the trace of every run of allowed steps is a trace of the abstract machine. -/
theorem trace_simulated {A : Type*} {step : S → O → S × R} {ok : S → O → Prop} {Rel : S → A → Prop}
    {spec : A → O → R → A → Prop}
    (hsim : ∀ s a o, Rel s a → ok s o → ∃ a', spec a o (step s o).2 a' ∧ Rel (next step s o) a')
    {s : S} {a : A} {ops : List O} (hs : Rel s a) (h : Meets (next step) ok s ops) :
    ∃ a', Accepts spec a (trace step s ops) a' ∧ Rel (run (next step) s ops) a' := by
  induction ops generalizing s a with
  | nil => exact ⟨a, rfl, hs⟩
  | cons o ops ih =>
    obtain ⟨ρ, hspec, hrel⟩ := hsim s a o hs h.1
    obtain ⟨a', hacc, hrel'⟩ := ih hrel h.2
    exact ⟨a', ⟨ρ, hspec, hacc⟩, hrel'⟩

/-- what every step of the abstract machine keeps, its traces keep -/
theorem Accepts.keeps {A : Type*} {spec : A → O → R → A → Prop} {P : A → Prop} {ok : O → Prop}
    (hstep : ∀ σ o r τ, spec σ o r τ → ok o → P σ → P τ) {σ τ : A} {es : List (O × R)} (h : Accepts spec σ es τ)
    (hok : ∀ e ∈ es, ok e.1) (hσ : P σ) : P τ := by
  induction es generalizing σ with
  | nil => exact h ▸ hσ
  | cons e es ih =>
    obtain ⟨ρ, hspec, hacc⟩ := h
    obtain ⟨he, hes⟩ := List.forall_mem_cons.1 hok
    exact ih hacc hes (hstep σ e.1 e.2 ρ hspec he hσ)

end AtsLdd.Run
