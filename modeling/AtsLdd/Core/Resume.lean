/-
Enumerations that are resumed: a call takes entries from a position on until one is refused, and leaves the position at which
the next call goes on.

- `Resumes`: what one call keeps to, for a row of entries `rest` behind every position;
- `Enumerates.eq_rest`: however an enumeration is split into calls, it takes the same entries.
-/
import Mathlib.Data.List.Basic

namespace AtsLdd.Resume

variable {Pos Entry : Type*}

/-- what a call leaves: the entries taken, whether one was refused, and the position -/
structure Call (Pos Entry : Type*) where
  taken : List Entry
  refused : Bool
  pos : Pos

/-- the call takes the entries behind `p`, all of them or those before the one that is refused, where the next call goes on -/
structure Resumes (Good : Pos → Prop) (rest : Pos → List Entry) (p : Pos) (c : Call Pos Entry) : Prop where
  refused : c.refused = true → Good c.pos ∧ c.taken ++ rest c.pos = rest p
  finished : c.refused = false → c.taken = rest p

/-- the entries that calls take one after the other, of which the last is not refused any -/
inductive Enumerates (call : Pos → Call Pos Entry → Prop) : Pos → List Entry → Prop
  | last {p : Pos} {c : Call Pos Entry} : call p c → c.refused = false → Enumerates call p c.taken
  | more {p : Pos} {c : Call Pos Entry} {es : List Entry} : call p c → c.refused = true → Enumerates call c.pos es →
      Enumerates call p (c.taken ++ es)

/-- **An enumeration in parts** takes what an enumeration at once does. -/
theorem Enumerates.eq_rest {call : Pos → Call Pos Entry → Prop} {Good : Pos → Prop} {rest : Pos → List Entry}
    (hcall : ∀ p c, Good p → call p c → Resumes Good rest p c) {p : Pos} {es : List Entry} (h : Enumerates call p es) :
    Good p → es = rest p := by
  induction h with
  | last hc hend =>
    intro hp
    exact (hcall _ _ hp hc).finished hend
  | more hc hrefused _ ih =>
    intro hp
    obtain ⟨hpos, hsplit⟩ := (hcall _ _ hp hc).refused hrefused
    rw [ih hpos, hsplit]

/-- a call that takes anything begins with the entry behind its position -/
theorem Resumes.head? {Good : Pos → Prop} {rest : Pos → List Entry} {p : Pos} {c : Call Pos Entry}
    (h : Resumes Good rest p c) (hne : c.taken ≠ []) : c.taken.head? = (rest p).head? := by
  cases hr : c.refused with
  | true => rw [← (h.refused hr).2, List.head?_append_of_ne_nil _ hne]
  | false => rw [h.finished hr]

end AtsLdd.Resume
