/-
A walk over numbers, batched into runs of consecutive ones.

The first number of the run in hand is kept. A run is over behind a number that does not lead to the next number.
- `runs_flatten`: the runs that are over, and the run in hand, are the numbers visited, in their order;
- `runs_complete`: behind a number that does not lead to the next one, the runs that are over are all;
- `runs_front`: the runs of the first numbers of a walk are the first runs of the walk;
- `runs_disjoint`, `runs_unique`: a walk without repetition has disjoint runs;
- `runs_row`: numbers in a row are one run.
-/
import Mathlib.Tactic
import Mathlib.Data.Int.Range

namespace AtsLdd.Runs

/-- the numbers of the run from `r.1` to `r.2` -/
def run (r : ℤ × ℤ) : List ℤ := Int.range r.1 (r.2 + 1)

/-- the runs that are over behind `c`, and the first number of the run in hand -/
def runStep (link : ℤ → ℤ) (q : List (ℤ × ℤ) × ℤ) (c : ℤ) : List (ℤ × ℤ) × ℤ :=
  if link c = c + 1 then q else (q.1 ++ [(q.2, c)], link c)

/-- the runs, each as its first and its last number, when the numbers `l` are met from `a` on -/
def runs (link : ℤ → ℤ) (a : ℤ) (l : List ℤ) : List (ℤ × ℤ) × ℤ := l.foldl (runStep link) ([], a)

/-- the walk from a number meets the numbers of the list -/
def Meets (link : ℤ → ℤ) : ℤ → List ℤ → Prop
  | _, [] => True
  | a, c :: l => c = a ∧ Meets link (link c) l

variable {link : ℤ → ℤ} {a c : ℤ} {l pre : List ℤ} {q : List (ℤ × ℤ) × ℤ}

theorem mem_run {r : ℤ × ℤ} : c ∈ run r ↔ r.1 ≤ c ∧ c ≤ r.2 := by
  rw [run, Int.mem_range_iff, Int.lt_add_one_iff]

theorem range_self (c : ℤ) : Int.range c c = [] := by simp [Int.range]

theorem range_succ {first : ℤ} (h : first ≤ c) : Int.range first (c + 1) = Int.range first c ++ [c] := by
  obtain ⟨n, rfl⟩ := Int.le.dest h
  have h1 : (first + n + 1 - first).toNat = n + 1 := by omega
  have h2 : (first + n - first).toNat = n := by omega
  unfold Int.range
  rw [h1, h2, List.range_succ, List.map_append]
  rfl

theorem Meets.front (h : Meets link a l) (hpre : pre <+: l) : Meets link a pre := by
  induction pre generalizing a l with
  | nil => trivial
  | cons x pre ih =>
    cases l with
    | nil => exact absurd hpre (by simp)
    | cons y l =>
      obtain ⟨rfl, hrest⟩ := List.cons_prefix_cons.1 hpre
      exact ⟨h.1, ih h.2 hrest⟩

/-- **One number more**: it closes the run in hand, or lengthens it. -/
theorem runStep_flatten (link : ℤ → ℤ) (h : q.2 ≤ c) :
    (runStep link q c).1.flatMap run ++ Int.range (runStep link q c).2 (link c) = q.1.flatMap run ++ Int.range q.2 (c + 1) ∧
      (runStep link q c).2 ≤ link c := by
  unfold runStep
  by_cases hnext : link c = c + 1
  · rw [if_pos hnext, hnext]
    exact ⟨rfl, h.trans (Int.le_add_one le_rfl)⟩
  · rw [if_neg hnext]
    refine ⟨?_, le_rfl⟩
    rw [range_self, List.append_nil, List.flatMap_append, List.flatMap_singleton]
    rfl

theorem foldl_runStep_flatten (h : Meets link c l) (hle : q.2 ≤ c) :
    ∃ d, (l.foldl (runStep link) q).1.flatMap run ++ Int.range (l.foldl (runStep link) q).2 d =
        q.1.flatMap run ++ Int.range q.2 c ++ l ∧ (l.foldl (runStep link) q).2 ≤ d ∧
      Meets link c (l ++ [d]) := by
  induction l generalizing c q with
  | nil => exact ⟨c, (List.append_nil _).symm, hle, rfl, trivial⟩
  | cons x l ih =>
    obtain ⟨rfl, h⟩ := h
    obtain ⟨hflat, hle'⟩ := runStep_flatten link hle
    obtain ⟨d, hd, hled, hmeets⟩ := ih h hle'
    refine ⟨d, ?_, hled, rfl, hmeets⟩
    rw [List.foldl_cons, hd, hflat, range_succ hle, List.append_assoc, List.append_assoc, List.append_assoc]
    rfl

/-- **The runs are the walk.** Behind the runs that are over comes the run in hand, up to the number `d` that is met next. -/
theorem runs_flatten (h : Meets link a l) :
    ∃ d, (runs link a l).1.flatMap run ++ Int.range (runs link a l).2 d = l ∧ (runs link a l).2 ≤ d ∧
      Meets link a (l ++ [d]) := by
  obtain ⟨d, hd, hle, hmeets⟩ := foldl_runStep_flatten (q := ([], a)) h le_rfl
  refine ⟨d, hd.trans ?_, hle, hmeets⟩
  rw [range_self]
  rfl

theorem runs_append (link : ℤ → ℤ) (a : ℤ) (l : List ℤ) (c : ℤ) :
    runs link a (l ++ [c]) = runStep link (runs link a l) c := by
  unfold runs
  rw [List.foldl_append]
  rfl

/-- a walk meets one number behind its list -/
theorem Meets.unique {d : ℤ} (h : Meets link a (l ++ [c])) (h' : Meets link a (l ++ [d])) : c = d := by
  induction l generalizing a with
  | nil => exact h.1.trans h'.1.symm
  | cons x l ih => exact ih h.2 h'.2

/-- **The last run is over** behind a number that does not lead to the next one. -/
theorem runs_complete (h : Meets link a (l ++ [c])) (hc : link c ≠ c + 1) :
    (runs link a (l ++ [c])).1.flatMap run = l ++ [c] := by
  obtain ⟨d, hd, hle, hmeets⟩ := runs_flatten (h.front (List.prefix_append l [c]))
  obtain rfl := h.unique hmeets
  have hover : (runs link a (l ++ [c])).1 = (runs link a l).1 ++ [((runs link a l).2, c)] := by
    rw [runs_append, runStep, if_neg hc]
  calc (runs link a (l ++ [c])).1.flatMap run
      = (runs link a l).1.flatMap run ++ Int.range (runs link a l).2 (c + 1) := by
        rw [hover, List.flatMap_append, List.flatMap_singleton]
        rfl
    _ = ((runs link a l).1.flatMap run ++ Int.range (runs link a l).2 c) ++ [c] := by
        rw [range_succ hle, List.append_assoc]
    _ = l ++ [c] := by rw [hd]

/-- every run holds numbers of the walk -/
theorem runs_mem (h : Meets link a l) {r : ℤ × ℤ} (hr : r ∈ (runs link a l).1) (hc : c ∈ run r) : c ∈ l := by
  obtain ⟨d, hd, -⟩ := runs_flatten h
  rw [← hd]
  exact List.mem_append_left _ (List.mem_flatMap.2 ⟨r, hr, hc⟩)

theorem runStep_front (link : ℤ → ℤ) (q : List (ℤ × ℤ) × ℤ) (c : ℤ) : q.1 <+: (runStep link q c).1 := by
  unfold runStep
  split_ifs
  · exact List.prefix_rfl
  · exact List.prefix_append _ _

theorem foldl_runStep_front (link : ℤ → ℤ) (l : List ℤ) (q : List (ℤ × ℤ) × ℤ) : q.1 <+: (l.foldl (runStep link) q).1 := by
  induction l generalizing q with
  | nil => exact List.prefix_rfl
  | cons c l ih => exact (runStep_front link q c).trans (ih _)

/-- a run that is over stays as it is -/
theorem runs_front (link : ℤ → ℤ) (a : ℤ) (hpre : pre <+: l) : (runs link a pre).1 <+: (runs link a l).1 := by
  obtain ⟨t, rfl⟩ := hpre
  unfold runs
  rw [List.foldl_append]
  exact foldl_runStep_front link t _

/-- no run ends before it begins -/
theorem runs_le (h : Meets link a l) : ∀ r ∈ (runs link a l).1, r.1 ≤ r.2 := by
  suffices hall : ∀ (l : List ℤ) (c : ℤ) (q : List (ℤ × ℤ) × ℤ), Meets link c l → q.2 ≤ c → (∀ r ∈ q.1, r.1 ≤ r.2) →
      ∀ r ∈ (l.foldl (runStep link) q).1, r.1 ≤ r.2 from hall l a ([], a) h le_rfl fun _ hr => absurd hr List.not_mem_nil
  intro l
  induction l with
  | nil =>
    intro _ _ _ _ hq
    exact hq
  | cons x l ih =>
    intro c q hmeets hle hq
    obtain ⟨rfl, hmeets⟩ := hmeets
    apply ih (link x) (runStep link q x) hmeets (runStep_flatten link hle).2
    intro r hr
    unfold runStep at hr
    split_ifs at hr
    · exact hq r hr
    · rcases List.mem_append.1 hr with hr | hr
      · exact hq r hr
      · rw [List.mem_singleton.1 hr]
        exact hle

/-- **Disjoint runs.** -/
theorem runs_disjoint (h : Meets link a l) (hnd : l.Nodup) :
    (runs link a l).1.Pairwise fun r r' => ∀ c ∈ run r, c ∉ run r' := by
  obtain ⟨d, hd, -⟩ := runs_flatten h
  rw [← hd] at hnd
  exact (List.nodup_flatMap.1 (List.Nodup.of_append_left hnd)).2.imp fun hdis c hc hc' => hdis hc hc'

/-- a number is in one run only -/
theorem runs_unique (h : Meets link a l) (hnd : l.Nodup) {r r' : ℤ × ℤ} (hr : r ∈ (runs link a l).1)
    (hr' : r' ∈ (runs link a l).1) (hc : c ∈ run r) (hc' : c ∈ run r') : r = r' := by
  by_contra hne
  have hsymm : Std.Symm fun r r' : ℤ × ℤ => ∀ c ∈ run r, c ∉ run r' := ⟨fun _ _ hrr c hc hc' => hrr c hc' hc⟩
  exact (runs_disjoint h hnd).forall hr hr' hne c hc hc'

/-- **Numbers in a row** are one run. -/
theorem foldl_runStep_row (n : ℕ) : ∀ {k : ℕ} {q : List (ℤ × ℤ) × ℤ}, (∀ i, k ≤ i → i < k + n → link (i : ℕ) = (i : ℤ) + 1) →
    link (k + n : ℕ) ≠ (k + n : ℕ) + 1 →
    ((List.range' k (n + 1)).map fun i : ℕ => (i : ℤ)).foldl (runStep link) q = (q.1 ++ [(q.2, ((k + n : ℕ) : ℤ))], link (k + n : ℕ)) := by
  induction n with
  | zero =>
    intro k q _ hlast
    change runStep link q k = _
    exact if_neg hlast
  | succ n ih =>
    intro k q hrow hlast
    have hnext : runStep link q k = q := if_pos (hrow k le_rfl (by omega))
    have hk : k + (n + 1) = k + 1 + n := by omega
    rw [hk] at hlast ⊢
    rw [List.range'_succ, List.map_cons, List.foldl_cons, hnext]
    exact ih (fun i h1 h2 => hrow i (by omega) (by omega)) hlast

theorem runs_row {k n : ℕ} (hrow : ∀ i, k ≤ i → i < k + n → link (i : ℕ) = (i : ℤ) + 1)
    (hlast : link (k + n : ℕ) ≠ (k + n : ℕ) + 1) :
    (runs link k ((List.range' k (n + 1)).map fun i : ℕ => (i : ℤ))).1 = [((k : ℤ), ((k + n : ℕ) : ℤ))] := by
  unfold runs
  rw [foldl_runStep_row n hrow hlast]
  rfl

end AtsLdd.Runs
