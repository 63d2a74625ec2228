/-
Tables of links: every place is free, the last one of a chain, or leads on to another place.

`Path T a l` says that the chain from `a` is the list `l` and ends in a last place. A table is well formed for a set of
heads when each of them has a chain of admissible places and different heads have disjoint chains.
- `Path.nodup`, `Path.unique`, `Path.congr`: a chain has no repetition, is unique, and depends on its own places only;
- `Path.append`: hanging a chain behind the last place of another one;
- `WellFormed.alloc`, `WellFormed.append`, `WellFormed.free`: well-formedness when free places become a chain, when one
  chain is hung behind another, and when a chain is freed;
- `Path.cut`, `WellFormed.cut`: the chain of a head cut short, its rest freed;
- `Erase`: freeing every place on the way, from any place of any table; it ends in every finite table;
- `Erase.reach`, `Erase.path`: what is erased is reached, and erasing comes to a last place on a chain only.
-/
import Mathlib.Tactic

namespace AtsLdd.LinkTable

/-- what a place holds -/
inductive Link (α : Type*) where
  | free
  | last
  | next (a : α)
  deriving DecidableEq

variable {α : Type*}

/-- the chain from a place to a last place -/
inductive Path (T : α → Link α) : α → List α → Prop where
  | last {a : α} (h : T a = .last) : Path T a [a]
  | next {a b : α} {l : List α} (h : T a = .next b) (p : Path T b l) : Path T a (a :: l)

/-- one place leads on to another -/
def Follows (T : α → Link α) (x y : α) : Prop := T x = .next y

/-- the places on the way from a place -/
def Reach (T : α → Link α) : α → α → Prop := Relation.ReflTransGen (Follows T)

variable {T T' : α → Link α} {a b : α} {l l' : List α}

theorem Path.head_mem (p : Path T a l) : a ∈ l := by
  cases p with
  | last h => exact List.mem_singleton.2 rfl
  | next h p => exact List.mem_cons_self

theorem Path.ne_nil (p : Path T a l) : l ≠ [] := List.ne_nil_of_mem p.head_mem

theorem Path.unique (p : Path T a l) (p' : Path T a l') : l = l' := by
  induction p generalizing l' with
  | last h =>
    cases p' with
    | last h' => rfl
    | next h' p' =>
      rw [h] at h'
      cases h'
  | next h p ih =>
    cases p' with
    | last h' =>
      rw [h] at h'
      cases h'
    | next h' p' =>
      rw [h] at h'
      cases h'
      rw [ih p']

/-- the rest of a chain from one of its places is shorter than the chain, unless the place is its head -/
theorem Path.tail (p : Path T a l) {x : α} (hx : x ∈ l) : ∃ t, Path T x t ∧ t <:+ l := by
  induction p with
  | last h => exact ⟨_, by rw [List.mem_singleton.1 hx]; exact .last h, by rfl⟩
  | next h p ih =>
    rcases List.mem_cons.1 hx with rfl | hx
    · exact ⟨_, .next h p, List.suffix_rfl⟩
    · obtain ⟨t, ht, hsuf⟩ := ih hx
      exact ⟨t, ht, hsuf.trans (List.suffix_cons _ _)⟩

/-- **A chain has no repetition.** -/
theorem Path.nodup (p : Path T a l) : l.Nodup := by
  induction p with
  | last h => exact List.nodup_singleton _
  | next h p ih =>
    refine List.nodup_cons.2 ⟨fun hmem => ?_, ih⟩
    -- a head that comes again would have a chain shorter than its own
    obtain ⟨t, ht, hsuf⟩ := p.tail hmem
    have hlen := hsuf.length_le
    rw [ht.unique (.next h p), List.length_cons] at hlen
    omega

theorem Path.not_free (p : Path T a l) {x : α} (hx : x ∈ l) : T x ≠ .free := by
  obtain ⟨t, ht, -⟩ := p.tail hx
  cases ht with
  | last h =>
    rw [h]
    intro h
    exact by cases h
  | next h p =>
    rw [h]
    intro h
    exact by cases h

/-- a chain depends on its own places only -/
theorem Path.congr (p : Path T a l) (h : ∀ x ∈ l, T' x = T x) : Path T' a l := by
  induction p with
  | last hl => exact .last ((h _ (List.mem_singleton.2 rfl)).trans hl)
  | next ht p ih =>
    exact .next ((h _ List.mem_cons_self).trans ht) (ih fun x hx => h x (List.mem_cons_of_mem _ hx))

/-- the last place of a chain -/
theorem Path.getLast (p : Path T a l) : T (l.getLast p.ne_nil) = .last := by
  induction p with
  | last h => exact h
  | next h p ih => rwa [List.getLast_cons p.ne_nil]

/-- a chain has one last place -/
theorem Path.last_of_mem (p : Path T a l) {x : α} (hx : x ∈ l) (h : T x = .last) : x = l.getLast p.ne_nil := by
  induction p with
  | last hl => exact List.mem_singleton.1 hx
  | next ht p ih =>
    rw [List.getLast_cons p.ne_nil]
    rcases List.mem_cons.1 hx with rfl | hx
    · rw [ht] at h
      cases h
    · exact ih hx

/-- **Appending.** The last place of a chain is made to lead to the head of another chain. -/
theorem Path.append [DecidableEq α] (p : Path T a l) (p' : Path T b l') (hd : l.Disjoint l') :
    Path (Function.update T (l.getLast p.ne_nil) (.next b)) a (l ++ l') := by
  induction p with
  | @last a h =>
    rw [List.getLast_singleton]
    refine .next (Function.update_self _ _ _) (p'.congr fun x hx => Function.update_of_ne ?_ _ _)
    rintro rfl
    exact hd (List.mem_singleton.2 rfl) hx
  | @next a c l h p ih =>
    have hlast : (a :: l).getLast (List.cons_ne_nil a l) = l.getLast p.ne_nil := List.getLast_cons p.ne_nil
    rw [hlast, List.cons_append]
    refine .next ?_ (ih fun x hx => hd (List.mem_cons_of_mem _ hx))
    rw [Function.update_of_ne, h]
    intro he
    have hnd := (Path.next h p).nodup
    exact (List.nodup_cons.1 hnd).1 (he ▸ List.getLast_mem p.ne_nil)

/-- places in a row, each leading to the next and the last one last, are a chain -/
theorem path_of_isChain {cs : List α} (hne : cs ≠ []) (h : cs.IsChain fun x y => T x = .next y)
    (hl : T (cs.getLast hne) = .last) : Path T (cs.head hne) cs := by
  induction cs with
  | nil => exact absurd rfl hne
  | cons c cs ih =>
    cases cs with
    | nil => exact .last hl
    | cons d cs =>
      obtain ⟨hcd, hrest⟩ := List.isChain_cons_cons.1 h
      rw [List.getLast_cons (List.cons_ne_nil d cs)] at hl
      exact .next hcd (ih (List.cons_ne_nil d cs) hrest hl)

/-! ## Well-formed tables -/

/-- every head has a chain of admissible places without repetition, and different heads have disjoint chains -/
def WellFormed (T : α → Link α) (ok : α → Prop) (heads : Set α) : Prop :=
  (∀ h ∈ heads, ∃ l, Path T h l ∧ l.Nodup ∧ ∀ x ∈ l, ok x) ∧
    ∀ h ∈ heads, ∀ h' ∈ heads, h ≠ h' → ∀ l l', Path T h l → Path T h' l' → l.Disjoint l'

variable {ok : α → Prop} {heads : Set α}

/-- a table that changed outside the chains of the heads -/
theorem WellFormed.congr (w : WellFormed T ok heads)
    (h : ∀ x, T' x ≠ T x → ∀ c ∈ heads, ∀ l, Path T c l → x ∉ l) : WellFormed T' ok heads := by
  have hpath : ∀ c ∈ heads, ∀ l, Path T c l → Path T' c l := by
    intro c hc l p
    apply p.congr
    intro x hx
    by_contra hne
    exact h x hne c hc l p hx
  refine ⟨fun c hc => ?_, fun c hc c' hc' hne l l' p p' => ?_⟩
  · obtain ⟨l, p, hnd, hin⟩ := w.1 c hc
    exact ⟨l, hpath c hc l p, hnd, hin⟩
  · obtain ⟨k, q, -⟩ := w.1 c hc
    obtain ⟨k', q', -⟩ := w.1 c' hc'
    rw [p.unique (hpath c hc k q), p'.unique (hpath c' hc' k' q')]
    exact w.2 c hc c' hc' hne k k' q q'

/-- **Allocation.** A new chain of places that were free. -/
theorem WellFormed.alloc (w : WellFormed T ok heads) (p : Path T' a l) (hok : ∀ x ∈ l, ok x) (hfree : ∀ x ∈ l, T x = .free)
    (hframe : ∀ x, x ∉ l → T' x = T x) : WellFormed T' ok (insert a heads) := by
  have hout : ∀ x, T' x ≠ T x → ∀ c ∈ heads, ∀ k, Path T c k → x ∉ k := by
    intro x hx c _ k q hmem
    by_cases hxl : x ∈ l
    · exact q.not_free hmem (hfree x hxl)
    · exact hx (hframe x hxl)
  have w' := w.congr hout
  have hnew : ∀ c ∈ heads, ∀ k, Path T' c k → k.Disjoint l := by
    intro c hc k q x hxk hxl
    obtain ⟨k₀, q₀, -⟩ := w.1 c hc
    have hq : Path T' c k₀ := q₀.congr fun y hy => by
      by_contra hne
      exact hout y hne c hc k₀ q₀ hy
    rw [q.unique hq] at hxk
    exact q₀.not_free hxk (hfree x hxl)
  refine ⟨fun c hc => ?_, fun c hc c' hc' hne k k' q q' => ?_⟩
  · rcases hc with rfl | hc
    · exact ⟨l, p, p.nodup, hok⟩
    · exact w'.1 c hc
  · rcases hc with rfl | hc
    · rcases hc' with rfl | hc'
      · exact absurd rfl hne
      · rw [q.unique p]
        exact (hnew c' hc' k' q').symm
    · rcases hc' with rfl | hc'
      · rw [q'.unique p]
        exact hnew c hc k q
      · exact w'.2 c hc c' hc' hne k k' q q'

/-- the table with the places of `l` freed -/
def freed [DecidableEq α] (T : α → Link α) (l : List α) : α → Link α := fun x => if x ∈ l then .free else T x

theorem freed_cons [DecidableEq α] (T : α → Link α) (a : α) (l : List α) :
    freed (Function.update T a .free) l = freed T (a :: l) := by
  funext x
  simp only [freed, List.mem_cons, Function.update_apply]
  by_cases hxa : x = a
  · simp [hxa]
  · simp [hxa]

/-- **Freeing.** The chain of a head is freed. -/
theorem WellFormed.free [DecidableEq α] (w : WellFormed T ok heads) (ha : a ∈ heads) (p : Path T a l) :
    WellFormed (freed T l) ok (heads \ {a}) := by
  have w' : WellFormed T ok (heads \ {a}) :=
    ⟨fun c hc => w.1 c hc.1, fun c hc c' hc' => w.2 c hc.1 c' hc'.1⟩
  apply w'.congr
  intro x hx c hc k q hmem
  have hxl : x ∈ l := by
    by_contra hxl
    exact hx (if_neg hxl)
  exact w.2 c hc.1 a ha hc.2 k l q p hmem hxl

/-- **Growth.** The chain of the head `b` is hung behind that of the head `a`. -/
theorem WellFormed.append [DecidableEq α] (w : WellFormed T ok heads) (ha : a ∈ heads) (hb : b ∈ heads) (hab : a ≠ b)
    (p : Path T a l) (p' : Path T b l') :
    Path (Function.update T (l.getLast p.ne_nil) (.next b)) a (l ++ l') ∧
      WellFormed (Function.update T (l.getLast p.ne_nil) (.next b)) ok (heads \ {b}) := by
  have hd := w.2 a ha b hb hab l l' p p'
  have hnew := p.append p' hd
  have hother : ∀ c ∈ heads, c ≠ a → ∀ k, Path T c k → Path (Function.update T (l.getLast p.ne_nil) (.next b)) c k := by
    intro c hc hca k q
    refine q.congr fun x hx => Function.update_of_ne ?_ _ _
    rintro rfl
    exact w.2 c hc a ha hca k l q p hx (List.getLast_mem p.ne_nil)
  have hdis : ∀ c ∈ heads, c ≠ a → c ≠ b → ∀ k, Path T c k → k.Disjoint (l ++ l') := by
    intro c hc hca hcb k q
    exact List.disjoint_append_right.2 ⟨w.2 c hc a ha hca k l q p, w.2 c hc b hb hcb k l' q p'⟩
  refine ⟨hnew, fun c hc => ?_, fun c hc c' hc' hne k k' q q' => ?_⟩
  · by_cases hca : c = a
    · subst hca
      obtain ⟨k, q, -, hin⟩ := w.1 c ha
      obtain ⟨k', q', -, hin'⟩ := w.1 b hb
      obtain rfl := q.unique p
      obtain rfl := q'.unique p'
      exact ⟨_, hnew, hnew.nodup, fun x hx => (List.mem_append.1 hx).elim (hin x) (hin' x)⟩
    · obtain ⟨k, q, hnd, hin⟩ := w.1 c hc.1
      exact ⟨k, hother c hc.1 hca k q, hnd, hin⟩
  · by_cases hca : c = a
    · subst hca
      have hc'a : c' ≠ c := fun h => hne h.symm
      obtain ⟨k₀, q₀, -⟩ := w.1 c' hc'.1
      rw [q.unique hnew, q'.unique (hother c' hc'.1 hc'a k₀ q₀)]
      exact (hdis c' hc'.1 hc'a hc'.2 k₀ q₀).symm
    · obtain ⟨k₀, q₀, -⟩ := w.1 c hc.1
      rw [q.unique (hother c hc.1 hca k₀ q₀)]
      by_cases hc'a : c' = a
      · subst hc'a
        rw [q'.unique hnew]
        exact hdis c hc.1 hca hc.2 k₀ q₀
      · obtain ⟨k₁, q₁, -⟩ := w.1 c' hc'.1
        rw [q'.unique (hother c' hc'.1 hc'a k₁ q₁)]
        exact w.2 c hc.1 c' hc'.1 hne k₀ k₁ q₀ q₁

/-! ## Erasing -/

/-- the places `l` are freed on the way from a place, up to a last one (`true`), or to one that is free already -/
inductive Erase [DecidableEq α] : (α → Link α) → α → List α → Bool → Prop where
  | stop {T : α → Link α} {a : α} (h : T a = .free) : Erase T a [] false
  | last {T : α → Link α} {a : α} (h : T a = .last) : Erase T a [a] true
  | next {T : α → Link α} {a b : α} {l : List α} {e : Bool} (h : T a = .next b)
      (p : Erase (Function.update T a .free) b l e) : Erase T a (a :: l) e

theorem Erase.unique [DecidableEq α] {e e' : Bool} (p : Erase T a l e) (p' : Erase T a l' e') : l = l' ∧ e = e' := by
  induction p generalizing l' with
  | stop h =>
    cases p' with
    | stop h' => exact ⟨rfl, rfl⟩
    | last h' => simp [h] at h'
    | next h' p' => simp [h] at h'
  | last h =>
    cases p' with
    | stop h' => simp [h] at h'
    | last h' => exact ⟨rfl, rfl⟩
    | next h' p' => simp [h] at h'
  | next h p ih =>
    cases p' with
    | stop h' => simp [h] at h'
    | last h' => simp [h] at h'
    | next h' p' =>
      rw [h] at h'
      cases h'
      obtain ⟨rfl, rfl⟩ := ih p'
      exact ⟨rfl, rfl⟩

/-- what is erased was not free -/
theorem Erase.not_free [DecidableEq α] {e : Bool} (p : Erase T a l e) : ∀ x ∈ l, T x ≠ .free := by
  induction p with
  | stop h =>
    intro _ hx
    exact absurd hx List.not_mem_nil
  | last h =>
    intro x hx
    rw [List.mem_singleton.1 hx, h]
    intro h
    exact by cases h
  | @next T a b l e h p ih =>
    intro x hx
    rcases List.mem_cons.1 hx with rfl | hx
    · rw [h]
      intro h
      exact by cases h
    · have hne := ih x hx
      by_cases hxa : x = a
      · rw [hxa, Function.update_self] at hne
        exact absurd rfl hne
      · rwa [Function.update_of_ne hxa] at hne

/-- **Erasing ends**: every step frees a place of a finite table. -/
theorem erase_total [DecidableEq α] (n : ℕ) : ∀ (s : Finset α) (T : α → Link α) (a : α), s.card ≤ n →
    (∀ x ∉ s, T x = .free) → ∃ l e, Erase T a l e ∧ l.length ≤ n := by
  induction n with
  | zero =>
    intro s T a hcard hfree
    have hempty : s = ∅ := Finset.card_eq_zero.1 (Nat.le_zero.1 hcard)
    exact ⟨[], false, .stop (hfree a (by simp [hempty])), le_rfl⟩
  | succ n ih =>
    intro s T a hcard hfree
    cases hT : T a with
    | free => exact ⟨[], false, .stop hT, Nat.zero_le _⟩
    | last => exact ⟨[a], true, .last hT, Nat.le_add_left 1 n⟩
    | next b =>
      have ha : a ∈ s := by
        by_contra hout
        rw [hfree a hout] at hT
        cases hT
      have hcard' : (s.erase a).card ≤ n := by
        rw [Finset.card_erase_of_mem ha]
        omega
      obtain ⟨l, e, p, hlen⟩ := ih (s.erase a) (Function.update T a .free) b hcard' fun x hx => by
        by_cases hxa : x = a
        · rw [hxa, Function.update_self]
        · rw [Function.update_of_ne hxa]
          exact hfree x fun hs => hx (Finset.mem_erase.2 ⟨hxa, hs⟩)
      exact ⟨a :: l, e, .next hT p, Nat.succ_le_succ hlen⟩

/-- a chain is erased up to its last place -/
theorem Path.erase [DecidableEq α] (p : Path T a l) : Erase T a l true := by
  suffices h : ∀ T' : α → Link α, (∀ x ∈ l, T' x = T x) → Erase T' a l true from h T fun _ _ => rfl
  induction p with
  | last h =>
    intro T' hT'
    exact .last ((hT' _ (List.mem_singleton.2 rfl)).trans h)
  | @next a b l h p ih =>
    intro T' hT'
    have hnot : a ∉ l := (List.nodup_cons.1 (Path.next h p).nodup).1
    refine .next ((hT' a List.mem_cons_self).trans h) (ih _ fun x hx => ?_)
    have hxa : x ≠ a := fun he => hnot (he ▸ hx)
    rw [Function.update_of_ne hxa]
    exact hT' x (List.mem_cons_of_mem _ hx)

/-- what is reached from the head of a chain is on it -/
theorem Path.mem_of_reach (p : Path T a l) {x : α} (h : Reach T a x) : x ∈ l := by
  induction h using Relation.ReflTransGen.head_induction_on generalizing l with
  | refl => exact p.head_mem
  | head hab _ ih =>
    cases p with
    | last h =>
      rw [Follows, h] at hab
      cases hab
    | next h p =>
      rw [Follows, h, Link.next.injEq] at hab
      subst hab
      exact List.mem_cons_of_mem _ (ih p)

/-- no place of a chain leads back to itself -/
theorem Path.acyclic (p : Path T a l) {x : α} (h : Reach T a x) : ¬ Relation.TransGen (Follows T) x x := by
  intro hloop
  obtain ⟨t, ht, -⟩ := p.tail (p.mem_of_reach h)
  obtain ⟨y, hxy, hyx⟩ := Relation.TransGen.head'_iff.1 hloop
  cases ht with
  | last h =>
    rw [Follows, h] at hxy
    cases hxy
  | next h q =>
    rw [Follows, h, Link.next.injEq] at hxy
    subst hxy
    exact (List.nodup_cons.1 (Path.next h q).nodup).1 (q.mem_of_reach hyx)

section
variable [DecidableEq α] {e : Bool}

/-- a step of the table in which a place was freed is a step of the table before -/
theorem Follows.of_update {x y : α} (h : Follows (Function.update T a .free) x y) : Follows T x y := by
  unfold Follows at h ⊢
  by_cases hxa : x = a
  · rw [hxa, Function.update_self] at h
    cases h
  · rwa [Function.update_of_ne hxa] at h

/-- **What is erased is reached.** -/
theorem Erase.reach (p : Erase T a l e) : ∀ x ∈ l, Reach T a x := by
  induction p with
  | stop h =>
    intro _ hx
    exact absurd hx List.not_mem_nil
  | last h =>
    intro x hx
    rw [List.mem_singleton.1 hx]
    exact Relation.ReflTransGen.refl
  | @next T a b l e h p ih =>
    intro x hx
    rcases List.mem_cons.1 hx with rfl | hx
    · exact Relation.ReflTransGen.refl
    · have hmono : ∀ x y, Reach (Function.update T a .free) x y → Reach T x y :=
        Relation.ReflTransGen.mono fun _ _ => Follows.of_update
      exact Relation.ReflTransGen.head h (hmono b x (ih x hx))

/-- erasing does not come back to a place -/
theorem Erase.nodup (p : Erase T a l e) : l.Nodup := by
  induction p with
  | stop h => exact List.nodup_nil
  | last h => exact List.nodup_singleton _
  | next h p ih =>
    refine List.nodup_cons.2 ⟨fun hmem => ?_, ih⟩
    exact p.not_free _ hmem (Function.update_self _ _ _)

/-- **Erasing comes to a last place** on a chain only. -/
theorem Erase.path (p : Erase T a l e) : e = true → Path T a l := by
  induction p with
  | stop h =>
    intro h
    exact by cases h
  | last h =>
    intro _
    exact .last h
  | @next T a b l e h p ih =>
    intro he
    refine .next h ((ih he).congr fun x hx => ?_)
    have hxa : x ≠ a := by
      rintro rfl
      exact p.not_free _ hx (Function.update_self _ _ _)
    rw [Function.update_of_ne hxa]

end

/-! ## Cutting -/

/-- the rest of a chain, from one of its indices on -/
theorem Path.drop (p : Path T a l) {n : ℕ} (hn : n < l.length) : Path T (l[n]) (l.drop n) := by
  induction p generalizing n with
  | @last a h =>
    obtain rfl : n = 0 := Nat.lt_one_iff.1 hn
    exact .last h
  | @next a b l h p ih =>
    cases n with
    | zero => exact .next h p
    | succ n => exact ih (Nat.lt_of_succ_lt_succ hn)

/-- the places of a chain lead on to one another -/
theorem Path.next_eq (p : Path T a l) {n : ℕ} (hn : n + 1 < l.length) : T (l[n]) = .next (l[n + 1]) := by
  induction p generalizing n with
  | last h => exact absurd hn (by simp)
  | @next a b l h p ih =>
    cases n with
    | zero =>
      have hb : (a :: l)[1] = b := by
        cases p with
        | last => rfl
        | next => rfl
      rw [hb]
      exact h
    | succ n => exact ih (Nat.lt_of_succ_lt_succ hn)

/-- two tables with the same chain agree on it -/
theorem Path.table_eq (p : Path T a l) (p' : Path T' b l) : ∀ x ∈ l, T' x = T x := by
  intro x hx
  obtain ⟨i, hi, rfl⟩ := List.getElem_of_mem hx
  rcases Nat.lt_or_ge (i + 1) l.length with hlt | hge
  · rw [p.next_eq hlt, p'.next_eq hlt]
  · have hlast : l[i] = l.getLast p.ne_nil := by
      rw [List.getLast_eq_getElem]
      congr 1
      omega
    rw [hlast, p.getLast, p'.getLast]

/-- the chain `l` is cut behind its first `n` places: the last place that stays is a last one, the others are free -/
def cutAt [DecidableEq α] (T : α → Link α) (l : List α) (n : ℕ) : α → Link α :=
  fun x => if x ∈ l.drop n then .free else if (l.take n).getLast? = some x then .last else T x

theorem cutAt_zero [DecidableEq α] (T : α → Link α) (l : List α) : cutAt T l 0 = freed T l := rfl

theorem cutAt_of_not_mem [DecidableEq α] {x : α} (hx : x ∉ l) (n : ℕ) : cutAt T l n x = T x := by
  unfold cutAt
  rw [if_neg fun h => hx (List.mem_of_mem_drop h), if_neg fun h => hx (List.mem_of_mem_take (List.mem_of_getLast? h))]

/-- the places that stay before the last of them -/
theorem cutAt_of_lt [DecidableEq α] (hnd : l.Nodup) {i n : ℕ} (hi : i + 1 < n) (hn : n ≤ l.length) :
    cutAt T l n (l[i]) = T (l[i]) := by
  unfold cutAt
  rw [if_neg, if_neg]
  · rw [List.getLast?_take, if_neg (by omega), List.getElem?_eq_getElem (show n - 1 < l.length by omega), Option.some_or,
      Option.some.injEq]
    intro h
    have hidx := (hnd.getElem_inj_iff).1 h
    omega
  · intro h
    obtain ⟨j, hj, hji⟩ := List.mem_drop_iff_getElem.1 h
    have hidx := (hnd.getElem_inj_iff).1 hji
    omega

/-- behind its end, a chain is not cut -/
theorem Path.cutAt_long [DecidableEq α] (p : Path T a l) {n : ℕ} (hn : l.length ≤ n) : cutAt T l n = T := by
  funext x
  unfold cutAt
  rw [List.drop_of_length_le hn, if_neg List.not_mem_nil, List.take_of_length_le hn]
  split_ifs with hx
  · rw [List.getLast?_eq_some_getLast p.ne_nil, Option.some.injEq] at hx
    rw [← hx, p.getLast]
  · rfl

/-- in the middle, one place becomes a last one, and those behind it are freed -/
theorem cutAt_eq [DecidableEq α] (T : α → Link α) {n : ℕ} (hn : n < l.length) :
    cutAt T l (n + 1) = freed (Function.update T (l[n]) .last) (l.drop (n + 1)) := by
  funext x
  unfold cutAt freed
  split_ifs with hdrop hlast
  · rfl
  · have hx : l[n] = x := by
      rw [List.getLast?_take] at hlast
      simpa [List.getElem?_eq_getElem hn] using hlast
    rw [hx, Function.update_self]
  · rw [Function.update_of_ne]
    rintro rfl
    apply hlast
    rw [List.getLast?_take]
    simp [List.getElem?_eq_getElem hn]

/-- **A chain that is cut** is what was kept of it. -/
theorem Path.cut [DecidableEq α] (p : Path T a l) {n : ℕ} (hn : 0 < n) : Path (cutAt T l n) a (l.take n) := by
  induction p generalizing n with
  | @last a h =>
    have p : Path T a [a] := .last h
    rw [p.cutAt_long hn, List.take_of_length_le hn]
    exact p
  | @next a b l h p ih =>
    have hnot : a ∉ l := (List.nodup_cons.1 (Path.next h p).nodup).1
    obtain ⟨n, rfl⟩ := Nat.exists_eq_succ_of_ne_zero hn.ne'
    cases n with
    | zero =>
      apply Path.last
      unfold cutAt
      rw [List.drop_succ_cons, List.drop_zero, if_neg hnot]
      exact if_pos rfl
    | succ n =>
      -- the head is neither freed nor the last one that stays
      have hsame : cutAt T (a :: l) (n + 1 + 1) = cutAt T l (n + 1) := by
        have hne : l.take (n + 1) ≠ [] := by
          rw [Ne, List.take_eq_nil_iff, not_or]
          exact ⟨Nat.succ_ne_zero n, p.ne_nil⟩
        funext x
        unfold cutAt
        rw [List.drop_succ_cons, List.take_succ_cons, List.getLast?_cons_of_ne_nil hne]
      rw [hsame, List.take_succ_cons]
      exact .next ((cutAt_of_not_mem hnot _).trans h) (ih (Nat.succ_pos n))

/-- **Cutting.** The chain of a head is cut, and the others stay as they are. -/
theorem WellFormed.cut [DecidableEq α] (w : WellFormed T ok heads) (ha : a ∈ heads) (p : Path T a l) {n : ℕ} (hn : 0 < n) :
    WellFormed (cutAt T l n) ok heads := by
  have hcut := p.cut hn
  have hother : ∀ c ∈ heads, c ≠ a → ∀ k, Path T c k → Path (cutAt T l n) c k := by
    intro c hc hca k q
    apply q.congr
    intro x hx
    exact cutAt_of_not_mem (fun hxl => w.2 c hc a ha hca k l q p hx hxl) n
  have hchain : ∀ c ∈ heads, ∃ k k', Path T c k ∧ Path (cutAt T l n) c k' ∧ k' ⊆ k := by
    intro c hc
    by_cases hca : c = a
    · subst hca
      exact ⟨l, l.take n, p, hcut, List.take_subset n l⟩
    · obtain ⟨k, q, -⟩ := w.1 c hc
      exact ⟨k, k, q, hother c hc hca k q, fun _ hx => hx⟩
  refine ⟨fun c hc => ?_, fun c hc c' hc' hne k k' q q' => ?_⟩
  · obtain ⟨k, k', q, q', hsub⟩ := hchain c hc
    obtain ⟨k₀, q₀, -, hin⟩ := w.1 c hc
    rw [q₀.unique q] at hin
    exact ⟨k', q', q'.nodup, fun x hx => hin x (hsub hx)⟩
  · obtain ⟨k₀, k₁, q₀, q₁, hsub⟩ := hchain c hc
    obtain ⟨k₀', k₁', q₀', q₁', hsub'⟩ := hchain c' hc'
    rw [q.unique q₁, q'.unique q₁']
    have hdis := w.2 c hc c' hc' hne k₀ k₀' q₀ q₀'
    exact fun x hx hx' => hdis (hsub hx) (hsub' hx')

end AtsLdd.LinkTable
