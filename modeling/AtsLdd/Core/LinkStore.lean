/-
A store of places: every row has a list of them, and the others are free. A table of links holds the store when the rows
are its chains and the free places are its free ones.

- `Store.Apart`: no place is in a row twice, in two rows, or in a row and free; `StoredRows.apart`: a store that a table holds is
  so;
- `Rows.replace`: one row is replaced, in a table that changed outside the other rows;
- `StoredRows.first`, `StoredRows.grow`, `StoredRows.cut`: what the table does when a row grows by a free place, and when one is cut short.
-/
import AtsLdd.Core.LinkTable

namespace AtsLdd.LinkTable

/-! ## The store -/

structure Store (κ α : Type*) where
  rows : κ → List α
  free : Set α

section
variable {κ α : Type*}

/-- no place is held twice -/
structure Store.Apart (A : Store κ α) : Prop where
  nodup : ∀ k, (A.rows k).Nodup
  apart : ∀ k k', k ≠ k' → (A.rows k).Disjoint (A.rows k')
  used : ∀ k, ∀ x ∈ A.rows k, x ∉ A.free

/-- row `k` gets the place `c`, behind the others -/
def Store.grow [DecidableEq κ] (A : Store κ α) (k : κ) (c : α) : Store κ α :=
  ⟨Function.update A.rows k (A.rows k ++ [c]), A.free \ {c}⟩

/-- row `k` keeps its first `n` places, and the others become free -/
def Store.cut [DecidableEq κ] (A : Store κ α) (k : κ) (n : ℕ) : Store κ α :=
  ⟨Function.update A.rows k ((A.rows k).take n), A.free ∪ {x | x ∈ (A.rows k).drop n}⟩

section
variable [DecidableEq κ] (A : Store κ α) (k : κ)

theorem Store.grow_self (c : α) : (A.grow k c).rows k = A.rows k ++ [c] := Function.update_self _ _ _

theorem Store.grow_other {j : κ} (hj : j ≠ k) (c : α) : (A.grow k c).rows j = A.rows j := Function.update_of_ne hj _ _

theorem Store.cut_self (n : ℕ) : (A.cut k n).rows k = (A.rows k).take n := Function.update_self _ _ _

theorem Store.cut_other {j : κ} (hj : j ≠ k) (n : ℕ) : (A.cut k n).rows j = A.rows j := Function.update_of_ne hj _ _

/-- a row that is short enough is not cut -/
theorem Store.cut_long {n : ℕ} (hn : (A.rows k).length ≤ n) : A.cut k n = A := by
  unfold Store.cut
  rw [List.take_of_length_le hn, List.drop_of_length_le hn, Function.update_eq_self]
  simp

end

end

/-! ## Rows that are chains -/

section
variable {κ α : Type*} {T T' : α → Link α} {R : κ → List α} {k k' : κ} {a b : α} {l : List α}

/-- the rows of `R` are chains of the table, apart from each other -/
structure Rows (T : α → Link α) (R : κ → List α) : Prop where
  path : ∀ k, R k ≠ [] → ∃ a, Path T a (R k)
  apart : ∀ k k', k ≠ k' → (R k).Disjoint (R k')

theorem Rows.nodup (h : Rows T R) (k : κ) : (R k).Nodup := by
  by_cases hk : R k = []
  · rw [hk]
    exact List.nodup_nil
  · obtain ⟨a, p⟩ := h.path k hk
    exact p.nodup

/-- a place of a row is not free -/
theorem Rows.not_free (h : Rows T R) {x : α} (hx : x ∈ R k) : T x ≠ .free := by
  obtain ⟨a, p⟩ := h.path k (List.ne_nil_of_mem hx)
  exact p.not_free hx

/-- **One row is replaced**, in a table that changed outside the other rows. -/
theorem Rows.replace [DecidableEq κ] (h : Rows T R) (k : κ) {l : List α} (hframe : ∀ k' ≠ k, ∀ x ∈ R k', T' x = T x)
    (hpath : l ≠ [] → ∃ a, Path T' a l) (hapart : ∀ k' ≠ k, l.Disjoint (R k')) : Rows T' (Function.update R k l) where
  path := by
    intro k' hne
    by_cases hk : k' = k
    · rw [hk, Function.update_self] at hne ⊢
      exact hpath hne
    · rw [Function.update_of_ne hk] at hne ⊢
      obtain ⟨a, p⟩ := h.path k' hne
      exact ⟨a, p.congr (hframe k' hk)⟩
  apart := by
    intro i j hij
    by_cases hi : i = k
    · have hj : j ≠ k := fun hj => hij (hi.trans hj.symm)
      rw [hi, Function.update_self, Function.update_of_ne hj]
      exact hapart j hj
    · rw [Function.update_of_ne hi]
      by_cases hj : j = k
      · rw [hj, Function.update_self]
        exact (hapart i hi).symm
      · rw [Function.update_of_ne hj]
        exact h.apart i j hij

end

/-! ## Tables that hold a store -/

/-- the rows are chains of the table, of admissible places, and its other admissible places that hold nothing are free -/
structure StoredRows {κ α : Type*} (T : α → Link α) (ok : α → Prop) (A : Store κ α) : Prop where
  rows : Rows T A.rows
  ok_of_mem : ∀ k, ∀ x ∈ A.rows k, ok x
  free : A.free = {x | ok x ∧ T x = .free}

section
variable {κ α : Type*} {T T' : α → Link α} {ok : α → Prop} {A : Store κ α} {k : κ} {a c : α}

theorem StoredRows.apart (h : StoredRows T ok A) : A.Apart where
  nodup := h.rows.nodup
  apart := h.rows.apart
  used := by
    intro k x hx hfree
    rw [h.free] at hfree
    exact h.rows.not_free hx hfree.2

theorem StoredRows.free_iff (h : StoredRows T ok A) {x : α} : x ∈ A.free ↔ ok x ∧ T x = .free := by
  rw [h.free]
  exact Iff.rfl

/-- a free place is in no row -/
theorem StoredRows.not_mem (h : StoredRows T ok A) (hc : c ∈ A.free) (k : κ) : c ∉ A.rows k := fun hx => h.apart.used k c hx hc

variable [DecidableEq κ]

/-- a store whose row `k` has grown by a free place is held, once the places before it and it are a chain -/
theorem StoredRows.grown (h : StoredRows T ok A) (hc : c ∈ A.free) (p : Path T' a (A.rows k ++ [c]))
    (hframe : ∀ x, x ∉ A.rows k ++ [c] → T' x = T x) : StoredRows T' ok (A.grow k c) where
  rows := by
    apply h.rows.replace
    · intro j hj x hx
      apply hframe
      intro hmem
      rcases List.mem_append.1 hmem with hxk | hxc
      · exact h.rows.apart j k hj hx hxk
      · obtain rfl := List.mem_singleton.1 hxc
        exact h.not_mem hc j hx
    · exact fun _ => ⟨a, p⟩
    · intro j hj
      refine List.disjoint_append_left.2 ⟨h.rows.apart k j fun he => hj he.symm, List.singleton_disjoint.2 (h.not_mem hc j)⟩
  ok_of_mem := by
    intro j x hx
    by_cases hj : j = k
    · rw [hj, Store.grow_self] at hx
      rcases List.mem_append.1 hx with hx | hx
      · exact h.ok_of_mem k x hx
      · exact List.mem_singleton.1 hx ▸ (h.free_iff.1 hc).1
    · rw [Store.grow_other A k hj] at hx
      exact h.ok_of_mem j x hx
  free := by
    ext x
    show x ∈ A.free \ {c} ↔ ok x ∧ T' x = .free
    rw [Set.mem_sdiff, Set.mem_singleton_iff, h.free_iff]
    constructor
    · rintro ⟨⟨hok, hfree⟩, hne⟩
      refine ⟨hok, (hframe x fun hmem => ?_).trans hfree⟩
      rcases List.mem_append.1 hmem with hx | hx
      · exact h.rows.not_free hx hfree
      · exact hne (List.mem_singleton.1 hx)
    · rintro ⟨hok, hfree⟩
      have hout : x ∉ A.rows k ++ [c] := fun hmem => p.not_free hmem hfree
      refine ⟨⟨hok, (hframe x hout).symm.trans hfree⟩, ?_⟩
      rintro rfl
      exact hout (List.mem_append_right _ (List.mem_singleton.2 rfl))

variable [DecidableEq α]

/-- **The first place** of a row. -/
theorem StoredRows.first (h : StoredRows T ok A) (hk : A.rows k = []) (hc : c ∈ A.free) :
    StoredRows (Function.update T c .last) ok (A.grow k c) := by
  apply h.grown (a := c) hc
  · rw [hk]
    exact .last (Function.update_self _ _ _)
  · intro x hx
    apply Function.update_of_ne
    rintro rfl
    exact hx (List.mem_append_right _ (List.mem_singleton.2 rfl))

/-- **Growth.** A free place becomes a chain of its own, and is hung behind the last place of the row. -/
theorem StoredRows.grow (h : StoredRows T ok A) (p : Path T a (A.rows k)) (hc : c ∈ A.free) :
    Path (Function.update (Function.update T c .last) ((A.rows k).getLast p.ne_nil) (.next c)) a (A.rows k ++ [c]) ∧
      StoredRows (Function.update (Function.update T c .last) ((A.rows k).getLast p.ne_nil) (.next c)) ok (A.grow k c) := by
  have hout := h.not_mem hc k
  have p1 : Path (Function.update T c .last) a (A.rows k) := by
    apply p.congr
    intro x hx
    apply Function.update_of_ne
    rintro rfl
    exact hout hx
  have p2 := p1.append (.last (Function.update_self c .last T)) (List.disjoint_singleton.2 hout)
  refine ⟨p2, h.grown hc p2 fun x hx => ?_⟩
  have hxc : x ≠ c := by
    rintro rfl
    exact hx (List.mem_append_right _ (List.mem_singleton.2 rfl))
  have hxlast : x ≠ (A.rows k).getLast p.ne_nil := by
    rintro rfl
    exact hx (List.mem_append_left _ (List.getLast_mem _))
  rw [Function.update_of_ne hxlast, Function.update_of_ne hxc]

/-- **Cutting.** -/
theorem StoredRows.cut (h : StoredRows T ok A) (p : Path T a (A.rows k)) (n : ℕ) : StoredRows (cutAt T (A.rows k) n) ok (A.cut k n) where
  rows := by
    apply h.rows.replace
    · intro j hj x hx
      exact cutAt_of_not_mem (fun hxk => h.rows.apart j k hj hx hxk) n
    · intro hne
      have hn : 0 < n := by
        by_contra hzero
        rw [Nat.eq_zero_of_not_pos hzero] at hne
        exact hne rfl
      exact ⟨a, p.cut hn⟩
    · exact fun j hj x hx hxj => h.rows.apart k j (fun he => hj he.symm) (List.mem_of_mem_take hx) hxj
  ok_of_mem := by
    intro j x hx
    by_cases hj : j = k
    · rw [hj, Store.cut_self] at hx
      exact h.ok_of_mem k x (List.mem_of_mem_take hx)
    · rw [Store.cut_other A k hj] at hx
      exact h.ok_of_mem j x hx
  free := by
    ext x
    show x ∈ A.free ∨ x ∈ (A.rows k).drop n ↔ ok x ∧ cutAt T (A.rows k) n x = .free
    rw [h.free_iff]
    unfold cutAt
    split_ifs with hdrop hlast
    · simp only [hdrop, or_true, and_true, true_iff]
      exact h.ok_of_mem k x (List.mem_of_mem_drop hdrop)
    · -- the last place that stays was not free before
      have hx : x ∈ A.rows k := List.mem_of_mem_take (List.mem_of_getLast? hlast)
      simp only [hdrop, or_false, h.rows.not_free hx, and_false]
    · simp only [hdrop, or_false]

end

end AtsLdd.LinkTable
