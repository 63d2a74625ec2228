/-
Memory as a function from addresses to cells, with the two operations that copy a run of cells in or out.

- `splice f pos bs`: the cells `bs` stored at `pos`;
- `slice f pos n`: the `n` cells from `pos` on.

A `Store` is such a memory with a size: a file whose missing cells hold a default. Writing grows it, reading stops at the
size.
-/
import Mathlib.Tactic

namespace AtsLdd.ByteMap

variable {α : Type*}

/-- `f` with the cells `bs` stored from `pos` on -/
def splice (f : ℕ → α) (pos : ℕ) (bs : List α) : ℕ → α :=
  fun p => if h : pos ≤ p ∧ p - pos < bs.length then bs[p - pos] else f p

/-- the `n` cells of `f` from `pos` on -/
def slice (f : ℕ → α) (pos n : ℕ) : List α := (List.range n).map fun k => f (pos + k)

theorem splice_of_mem {f : ℕ → α} {pos p : ℕ} {bs : List α} (h1 : pos ≤ p) (h2 : p - pos < bs.length) :
    splice f pos bs p = bs[p - pos] := by
  simp [splice, h1, h2]

theorem splice_of_not_mem {f : ℕ → α} {pos p : ℕ} {bs : List α} (h : ¬ (pos ≤ p ∧ p < pos + bs.length)) :
    splice f pos bs p = f p := by
  unfold splice
  rw [dif_neg]
  omega

@[simp] theorem splice_nil (f : ℕ → α) (pos : ℕ) : splice f pos [] = f := by
  funext p; exact splice_of_not_mem (by simp)

@[simp] theorem slice_zero (f : ℕ → α) (pos : ℕ) : slice f pos 0 = [] := rfl

@[simp] theorem length_slice (f : ℕ → α) (pos n : ℕ) : (slice f pos n).length = n := by simp [slice]

@[simp] theorem getElem_slice (f : ℕ → α) (pos n k : ℕ) (h : k < (slice f pos n).length) :
    (slice f pos n)[k] = f (pos + k) := by
  simp [slice]

theorem slice_add (f : ℕ → α) (pos a b : ℕ) : slice f pos (a + b) = slice f pos a ++ slice f (pos + a) b := by
  simp [slice, List.range_add, List.map_map, Function.comp_def, Nat.add_assoc]

theorem slice_congr {f g : ℕ → α} {pos n : ℕ} (h : ∀ p, pos ≤ p → p < pos + n → f p = g p) :
    slice f pos n = slice g pos n := by
  refine List.map_congr_left fun k hk => h _ (by omega) ?_
  have := List.mem_range.1 hk
  omega

theorem slice_splice_self (f : ℕ → α) (pos : ℕ) (bs : List α) : slice (splice f pos bs) pos bs.length = bs := by
  apply List.ext_getElem
  · simp
  · intro k h1 h2
    rw [getElem_slice, splice_of_mem (by omega) (by omega)]
    congr 1; omega

/-- storing what is there changes nothing, and storing anything else does -/
theorem splice_eq_self_iff {f : ℕ → α} {pos : ℕ} {bs : List α} : splice f pos bs = f ↔ bs = slice f pos bs.length := by
  constructor
  · intro h
    have hslice := slice_splice_self f pos bs
    rw [h] at hslice
    exact hslice.symm
  · intro h
    funext p
    by_cases hin : pos ≤ p ∧ p < pos + bs.length
    · have hk : p - pos < bs.length := by omega
      have hk' : p - pos < (slice f pos bs.length).length := by rwa [length_slice]
      rw [splice_of_mem hin.1 hk]
      calc bs[p - pos] = (slice f pos bs.length)[p - pos] := List.getElem_of_eq h hk
        _ = f (pos + (p - pos)) := getElem_slice ..
        _ = f p := by rw [Nat.add_sub_cancel' hin.1]
    · exact splice_of_not_mem hin

theorem take_slice (f : ℕ → α) (pos n k : ℕ) : (slice f pos n).take k = slice f pos (min k n) := by
  simp [slice, ← List.map_take, List.take_range]

theorem splice_append (f : ℕ → α) (pos : ℕ) (xs ys : List α) :
    splice (splice f pos xs) (pos + xs.length) ys = splice f pos (xs ++ ys) := by
  funext p
  by_cases hy : pos + xs.length ≤ p ∧ p < pos + xs.length + ys.length
  · rw [splice_of_mem hy.1 (by omega), splice_of_mem (by omega) (by rw [List.length_append]; omega),
      List.getElem_append_right (by omega)]
    congr 1; omega
  · rw [splice_of_not_mem hy]
    by_cases hx : pos ≤ p ∧ p < pos + xs.length
    · rw [splice_of_mem hx.1 (by omega), splice_of_mem hx.1 (by rw [List.length_append]; omega),
        List.getElem_append_left]
    · rw [splice_of_not_mem hx, splice_of_not_mem (by rw [List.length_append]; omega)]

/-! ## Blocks of a fixed size -/

/-- the memory made of blocks of `n` cells one behind the other, with `d` behind the last -/
def concat (n : ℕ) (d : α) (bs : List (ℕ → α)) : ℕ → α := fun i => bs.getD (i / n) (fun _ => d) (i % n)

/-- cells of the first block only -/
theorem slice_concat_single {n : ℕ} {d : α} {b : ℕ → α} {ofs k : ℕ} (h : ofs + k ≤ n) :
    slice (concat n d [b]) ofs k = slice b ofs k := by
  apply slice_congr
  intro p h1 h2
  simp only [concat, Nat.div_eq_of_lt (show p < n by omega), Nat.mod_eq_of_lt (show p < n by omega)]
  rfl

/-- cells up to the end of the blocks `bs`, and then cells of the blocks behind them -/
theorem slice_concat_append {n : ℕ} (hn : 0 < n) {d : α} {bs cs : List (ℕ → α)} {ofs k j : ℕ}
    (h : ofs + k = bs.length * n) :
    slice (concat n d (bs ++ cs)) ofs (k + j) = slice (concat n d bs) ofs k ++ slice (concat n d cs) 0 j := by
  rw [slice_add]
  congr 1
  · apply slice_congr
    intro p h1 h2
    have hp : p / n < bs.length := (Nat.div_lt_iff_lt_mul hn).2 (by omega)
    simp only [concat, List.getD_eq_getElem?_getD, List.getElem?_append_left hp]
  · rw [h]
    unfold slice
    apply List.map_congr_left
    intro i _
    have hdiv : (bs.length * n + i) / n = bs.length + i / n := by
      rw [Nat.mul_comm, Nat.mul_add_div hn]
    have hmod : (bs.length * n + i) % n = i % n := by
      rw [Nat.mul_comm, Nat.mul_add_mod]
    simp only [concat, hdiv, hmod, Nat.zero_add, List.getD_eq_getElem?_getD,
      List.getElem?_append_right (Nat.le_add_right _ _), Nat.add_sub_cancel_left]

/-! ## Stores -/

/-- a file: its size and its cells -/
structure Store (α : Type*) where
  size : ℕ
  cell : ℕ → α

/-- the empty file, with `d` in every missing cell -/
def Store.empty (d : α) : Store α := ⟨0, fun _ => d⟩

def Store.write (σ : Store α) (pos : ℕ) (bs : List α) : Store α :=
  ⟨max σ.size (pos + bs.length), splice σ.cell pos bs⟩

/-- `n` cells from `pos` on -/
def Store.read (σ : Store α) (pos n : ℕ) : List α := slice σ.cell pos n

def Store.contents (σ : Store α) : List α := σ.read 0 σ.size

theorem Store.read_add (σ : Store α) (pos a b : ℕ) : σ.read pos (a + b) = σ.read pos a ++ σ.read (pos + a) b :=
  slice_add _ _ _ _

end AtsLdd.ByteMap
