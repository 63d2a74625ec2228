/-
Ring buffers: `n` cells of a memory used round and round, from a position to read at up to a position to write at.

- `content_pop`: reading a run of cells takes them from the front;
- `content_push`: writing a run of cells puts them at the back, as long as one cell stays free.

The cells written or read are in a row: a position that comes to the end goes on at the start (`wrap`).
-/
import AtsLdd.Core.ByteMap

namespace AtsLdd.Ring

open AtsLdd.ByteMap

variable {α : Type*}

/-- the cells from `rp` up to `wp`, around the end if `wp` is before `rp` -/
def content (f : ℕ → α) (n rp wp : ℕ) : List α :=
  if rp ≤ wp then slice f rp (wp - rp) else slice f rp (n - rp) ++ slice f 0 wp

/-- a position that may have come to the end -/
def wrap (n i : ℕ) : ℕ := if i = n then 0 else i

/-- the cells in a row that can be read -/
def readable (n rp wp : ℕ) : ℕ := if rp ≤ wp then wp - rp else n - rp

@[simp] theorem content_self (f : ℕ → α) (n p : ℕ) : content f n p p = [] := by simp [content]

theorem content_length (f : ℕ → α) (n rp wp : ℕ) :
    (content f n rp wp).length = if rp ≤ wp then wp - rp else n - rp + wp := by
  unfold content
  split_ifs
  · simp
  · simp

theorem wrap_lt {n i : ℕ} (h : i ≤ n) (hn : 0 < n) : wrap n i < n := by
  unfold wrap
  split_ifs <;> omega

/-- **Reading** takes cells from the front. -/
theorem content_pop (f : ℕ → α) {n rp wp k : ℕ} (hw : wp < n) (hk : k ≤ readable n rp wp) (hr : rp < n) :
    content f n rp wp = slice f rp k ++ content f n (wrap n (rp + k)) wp := by
  unfold readable at hk
  by_cases h : rp ≤ wp
  · rw [if_pos h] at hk
    have hne : wrap n (rp + k) = rp + k := if_neg (by omega)
    have hsplit : wp - rp = k + (wp - (rp + k)) := by omega
    unfold content
    rw [hne, if_pos h, if_pos (by omega), hsplit, slice_add]
  · rw [if_neg h] at hk
    have hsplit : n - rp = k + (n - (rp + k)) := by omega
    by_cases hend : rp + k = n
    · have hzero : n - (rp + k) = 0 := by omega
      unfold content
      rw [if_neg h, wrap, if_pos hend, if_pos (Nat.zero_le _), hsplit, hzero, Nat.add_zero, Nat.sub_zero]
    · unfold content
      rw [if_neg h, wrap, if_neg hend, if_neg (by omega), hsplit, slice_add, List.append_assoc]

/-- **Writing** puts cells at the back. -/
theorem content_push (f : ℕ → α) {n rp wp : ℕ} (hr : rp < n) {bs : List α}
    (hrow : if rp ≤ wp then wp + bs.length ≤ n else wp + bs.length < rp)
    (hfree : (content f n rp wp).length + bs.length < n) :
    content (splice f wp bs) n rp (wrap n (wp + bs.length)) = content f n rp wp ++ bs := by
  rw [content_length] at hfree
  have hold : ∀ p k, p + k ≤ wp ∨ wp + bs.length ≤ p → slice (splice f wp bs) p k = slice f p k := by
    intro p k hor
    exact slice_congr fun q h1 h2 => splice_of_not_mem (by omega)
  by_cases h : rp ≤ wp
  · rw [if_pos h] at hrow hfree
    by_cases hend : wp + bs.length = n
    · -- the cells come to the end
      have hsplit : n - rp = (wp - rp) + bs.length := by omega
      have hpos : rp + (wp - rp) = wp := by omega
      unfold content
      rw [wrap, if_pos hend, if_neg (by omega), if_pos h, slice_zero, List.append_nil, hsplit, slice_add, hpos,
        slice_splice_self, hold rp (wp - rp) (Or.inl (by omega))]
    · have hsplit : wp + bs.length - rp = (wp - rp) + bs.length := by omega
      have hpos : rp + (wp - rp) = wp := by omega
      unfold content
      rw [wrap, if_neg hend, if_pos (by omega), if_pos h, hsplit, slice_add, hpos, slice_splice_self,
        hold rp (wp - rp) (Or.inl (by omega))]
  · rw [if_neg h] at hrow hfree
    have hne : wrap n (wp + bs.length) = wp + bs.length := if_neg (by omega)
    have hpos : 0 + wp = wp := Nat.zero_add wp
    unfold content
    rw [hne, if_neg (by omega), if_neg h, slice_add, hpos, slice_splice_self, hold rp (n - rp) (Or.inr (by omega)),
      hold 0 wp (Or.inl (by omega)), List.append_assoc]

end AtsLdd.Ring
