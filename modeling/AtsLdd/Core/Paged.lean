/-
A memory seen through pages: cell `p` of the view is cell `p % n` of page `p / n`, wherever that page lies.

- `view_update`: a page that is stored is that page of the view, when the pages lie apart;
- `view_splice`, `view_strided`: cells stored inside one page are stored in the view;
- `view_elsewhere`: what is stored in other pages does not show.
-/
import AtsLdd.Core.ByteMap

namespace AtsLdd.Paged

open AtsLdd.ByteMap

variable {α Page : Type*} {n m q off : ℕ} {page : ℕ → Page} {mem : Page → ℕ → α} {p : ℕ}

/-- the memory `mem` through the pages `page 0`, `page 1` and so on, of `n` cells each -/
def view (n : ℕ) (page : ℕ → Page) (mem : Page → ℕ → α) : ℕ → α := fun p => mem (page (p / n)) (p % n)

/-- the first `m` pages are different ones -/
def Distinct (page : ℕ → Page) (m : ℕ) : Prop := ∀ q r, q < m → r < m → page q = page r → q = r

/-- `k` cells of `f`, `d` apart from `pos` on, hold `v` -/
def strided (f : ℕ → α) (pos d k : ℕ) (v : α) : ℕ → α := fun i => if (∃ j < k, i = pos + d * j) then v else f i

/-! ## Strides -/

theorem splice_congr {f g : ℕ → α} {xs : List α} {pos : ℕ} (h : f p = g p) : splice f pos xs p = splice g pos xs p := by
  unfold splice
  rw [h]

theorem strided_congr {f g : ℕ → α} {pos d k : ℕ} {v : α} (h : f p = g p) : strided f pos d k v p = strided g pos d k v p := by
  unfold strided
  rw [h]

@[simp] theorem strided_zero (f : ℕ → α) (pos d : ℕ) (v : α) : strided f pos d 0 v = f := by
  funext i
  exact if_neg fun ⟨j, hj, _⟩ => Nat.not_lt_zero j hj

/-- two strides, the second one behind the first -/
theorem strided_append (f : ℕ → α) (pos d a b : ℕ) (v : α) :
    strided (strided f pos d a v) (pos + d * a) d b v = strided f pos d (a + b) v := by
  funext i
  unfold strided
  by_cases hb : ∃ j < b, i = pos + d * a + d * j
  · obtain ⟨j, hj, rfl⟩ := hb
    have hab : ∃ j' < a + b, pos + d * a + d * j = pos + d * j' :=
      ⟨a + j, Nat.add_lt_add_left hj a, by rw [Nat.add_assoc, Nat.mul_add]⟩
    rw [if_pos ⟨j, hj, rfl⟩, if_pos hab]
  · rw [if_neg hb]
    by_cases ha : ∃ j < a, i = pos + d * j
    · obtain ⟨j, hj, rfl⟩ := ha
      rw [if_pos ⟨j, hj, rfl⟩, if_pos ⟨j, hj.trans_le (Nat.le_add_right a b), rfl⟩]
    · rw [if_neg ha, if_neg ?_]
      rintro ⟨j, hj, rfl⟩
      rcases Nat.lt_or_ge j a with hlt | hge
      · exact ha ⟨j, hlt, rfl⟩
      · obtain ⟨c, rfl⟩ := Nat.exists_eq_add_of_le hge
        exact hb ⟨c, Nat.lt_of_add_lt_add_left hj, by rw [Nat.add_assoc, Nat.mul_add]⟩

/-- two strides, the second one before the first -/
theorem strided_prepend (f : ℕ → α) (pos d a b : ℕ) (v : α) :
    strided (strided f (pos + d * a) d b v) pos d a v = strided f pos d (a + b) v := by
  rw [← strided_append]
  funext i
  unfold strided
  split_ifs <;> rfl

/-! ## Storing through a view -/

/-- **A page that is stored** is that page of the view. -/
theorem view_update [DecidableEq Page] (hdist : Distinct page m) (hq : q < m) (hp : p < m * n) (f : ℕ → α) :
    view n page (Function.update mem (page q) f) p = if p / n = q then f (p % n) else view n page mem p := by
  have hlt : p / n < m := Nat.div_lt_of_lt_mul (Nat.mul_comm m n ▸ hp)
  unfold view
  by_cases h : p / n = q
  · rw [if_pos h, h, Function.update_self]
  · rw [if_neg h, Function.update_of_ne fun he => h (hdist _ _ hlt hq he)]

/-- what is stored in other pages does not show -/
theorem view_elsewhere {mem' : Page → ℕ → α} (h : ∀ q < m, mem' (page q) = mem (page q)) (hp : p < m * n) :
    view n page mem' p = view n page mem p := by
  unfold view
  rw [h _ (Nat.div_lt_of_lt_mul (Nat.mul_comm m n ▸ hp))]

/-- the cell of a view that is cell `i` of page `q` -/
theorem page_cell (hi : off < n) : (q * n + off) / n = q ∧ (q * n + off) % n = off := by
  have hn : 0 < n := Nat.zero_lt_of_lt hi
  rw [Nat.mul_comm, Nat.mul_add_div hn, Nat.mul_add_mod, Nat.div_eq_of_lt hi, Nat.mod_eq_of_lt hi]
  exact ⟨Nat.add_zero q, rfl⟩

/-- **Cells stored inside one page** are stored in the view. -/
theorem view_splice [DecidableEq Page] (hdist : Distinct page m) (hq : q < m) (hp : p < m * n) {xs : List α}
    (hfit : off + xs.length ≤ n) :
    view n page (Function.update mem (page q) (splice (mem (page q)) off xs)) p =
      splice (view n page mem) (q * n + off) xs p := by
  rw [view_update hdist hq hp]
  have hdm := Nat.div_add_mod' p n
  by_cases h : p / n = q
  · rw [if_pos h]
    rw [h] at hdm
    by_cases hin : off ≤ p % n ∧ p % n < off + xs.length
    · rw [splice_of_mem hin.1 (by omega), splice_of_mem (by omega) (by omega)]
      congr 1
      omega
    · rw [splice_of_not_mem hin, splice_of_not_mem (by omega)]
      unfold view
      rw [h]
  · rw [if_neg h, splice_of_not_mem]
    -- the cells stored are all in page `q`
    rintro ⟨h1, h2⟩
    apply h
    have hlt : p - q * n < n := by omega
    have hp' : p = q * n + (p - q * n) := by omega
    rw [hp']
    exact (page_cell hlt).1

/-- **A stride inside one page** is a stride of the view. -/
theorem view_strided [DecidableEq Page] (hdist : Distinct page m) (hq : q < m) (hp : p < m * n) {d k : ℕ} {v : α}
    (hfit : ∀ j < k, off + d * j < n) :
    view n page (Function.update mem (page q) (strided (mem (page q)) off d k v)) p =
      strided (view n page mem) (q * n + off) d k v p := by
  rw [view_update hdist hq hp]
  unfold strided
  by_cases h : p / n = q
  · have hdm := Nat.div_add_mod' p n
    rw [if_pos h]
    rw [h] at hdm
    have hiff : (∃ j < k, p % n = off + d * j) ↔ ∃ j < k, p = q * n + off + d * j := by
      refine exists_congr fun j => and_congr_right fun _ => ?_
      omega
    simp only [hiff]
    unfold view
    rw [h]
  · rw [if_neg h, if_neg ?_]
    rintro ⟨j, hj, rfl⟩
    rw [Nat.add_assoc] at h
    exact h (page_cell (hfit j hj)).1

end AtsLdd.Paged
