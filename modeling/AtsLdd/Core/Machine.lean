/-
The machine integers of the C code on an LP64 kernel. A signed integer is an integer kept in its range by an explicit
wrap, as the kernel is compiled to wrap on overflow; an unsigned one is a natural number.
-/
import Mathlib.Tactic

namespace AtsLdd.Machine

/-- conversion to `int` -/
def int32 (x : ℤ) : ℤ := x.bmod (2 ^ 32)

/-- conversion to `long`, `long long`, `loff_t` or `ssize_t` -/
def int64 (x : ℤ) : ℤ := x.bmod (2 ^ 64)

/-- conversion to `unsigned long`, `size_t` or `sector_t` -/
def ulong (x : ℤ) : ℕ := (x % 2 ^ 64).toNat

/-- `INT_MAX` -/
def INT_MAX : ℤ := 2 ^ 31 - 1

theorem int32_of_bounds {x : ℤ} (h1 : -2 ^ 31 ≤ x) (h2 : x < 2 ^ 31) : int32 x = x :=
  Int.bmod_eq_of_le (by norm_num; omega) (by norm_num; omega)

theorem int32_bounds (x : ℤ) : -2 ^ 31 ≤ int32 x ∧ int32 x < 2 ^ 31 :=
  ⟨Int.le_bmod (by norm_num), Int.bmod_lt (by norm_num)⟩

/-- what fits an `int` when it is taken modulo `2 ^ 32` -/
theorem int32_of_mod_lt {x : ℤ} (h : x % 2 ^ 32 < 2 ^ 31) : int32 x = x % 2 ^ 32 := by
  unfold int32 Int.bmod
  norm_num at h ⊢
  omega

theorem int32_of_mod_ge {x : ℤ} (h : 2 ^ 31 ≤ x % 2 ^ 32) : int32 x = x % 2 ^ 32 - 2 ^ 32 := by
  unfold int32 Int.bmod
  norm_num at h ⊢
  omega

theorem int64_of_bounds {x : ℤ} (h1 : -2 ^ 63 ≤ x) (h2 : x < 2 ^ 63) : int64 x = x :=
  Int.bmod_eq_of_le (by norm_num; omega) (by norm_num; omega)

theorem int64_overflow {x : ℤ} (h1 : 2 ^ 63 ≤ x) (h2 : x < 2 ^ 64) : int64 x = x - 2 ^ 64 := by
  have hmod : x % ((2 ^ 64 : ℕ) : ℤ) = x := Int.emod_eq_of_lt (by omega) (by norm_num; omega)
  unfold int64 Int.bmod
  rw [hmod, if_neg (by norm_num; omega)]
  norm_num

theorem ulong_of_bounds {x : ℤ} (h1 : 0 ≤ x) (h2 : x < 2 ^ 64) : (ulong x : ℤ) = x := by
  unfold ulong; omega

theorem ulong_natCast {x : ℕ} (h : x < 2 ^ 64) : ulong x = x := by
  unfold ulong; omega

end AtsLdd.Machine
