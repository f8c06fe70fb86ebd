import Mathlib.Algebra.Group.Nat.Defs
import Mathlib.Data.Nat.Basic

/-!
# Integer widths

`size_t` and `unsigned long` are as wide as the platform makes them. A `size_t`
value is a natural number below `2 ^ sizeBits`; every addition and subtraction
of the code is reduced explicitly.
-/

namespace ZephyrModem

/-- Widths of the two integer types whose width the code's results depend on. -/
structure Platform where
  sizeBits : ℕ
  ulongBits : ℕ
  sizeBits_ge : 16 ≤ sizeBits
  sizeBits_le : sizeBits ≤ 64
  ulongBits_ge : 32 ≤ ulongBits

namespace Platform

variable (P : Platform)

/-- `SIZE_MAX + 1`. -/
def sizeMod : ℕ := 2 ^ P.sizeBits

def ulongMax : ℕ := 2 ^ P.ulongBits - 1

/-- A natural number converted to `size_t`. -/
def toSize (n : ℕ) : ℕ := n % P.sizeMod

/-- `a - b` in `size_t`. -/
def subSize (a b : ℕ) : ℕ := P.toSize (a + (P.sizeMod - b))

theorem sizeMod_pos : 0 < P.sizeMod := Nat.two_pow_pos _

theorem sizeMod_ge : 65536 ≤ P.sizeMod :=
  Nat.pow_le_pow_right (n := 2) (by decide) P.sizeBits_ge

theorem sizeMod_le : P.sizeMod ≤ 2 ^ 64 :=
  Nat.pow_le_pow_right (n := 2) (by decide) P.sizeBits_le

theorem dvd_sizeMod : 1024 ∣ P.sizeMod :=
  Nat.pow_dvd_pow 2 (Nat.le_trans (by decide : 10 ≤ 16) P.sizeBits_ge)

@[simp] theorem toSize_lt (n : ℕ) : P.toSize n < P.sizeMod := Nat.mod_lt _ P.sizeMod_pos

theorem toSize_of_lt {n : ℕ} (h : n < P.sizeMod) : P.toSize n = n := Nat.mod_eq_of_lt h

theorem subSize_of_le {a b : ℕ} (ha : a < P.sizeMod) (h : b ≤ a) : P.subSize a b = a - b := by
  have hsum : a + (P.sizeMod - b) = a - b + P.sizeMod := by omega
  rw [subSize, toSize, hsum, Nat.add_mod_right]
  exact Nat.mod_eq_of_lt (by omega)

theorem subSize_of_lt {a b : ℕ} (hb : b < P.sizeMod) (h : a < b) :
    P.subSize a b = a + (P.sizeMod - b) := by
  rw [subSize, toSize, Nat.mod_eq_of_lt]
  omega

end Platform

/-- A 32-bit Zephyr target. -/
def platform32 : Platform := ⟨32, 32, by decide, by decide, by decide⟩

end ZephyrModem
