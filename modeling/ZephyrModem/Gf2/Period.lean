import Mathlib.Data.Nat.Prime.Basic
import Mathlib.Dynamics.PeriodicPts.Defs
import ZephyrModem.Gf2.Linear

/-!
# Periods of a shift register

A register of `w + 1` bits that shifts towards its low end multiplies polynomials by
`x` modulo its own; its top bit is the constant term. Powers of `x` by repeated
squaring give its state after any number of shifts.
-/

namespace ZephyrModem.Gf2
open Function

variable (poly : ℕ)

/-- Product of words of `w` bits. -/
def mul : ℕ → ℕ → ℕ → ℕ
  | 0, _, _ => 0
  | w + 1, a, b => (if a.testBit w then b else 0) ^^^ mul w a (lsbStep poly b)

theorem map_mul {g : ℕ → ℕ} (hg : XorLinear g) (hcomm : ∀ n, g (lsbStep poly n) = lsbStep poly (g n))
    (w a b : ℕ) : g (mul poly w a b) = mul poly w a (g b) := by
  induction w generalizing b with
  | zero => exact hg.map_zero
  | succ w ih =>
    have htop : g (if a.testBit w then b else 0) = if a.testBit w then g b else 0 := by
      split
      · rfl
      · exact hg.map_zero
    rw [mul, mul, hg, htop, ih, hcomm]

/-- The top bit is the unit. -/
theorem mul_top (w a : ℕ) : mul poly (w + 1) a (2 ^ w) = a % 2 ^ (w + 1) := by
  induction w with
  | zero =>
    rw [mul, mul, Nat.xor_zero, Nat.testBit_zero]
    rcases Nat.mod_two_eq_zero_or_one a with h | h <;> simp [h]
  | succ w ih =>
    have hstep : lsbStep poly (2 ^ (w + 1)) = 2 ^ w := by
      have heven : ¬ 2 ^ (w + 1) % 2 = 1 := by
        rw [Nat.pow_succ, Nat.mul_mod_left]
        decide
      rw [lsbStep, if_neg heven, Nat.pow_succ, Nat.mul_div_cancel _ (by decide)]
    have hlow : a % 2 ^ (w + 1 + 1) % 2 ^ (w + 1) = a % 2 ^ (w + 1) :=
      Nat.mod_mod_of_dvd a (Nat.pow_dvd_pow 2 (Nat.le_succ _))
    have htop : (a % 2 ^ (w + 1 + 1)).testBit (w + 1) = a.testBit (w + 1) := by
      rw [Nat.testBit_mod_two_pow, decide_eq_true (Nat.lt_succ_self _), Bool.true_and]
    have hsplit := eq_top_xor (w + 1) (a % 2 ^ (w + 1 + 1)) (Nat.mod_lt _ (Nat.two_pow_pos _))
    rw [hlow, htop] at hsplit
    rw [mul, hstep, ih, hsplit]

theorem iterate_eq_mul (w n : ℕ) {b : ℕ} (hb : b < 2 ^ (w + 1)) :
    (lsbStep poly)^[n] b = mul poly (w + 1) b ((lsbStep poly)^[n] (2 ^ w)) := by
  have hcomm : ∀ m, (lsbStep poly)^[n] (lsbStep poly m) = lsbStep poly ((lsbStep poly)^[n] m) := by
    intro m
    rw [← iterate_succ_apply, iterate_succ_apply']
  rw [← map_mul poly ((lsbStep_linear poly).iterate n) hcomm, mul_top, Nat.mod_eq_of_lt hb]

/-- `x ^ n` for `n < 2 ^ k`. -/
def power (w : ℕ) : ℕ → ℕ → ℕ
  | 0, _ => 2 ^ w
  | k + 1, n =>
    let root := power w k (n / 2)
    let square := mul poly (w + 1) root root
    if n % 2 = 1 then lsbStep poly square else square

variable {poly}

theorem power_eq {w : ℕ} (hpoly : poly < 2 ^ (w + 1)) (k n : ℕ) (hn : n < 2 ^ k) :
    power poly w k n = (lsbStep poly)^[n] (2 ^ w) := by
  induction k generalizing n with
  | zero =>
    have hzero : n = 0 := by
      rw [Nat.pow_zero] at hn
      omega
    rw [hzero]
    rfl
  | succ k ih =>
    have hhalf : n / 2 < 2 ^ k := by
      rw [Nat.pow_succ] at hn
      omega
    have hroot : (lsbStep poly)^[n / 2] (2 ^ w) < 2 ^ (w + 1) :=
      iterate_lsbStep_lt hpoly _ (Nat.pow_lt_pow_right (by decide) (Nat.lt_succ_self w))
    have hsquare : mul poly (w + 1) (power poly w k (n / 2)) (power poly w k (n / 2)) =
        (lsbStep poly)^[n / 2 + n / 2] (2 ^ w) := by
      rw [ih _ hhalf, ← iterate_eq_mul poly w (n / 2) hroot, ← iterate_add_apply]
    simp only [power, hsquare]
    split
    · rename_i hodd
      rw [← iterate_succ_apply' (lsbStep poly)]
      congr 1
      omega
    · rename_i heven
      congr 1
      omega

theorem isPeriodicPt_iff {w : ℕ} (hpoly : poly < 2 ^ (w + 1)) {k n b : ℕ} (hn : n < 2 ^ k)
    (hb : b < 2 ^ (w + 1)) :
    IsPeriodicPt (lsbStep poly) n b ↔ mul poly (w + 1) b (power poly w k n) = b := by
  rw [power_eq hpoly k n hn, ← iterate_eq_mul poly w n hb]
  rfl

/-- A period that no prime can be taken out of. -/
theorem minimalPeriod_eq_of_primes {α : Type} {f : α → α} {x : α} {n : ℕ}
    (hn : IsPeriodicPt f n x) (hp : ∀ p, p.Prime → p ∣ n → ¬ IsPeriodicPt f (n / p) x) :
    minimalPeriod f x = n := by
  obtain ⟨a, ha⟩ := hn.minimalPeriod_dvd
  have hone : a = 1 := by
    by_contra hne
    obtain ⟨p, hprime, b, rfl⟩ := Nat.exists_prime_and_dvd hne
    have hdiv : n = p * (minimalPeriod f x * b) := by
      rw [ha, Nat.mul_left_comm]
    apply hp p hprime (Dvd.intro _ hdiv.symm)
    rw [hdiv, Nat.mul_div_cancel_left _ hprime.pos]
    exact (isPeriodicPt_minimalPeriod f x).mul_const b
  rw [hone, Nat.mul_one] at ha
  exact ha.symm

end ZephyrModem.Gf2
