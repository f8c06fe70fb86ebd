import Mathlib.Data.Nat.Basic

/-!
# 8-bit retry counters

A counter that is compared with its limit after each increment. Below the limit it
does not wrap; it exceeds every limit but 255.
-/

namespace ZephyrModem

theorem toNat_succ {a : UInt8} (h : a.toNat < 255) : (a + 1).toNat = a.toNat + 1 := by
  rw [UInt8.toNat_add]
  apply Nat.mod_eq_of_lt
  change a.toNat + 1 < 256
  omega

theorem toNat_ne_255 {a : UInt8} (h : a ≠ 255) : a.toNat ≠ 255 :=
  fun he => h (UInt8.toNat_inj.mp he)

theorem succ_of_lt {a b : UInt8} (h : a < b) : (a + 1).toNat = a.toNat + 1 ∧ a + 1 ≤ b := by
  have hlt : a.toNat < b.toNat := h
  have hb : b.toNat < 256 := b.toNat_lt
  have hnat : (a + 1).toNat = a.toNat + 1 := toNat_succ (by omega)
  refine ⟨hnat, ?_⟩
  show (a + 1).toNat ≤ b.toNat
  omega

theorem lt_of_not_succ_gt {a b : UInt8} (hle : a ≤ b) (hnot : ¬ a + 1 > b) (hb : b ≠ 255) : a < b := by
  show a.toNat < b.toNat
  have hle' : a.toNat ≤ b.toNat := hle
  have hnot' : ¬ b.toNat < (a + 1).toNat := hnot
  have hb' := toNat_ne_255 hb
  have hb256 : b.toNat < 256 := b.toNat_lt
  rw [toNat_succ (by omega)] at hnot'
  omega

theorem not_gt_255 {a limit : UInt8} (hlimit : limit = 255) : ¬ a > limit := by
  intro h
  have hlt : limit.toNat < a.toNat := h
  have ha : a.toNat < 256 := a.toNat_lt
  rw [hlimit] at hlt
  change 255 < a.toNat at hlt
  omega

/-- The increments that a counter has left. -/
def roundsLeft (limit a : UInt8) : ℕ := limit.toNat + 1 - (a + 1).toNat

theorem roundsLeft_lt {limit a : UInt8} (h : ¬ a + 1 > limit) (hlimit : limit ≠ 255) :
    roundsLeft limit (a + 1) < roundsLeft limit a := by
  have hle : (a + 1).toNat ≤ limit.toNat := Nat.not_lt.mp h
  have hlt : limit.toNat < 256 := limit.toNat_lt
  have hne := toNat_ne_255 hlimit
  have hnext : (a + 1 + 1).toNat = (a + 1).toNat + 1 := toNat_succ (by omega)
  rw [roundsLeft, roundsLeft, hnext]
  omega

theorem roundsLeft_lt_of_lt {limit a : UInt8} (h : a + 1 < limit) :
    roundsLeft limit (a + 1) < roundsLeft limit a := by
  have hlt : (a + 1).toNat < limit.toNat := h
  rw [roundsLeft, roundsLeft, (succ_of_lt h).1]
  omega

end ZephyrModem
