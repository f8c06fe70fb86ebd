import Mathlib.Data.Nat.GCD.Basic
import Mathlib.Tactic.NormNum.Pow
import Mathlib.Tactic.NormNum.Prime
import ZephyrModem.Crc
import ZephyrModem.Gf2.Period

/-!
# Two ways to a 32-bit CRC (`src/crc.h`, lines 67-107)

Headers are checked with `modem_crc32`, subpackets with `modem_crc32_update` and
`modem_crc32_finalize`. The first starts the register with all ones. The second hands
all ones to an update that complements its argument, and so starts it with zero.
-/

namespace ZephyrModem
open Function Gf2

/-- The reflected polynomial of `crc32_ieee`. -/
def ieeePoly : ℕ := 0xEDB88320

/-- The register of `crc32_ieee_update` after `d`. -/
def ieeeRegister (seed : UInt32) (d : List UInt8) : UInt32 :=
  d.foldl (fun c b => shift32 8 (c ^^^ b.toUInt32)) seed

/-- What `zephyr/sys/crc.h` says of its 32-bit CRC: both functions complement the
register before and after. -/
structure IeeeCrc (crc : CrcService) : Prop where
  ieee : ∀ d, crc.crc32Ieee d = crc.crc32IeeeUpdate 0 d
  update : ∀ c d, crc.crc32IeeeUpdate c d = ieeeRegister (c ^^^ 0xFFFFFFFF) d ^^^ 0xFFFFFFFF

theorem ieeeCrc_reference : IeeeCrc referenceCrc where
  ieee _ := rfl
  update _ _ := rfl

/-! ### The register as a linear map -/

theorem toNat_shift32 (n : ℕ) (c : UInt32) :
    (shift32 n c).toNat = (lsbStep ieeePoly)^[n] c.toNat := by
  induction n generalizing c with
  | zero => rfl
  | succ n ih =>
    have hbit : c &&& 1 = 1 ↔ c.toNat % 2 = 1 := by
      rw [← UInt32.toNat_inj, UInt32.toNat_and]
      show c.toNat &&& 1 = 1 ↔ _
      rw [Nat.and_one_is_mod]
    have hshift : (c >>> 1).toNat = c.toNat / 2 := by
      rw [UInt32.toNat_shiftRight]
      exact Nat.shiftRight_one c.toNat
    rw [shift32, ih, iterate_succ_apply]
    congr 1
    unfold lsbStep
    by_cases h : c.toNat % 2 = 1
    · rw [if_pos h, if_pos (hbit.mpr h), UInt32.toNat_xor, hshift]
      rfl
    · rw [if_neg h, if_neg fun hc => h (hbit.mp hc), hshift]

theorem toNat_ieeeRegister (seed : UInt32) (d : List UInt8) :
    (ieeeRegister seed d).toNat =
      digest (lsbStep ieeePoly)^[8] UInt8.toNat seed.toNat d := by
  induction d generalizing seed with
  | nil => rfl
  | cons b d ih =>
    show (ieeeRegister (shift32 8 (seed ^^^ b.toUInt32)) d).toNat = _
    rw [ih, toNat_shift32, UInt32.toNat_xor, UInt8.toNat_toUInt32]
    rfl

theorem ieeeRegister_append (seed : UInt32) (d e : List UInt8) :
    ieeeRegister seed (d ++ e) = ieeeRegister (ieeeRegister seed d) e := List.foldl_append

/-! ### The period of all ones -/

theorem prime_dvd_ones {p : ℕ} (hp : p.Prime) (h : p ∣ 2 ^ 32 - 1) :
    p ∈ [3, 5, 17, 257, 65537] := by
  have hfactors : 2 ^ 32 - 1 = 3 * (5 * (17 * (257 * 65537))) := by norm_num
  have hself : ∀ q : ℕ, q.Prime → p ∣ q → p = q := fun q hq hpq =>
    (Nat.prime_dvd_prime_iff_eq hp hq).mp hpq
  rw [hfactors, hp.dvd_mul, hp.dvd_mul, hp.dvd_mul, hp.dvd_mul] at h
  rcases h with h | h | h | h | h
  · rw [hself 3 (by norm_num) h]
    decide
  · rw [hself 5 (by norm_num) h]
    decide
  · rw [hself 17 (by norm_num) h]
    decide
  · rw [hself 257 (by norm_num) h]
    decide
  · rw [hself 65537 (by norm_num) h]
    decide

theorem power_ones :
    mul ieeePoly 32 0xFFFFFFFF (power ieeePoly 31 32 (2 ^ 32 - 1)) = 0xFFFFFFFF := by
  decide +kernel

theorem power_ones_div : ∀ p ∈ [3, 5, 17, 257, 65537],
    mul ieeePoly 32 0xFFFFFFFF (power ieeePoly 31 32 ((2 ^ 32 - 1) / p)) ≠ 0xFFFFFFFF := by
  decide +kernel

/-- The register runs through all its other values before it is all ones again. -/
theorem minimalPeriod_ones : minimalPeriod (lsbStep ieeePoly) 0xFFFFFFFF = 2 ^ 32 - 1 := by
  have hpoly : ieeePoly < 2 ^ (31 + 1) := by decide
  have hones : 0xFFFFFFFF < 2 ^ (31 + 1) := by decide
  apply minimalPeriod_eq_of_primes
  · exact (isPeriodicPt_iff hpoly (k := 32) (by decide) hones).mpr power_ones
  · intro p hp hdvd hper
    have hlt : (2 ^ 32 - 1) / p < 2 ^ 32 :=
      Nat.lt_of_le_of_lt (Nat.div_le_self _ p) (by decide)
    exact power_ones_div p (prime_dvd_ones hp hdvd) ((isPeriodicPt_iff hpoly hlt hones).mp hper)

theorem iterate_ones_iff (n : ℕ) :
    ((lsbStep ieeePoly)^[8])^[n] 0xFFFFFFFF = 0xFFFFFFFF ↔ 2 ^ 32 - 1 ∣ n := by
  have hcoprime : Nat.Coprime (2 ^ 32 - 1) 8 := by decide
  rw [← iterate_mul, ← hcoprime.dvd_mul_left, ← minimalPeriod_ones]
  exact isPeriodicPt_iff_minimalPeriod_dvd

/-! ### Streaming against one call -/

theorem streaming_eq {crc : CrcService} (h : IeeeCrc crc) (payload : List UInt8) (ender : UInt8) :
    modemCrc32Finalize (modemCrc32Update crc (modemCrc32Update crc 0xFFFFFFFF payload) [ender]) =
      ieeeRegister 0 (payload ++ [ender]) := by
  have hself : ∀ c : UInt32, c ^^^ 0xFFFFFFFF ^^^ 0xFFFFFFFF = c := by
    intro c
    rw [UInt32.xor_assoc, UInt32.xor_self, UInt32.xor_zero]
  rw [modemCrc32Finalize, modemCrc32Update, modemCrc32Update, h.update, h.update, hself, hself,
    UInt32.xor_self, ieeeRegister_append]

theorem oneShot_eq {crc : CrcService} (h : IeeeCrc crc) (d : List UInt8) :
    modemCrc32 crc d = ieeeRegister 0xFFFFFFFF d ^^^ 0xFFFFFFFF := by
  rw [modemCrc32, h.ieee, h.update]
  rfl

/-- The two CRCs agree for payloads whose length is one less than a multiple of
`2 ^ 32 - 1`, whatever the bytes. -/
theorem streaming_eq_oneShot_iff {crc : CrcService} (h : IeeeCrc crc) (payload : List UInt8)
    (ender : UInt8) :
    modemCrc32Finalize (modemCrc32Update crc (modemCrc32Update crc 0xFFFFFFFF payload) [ender]) =
      modemCrc32 crc (payload ++ [ender]) ↔ 2 ^ 32 - 1 ∣ payload.length + 1 := by
  have hlinear := (lsbStep_linear ieeePoly).iterate 8
  have hseed := digest_xor UInt8.toNat hlinear 0 0xFFFFFFFF (payload ++ [ender])
  have hlen : (payload ++ [ender]).length = payload.length + 1 := List.length_append
  rw [Nat.zero_xor, hlen] at hseed
  rw [streaming_eq h, oneShot_eq h, ← UInt32.toNat_inj, UInt32.toNat_xor, toNat_ieeeRegister,
    toNat_ieeeRegister, ← iterate_ones_iff]
  show digest _ _ 0 _ = digest _ _ 0xFFFFFFFF _ ^^^ 0xFFFFFFFF ↔ _
  rw [hseed, Nat.xor_assoc]
  generalize digest _ _ 0 (payload ++ [ender]) = x
  generalize ((lsbStep ieeePoly)^[8])^[payload.length + 1] 0xFFFFFFFF = t
  constructor
  · intro hx
    have hzero : 0 = t ^^^ 0xFFFFFFFF := Nat.xor_right_inj.mp ((Nat.xor_zero x).trans hx)
    exact Nat.xor_eq_zero_iff.mp hzero.symm
  · intro ht
    rw [ht, Nat.xor_self, Nat.xor_zero]

/-- They differ for four bytes and agree for `2 ^ 32 - 2` of them. -/
theorem streaming_eq_oneShot_lengths :
    modemCrc32Finalize (modemCrc32Update referenceCrc
        (modemCrc32Update referenceCrc 0xFFFFFFFF [0xDE, 0xAD, 0xBE, 0xEF]) [0x6B]) ≠
      modemCrc32 referenceCrc ([0xDE, 0xAD, 0xBE, 0xEF] ++ [0x6B]) ∧
    modemCrc32Finalize (modemCrc32Update referenceCrc
        (modemCrc32Update referenceCrc 0xFFFFFFFF (List.replicate (2 ^ 32 - 2) 0x55)) [0x6B]) =
      modemCrc32 referenceCrc (List.replicate (2 ^ 32 - 2) 0x55 ++ [0x6B]) := by
  refine ⟨?_, ?_⟩
  · intro heq
    have hdvd := (streaming_eq_oneShot_iff ieeeCrc_reference [0xDE, 0xAD, 0xBE, 0xEF] 0x6B).mp heq
    exact absurd hdvd (by decide)
  · apply (streaming_eq_oneShot_iff ieeeCrc_reference _ 0x6B).mpr
    rw [List.length_replicate]
    decide

/-- The check string, ended by ZCRCW. -/
theorem streaming_ne_oneShot :
    ¬ ∀ (payload : List UInt8) (ender : UInt8),
      modemCrc32Finalize (modemCrc32Update referenceCrc
          (modemCrc32Update referenceCrc 0xFFFFFFFF payload) [ender]) =
        modemCrc32 referenceCrc (payload ++ [ender]) := by
  intro h
  have hcheck := h [0x31, 0x32, 0x33, 0x34, 0x35, 0x36, 0x37, 0x38, 0x39] 0x6B
  exact absurd hcheck (by decide +kernel)

end ZephyrModem
