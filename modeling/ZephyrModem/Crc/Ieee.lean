import ZephyrModem.Crc.Streaming
import ZephyrModem.Gf2.Remainder

/-!
# The CRC-32 of IEEE 802.3

`crc.h` says of `modem_crc32` that it computes the 32-bit CRC of IEEE 802.3: the data as
a polynomial, the low bit of each byte first, its 32 highest coefficients complemented,
is divided by the generator, and the remainder is complemented. The register of
`crc32_ieee` computes it.
-/

namespace ZephyrModem
open Function Gf2 Polynomial

/-- The generator of IEEE 802.3. -/
noncomputable def ieeeGenerator : (ZMod 2)[X] :=
  X ^ 32 + X ^ 26 + X ^ 23 + X ^ 22 + X ^ 16 + X ^ 12 + X ^ 11 + X ^ 10 + X ^ 8 + X ^ 7 + X ^ 5 +
    X ^ 4 + X ^ 2 + X + 1

noncomputable def ieeeMessage (d : List UInt8) : (ZMod 2)[X] := message 8 UInt8.toNat d

/-- Data of fewer than 32 bits is complemented as if zeros followed it. -/
noncomputable def ieeeRemainder (d : List UInt8) : (ZMod 2)[X] :=
  (X ^ (8 * d.length) * ∑ i ∈ Finset.range 32, X ^ i + X ^ 32 * ieeeMessage d) %ₘ ieeeGenerator

/-- The CRC as a word, the highest coefficient of the remainder in its low bit. -/
noncomputable def ieeeCrc32 (d : List UInt8) : UInt32 :=
  UInt32.ofNat (toWord 32 (ieeeRemainder d)) ^^^ 0xFFFFFFFF

/-- What `crc.h` says of `crc32_ieee`. -/
def ComputesIeee (crc : CrcService) : Prop := ∀ d, crc.crc32Ieee d = ieeeCrc32 d

/-- The reflected polynomial stands for the generator. -/
theorem generator_ieeePoly : generator 32 ieeePoly = ieeeGenerator := by
  simp only [generator, ieeePoly, ofWord, ieeeGenerator]
  norm_num
  ring

theorem toNat_ieeeRegister_ones (d : List UInt8) :
    (ieeeRegister 0xFFFFFFFF d).toNat = toWord 32 (ieeeRemainder d) := by
  have hdigest : digest (lsbStep ieeePoly)^[8] UInt8.toNat (2 ^ 32 - 1) d = toWord 32
      ((X ^ (8 * d.length) * ofWord 32 (2 ^ 32 - 1) + X ^ 32 * ieeeMessage d) %ₘ
        generator 32 ieeePoly) :=
    digest_eq_toWord (by decide) (by decide) UInt8.toNat_lt (by decide) d
  rw [generator_ieeePoly, ofWord_ones] at hdigest
  rw [toNat_ieeeRegister]
  exact hdigest

theorem ieeeRegister_eq_ieeeCrc32 (d : List UInt8) :
    ieeeRegister 0xFFFFFFFF d ^^^ 0xFFFFFFFF = ieeeCrc32 d := by
  rw [ieeeCrc32, ← toNat_ieeeRegister_ones, UInt32.ofNat_toNat]

example : ieeeCrc32 [0x31, 0x32, 0x33, 0x34, 0x35, 0x36, 0x37, 0x38, 0x39] = 0xCBF43926 := by
  rw [← ieeeRegister_eq_ieeeCrc32]
  decide +kernel

theorem IeeeCrc.computesIeee {crc : CrcService} (h : IeeeCrc crc) : ComputesIeee crc := by
  intro d
  rw [← ieeeRegister_eq_ieeeCrc32]
  exact oneShot_eq h d

end ZephyrModem
