import Mathlib.Data.List.Basic

/-!
# Checksums (`src/crc.h`, `src/crc.c`)

The CRC routines themselves are Zephyr's `crc16_ccitt`, `crc32_ieee` and
`crc32_ieee_update`; they are a parameter of the model. The wrappers around
them and the 8-bit checksum are the repository's.
-/

namespace ZephyrModem

/-- The CRC services of `zephyr/sys/crc.h`. -/
structure CrcService where
  crc16Ccitt : UInt16 → List UInt8 → UInt16
  crc32Ieee : List UInt8 → UInt32
  crc32IeeeUpdate : UInt32 → List UInt8 → UInt32

/-- `modem_checksum8`: sum of the bytes modulo 256 (`crc.c:10-21`). -/
def modemChecksum8 (buf : List UInt8) : UInt8 := buf.foldl (· + ·) 0

variable (crc : CrcService)

/-- `modem_crc16` (`crc.h:46-49`). -/
def modemCrc16 (buf : List UInt8) : UInt16 := crc.crc16Ccitt 0xFFFF buf

/-- `modem_crc16_update` (`crc.h:61-64`). -/
def modemCrc16Update (c : UInt16) (buf : List UInt8) : UInt16 := crc.crc16Ccitt c buf

/-- `modem_crc32` (`crc.h:76-79`). -/
def modemCrc32 (buf : List UInt8) : UInt32 := crc.crc32Ieee buf

/-- `modem_crc32_update` (`crc.h:91-94`). -/
def modemCrc32Update (c : UInt32) (buf : List UInt8) : UInt32 := crc.crc32IeeeUpdate c buf

/-- `modem_crc32_finalize` (`crc.h:104-107`). -/
def modemCrc32Finalize (c : UInt32) : UInt32 := c ^^^ 0xFFFFFFFF

/-! ### Byte order of a 16-bit CRC on the wire -/

/-- `(uint8_t)(crc >> 8)`. -/
def crcHi (c : UInt16) : UInt8 := (c >>> 8).toUInt8

def crcLo (c : UInt16) : UInt8 := (c &&& 0xFF).toUInt8

/-- `((uint16_t)hi << 8) | lo`. -/
def be16 (hi lo : UInt8) : UInt16 := (hi.toUInt16 <<< 8) ||| lo.toUInt16

theorem crcHi_toNat (c : UInt16) : (crcHi c).toNat = c.toNat / 256 := by
  have hc : c.toNat < 65536 := c.toNat_lt
  simp only [crcHi, UInt16.toNat_toUInt8, UInt16.toNat_shiftRight, UInt16.reduceToNat,
    Nat.shiftRight_eq_div_pow, Nat.reduceMod, Nat.reducePow]
  omega

theorem crcLo_toNat (c : UInt16) : (crcLo c).toNat = c.toNat % 256 := by
  have hand : c.toNat &&& 255 = c.toNat % 2 ^ 8 := Nat.and_two_pow_sub_one_eq_mod c.toNat 8
  simp only [crcLo, UInt16.toNat_toUInt8, UInt16.toNat_and, UInt16.reduceToNat, hand]
  omega

theorem be16_toNat (hi lo : UInt8) : (be16 hi lo).toNat = hi.toNat * 256 + lo.toNat := by
  have hlo : lo.toNat < 2 ^ 8 := lo.toNat_lt
  have hhi : hi.toNat < 256 := hi.toNat_lt
  have hshift : hi.toNat <<< 8 % 2 ^ 16 = hi.toNat <<< 8 := by
    rw [Nat.shiftLeft_eq]
    omega
  simp only [be16, UInt16.toNat_or, UInt16.toNat_shiftLeft, UInt8.toNat_toUInt16,
    UInt16.reduceToNat, Nat.reduceMod, hshift]
  rw [← Nat.shiftLeft_add_eq_or_of_lt hlo, Nat.shiftLeft_eq]

theorem be16_crcHi_crcLo (c : UInt16) : be16 (crcHi c) (crcLo c) = c := by
  apply UInt16.toNat_inj.mp
  rw [be16_toNat, crcHi_toNat, crcLo_toNat]
  omega

theorem be16_eq_iff (hi lo : UInt8) (c : UInt16) :
    be16 hi lo = c ↔ hi = crcHi c ∧ lo = crcLo c := by
  constructor
  · rintro rfl
    have hlo : lo.toNat < 256 := lo.toNat_lt
    refine ⟨UInt8.toNat_inj.mp ?_, UInt8.toNat_inj.mp ?_⟩
    · rw [crcHi_toNat, be16_toNat]
      omega
    · rw [crcLo_toNat, be16_toNat]
      omega
  · rintro ⟨rfl, rfl⟩
    exact be16_crcHi_crcLo c

/-! ### A reference service

The service as documented by Zephyr: reflected polynomials `0x8408` and
`0xEDB88320`; the 32-bit update complements its argument and its result. -/

/-- `n` shifts of a reflected 16-bit CRC register. -/
def shift16 : ℕ → UInt16 → UInt16
  | 0, c => c
  | n + 1, c => shift16 n (if c &&& 1 = 1 then (c >>> 1) ^^^ 0x8408 else c >>> 1)

def shift32 : ℕ → UInt32 → UInt32
  | 0, c => c
  | n + 1, c => shift32 n (if c &&& 1 = 1 then (c >>> 1) ^^^ 0xEDB88320 else c >>> 1)

/-- The service as Zephyr documents it. -/
def referenceCrc : CrcService where
  crc16Ccitt seed buf := buf.foldl (fun c b => shift16 8 (c ^^^ b.toUInt16)) seed
  crc32Ieee buf := buf.foldl (fun c b => shift32 8 (c ^^^ b.toUInt32)) 0xFFFFFFFF ^^^ 0xFFFFFFFF
  crc32IeeeUpdate c buf :=
    buf.foldl (fun c b => shift32 8 (c ^^^ b.toUInt32)) (c ^^^ 0xFFFFFFFF) ^^^ 0xFFFFFFFF

/-- The 16-bit register behind some bytes, its value computed after every byte. -/
def register16 : List UInt8 → ℕ → ℕ
  | [], c => c
  | b :: bs, c =>
    match (shift16 8 (UInt16.ofNat c ^^^ b.toUInt16)).toNat with
    | 0 => register16 bs 0
    | n + 1 => register16 bs (n + 1)

theorem modemCrc16_reference (bs : List UInt8) :
    modemCrc16 referenceCrc bs = UInt16.ofNat (register16 bs 0xFFFF) := by
  have hfold : ∀ (bs : List UInt8) (c : UInt16), UInt16.ofNat (register16 bs c.toNat) =
      bs.foldl (fun c b => shift16 8 (c ^^^ b.toUInt16)) c := by
    intro bs
    induction bs with
    | nil => exact fun c => UInt16.ofNat_toNat
    | cons b bs ih =>
      intro c
      have hstep : register16 (b :: bs) c.toNat =
          register16 bs (shift16 8 (c ^^^ b.toUInt16)).toNat := by
        rw [register16, UInt16.ofNat_toNat]
        cases (shift16 8 (c ^^^ b.toUInt16)).toNat <;> rfl
      rw [hstep, ih, List.foldl_cons]
  exact (hfold bs 0xFFFF).symm

example : modemChecksum8 [0x31, 0x32, 0x33, 0x34, 0x35, 0x36, 0x37, 0x38, 0x39] = 0xDD := by
  decide

example : modemCrc32 referenceCrc [0x31, 0x32, 0x33, 0x34, 0x35, 0x36, 0x37, 0x38, 0x39]
    = 0xCBF43926 := by
  decide +kernel

end ZephyrModem
