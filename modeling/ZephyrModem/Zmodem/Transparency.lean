import ZephyrModem.Zmodem.Units

/-!
# Flow control

What `send_binary_header_tx` and `send_subpacket_tx` put on a line on which XON and
XOFF are not data. Four bytes would be mistaken for them, with or without the parity
bit: 0x11, 0x13, 0x91 and 0x93. `send_zdle_byte_tx` escapes the first two.
-/

namespace ZephyrModem.Zmodem

variable (crc : CrcService)

/-- XON or XOFF to a line that ignores the parity bit. -/
def IsFlow (b : Byte) : Prop := b &&& 0x7F = 0x11 ∨ b &&& 0x7F = 0x13

instance : DecidablePred IsFlow := fun b =>
  inferInstanceAs (Decidable (b &&& 0x7F = 0x11 ∨ b &&& 0x7F = 0x13))

/-- The second bytes of escape pairs. -/
def IsEscapeCode (b : Byte) : Prop :=
  b ^^^ 0x40 = zdle ∨ b ^^^ 0x40 = 0x11 ∨ b ^^^ 0x40 = 0x13 ∨ b ^^^ 0x40 = 0x81 ∨ b ^^^ 0x40 = 0x83

instance : DecidablePred IsEscapeCode := fun b =>
  inferInstanceAs (Decidable (b ^^^ 0x40 = zdle ∨ b ^^^ 0x40 = 0x11 ∨ b ^^^ 0x40 = 0x13 ∨
    b ^^^ 0x40 = 0x81 ∨ b ^^^ 0x40 = 0x83))

/-- Every ZDLE starts an escape pair or a pair with `mark`. -/
inductive Paired (mark : Byte) : List Byte → Prop where
  | nil : Paired mark []
  | plain {b : Byte} {bs : List Byte} (hb : b ≠ zdle) (h : Paired mark bs) : Paired mark (b :: bs)
  | pair {b : Byte} {bs : List Byte} (hb : b ≠ zdle) (hmark : b = mark ∨ IsEscapeCode b)
    (h : Paired mark bs) : Paired mark (zdle :: b :: bs)

/-- `bs` passes a line with software flow control; `mark` starts or ends its frame. -/
structure Transparent (mark : Byte) (bs : List Byte) : Prop where
  noFlow : ∀ b ∈ bs, ¬ IsFlow b
  paired : Paired mark bs

namespace Paired

variable {mark : Byte} {as bs : List Byte}

theorem append (has : Paired mark as) (hbs : Paired mark bs) : Paired mark (as ++ bs) := by
  induction has with
  | nil => exact hbs
  | plain hb _ ih => exact .plain hb ih
  | pair hb hmark _ ih => exact .pair hb hmark ih

theorem of_plain {b : Byte} (hb : b ≠ zdle) (h : Paired mark (b :: bs)) : Paired mark bs := by
  cases h with
  | plain _ h => exact h
  | pair => exact absurd rfl hb

theorem of_pair {b : Byte} (h : Paired mark (zdle :: b :: bs)) :
    b ≠ zdle ∧ Paired mark bs := by
  cases h with
  | plain hz => exact absurd rfl hz
  | pair hb _ h => exact ⟨hb, h⟩

theorem of_append (has : Paired mark as) (h : Paired mark (as ++ bs)) : Paired mark bs := by
  induction has with
  | nil => exact h
  | plain hb _ ih => exact ih (of_plain hb h)
  | pair _ _ _ ih => exact ih (of_pair h).2

theorem zdleByte (mark b : Byte) : Paired mark (zdleByte b) := by
  by_cases h : b = zdle ∨ b = 0x11 ∨ b = 0x13 ∨ b = 0x81 ∨ b = 0x83
  · have hpair : Zmodem.zdleByte b = [zdle, b ^^^ 0x40] := if_pos h
    rw [hpair]
    refine .pair ?_ (.inr ?_) .nil
    · rcases h with rfl | rfl | rfl | rfl | rfl <;> decide
    · rcases h with rfl | rfl | rfl | rfl | rfl <;> decide
  · have hplain : Zmodem.zdleByte b = [b] := if_neg h
    rw [hplain]
    exact .plain (fun hb => h (.inl hb)) .nil

theorem flatMap_zdleByte (mark : Byte) (bs : List Byte) :
    Paired mark (bs.flatMap Zmodem.zdleByte) := by
  induction bs with
  | nil => exact .nil
  | cons b bs ih => exact (zdleByte mark b).append ih

end Paired

/-! ### Flow-control bytes -/

theorem isFlow_zdleByte_iff (b : Byte) :
    (∃ x ∈ zdleByte b, IsFlow x) ↔ b = 0x91 ∨ b = 0x93 := by
  have hall : ∀ n : Fin 256, (∃ x ∈ zdleByte (UInt8.ofNat n), IsFlow x) ↔
      UInt8.ofNat n = 0x91 ∨ UInt8.ofNat n = 0x93 := by
    decide +kernel
  have hb := hall ⟨b.toNat, b.toNat_lt⟩
  simp only [UInt8.ofNat_toNat] at hb
  exact hb

theorem noFlow_flatMap_iff (bs : List Byte) :
    (∀ x ∈ bs.flatMap zdleByte, ¬ IsFlow x) ↔ 0x91 ∉ bs ∧ 0x93 ∉ bs := by
  constructor
  · intro h
    have hbyte : ∀ b ∈ bs, ¬ (b = 0x91 ∨ b = 0x93) := by
      intro b hb hflow
      obtain ⟨x, hx, hflow⟩ := (isFlow_zdleByte_iff b).mpr hflow
      exact h x (List.mem_flatMap.mpr ⟨b, hb, hx⟩) hflow
    exact ⟨fun hin => hbyte _ hin (.inl rfl), fun hin => hbyte _ hin (.inr rfl)⟩
  · rintro ⟨h91, h93⟩ x hx hflow
    obtain ⟨b, hb, hxb⟩ := List.mem_flatMap.mp hx
    rcases (isFlow_zdleByte_iff b).mp ⟨x, hxb, hflow⟩ with rfl | rfl
    · exact h91 hb
    · exact h93 hb

def headerBytes (type : Byte) (flags : List Byte) : List Byte :=
  let c := modemCrc16 crc (type :: flags)
  type :: flags ++ [crcHi c, crcLo c]

/-- The bytes of a subpacket before they are escaped, without its ender. -/
def subpacketBytes (buf : List Byte) (ender : Byte) : List Byte :=
  let c := modemCrc16Update crc (modemCrc16 crc buf) [ender]
  buf ++ [crcHi c, crcLo c]

theorem transparent_binaryHeader_iff (type : Byte) (flags : List Byte) :
    Transparent zbin (binaryHeader crc type flags) ↔
      0x91 ∉ headerBytes crc type flags ∧ 0x93 ∉ headerBytes crc type flags := by
  have hbytes : binaryHeader crc type flags =
      [zpad, zdle, zbin] ++ (headerBytes crc type flags).flatMap zdleByte := by
    simp [binaryHeader, headerBytes, zdleCrc]
  rw [hbytes, ← noFlow_flatMap_iff]
  constructor
  · intro h x hx
    exact h.noFlow x (List.mem_append_right _ hx)
  · intro h
    refine ⟨?_, ?_⟩
    · intro x hx
      rcases List.mem_append.mp hx with hx | hx
      · rw [List.mem_cons, List.mem_cons, List.mem_singleton] at hx
        rcases hx with rfl | rfl | rfl
        · decide
        · decide
        · decide
      · exact h x hx
    · exact .plain (by decide) (.pair (by decide) (.inl rfl) (.flatMap_zdleByte zbin _))

theorem transparent_subpacket_iff (buf : List Byte) (ender : Byte) :
    Transparent ender (subpacket crc buf ender) ↔
      (0x91 ∉ subpacketBytes crc buf ender ∧ 0x93 ∉ subpacketBytes crc buf ender) ∧
        ¬ IsFlow ender ∧ ender ≠ zdle := by
  let c := modemCrc16Update crc (modemCrc16 crc buf) [ender]
  have hbytes : subpacket crc buf ender = buf.flatMap zdleByte ++
      zdle :: ender :: [crcHi c, crcLo c].flatMap zdleByte := by
    simp [subpacket, zdleCrc, c]
  have hdata : (subpacketBytes crc buf ender).flatMap zdleByte =
      buf.flatMap zdleByte ++ [crcHi c, crcLo c].flatMap zdleByte := List.flatMap_append
  have hpaired : Paired ender (subpacket crc buf ender) ↔ ender ≠ zdle := by
    have hbuf := Paired.flatMap_zdleByte ender buf
    have hcrc := Paired.flatMap_zdleByte ender [crcHi c, crcLo c]
    rw [hbytes]
    constructor
    · intro h
      exact (Paired.of_pair (hbuf.of_append h)).1
    · intro h
      exact hbuf.append (.pair h (.inl rfl) hcrc)
  have hflow : (∀ x ∈ subpacket crc buf ender, ¬ IsFlow x) ↔
      (∀ x ∈ (subpacketBytes crc buf ender).flatMap zdleByte, ¬ IsFlow x) ∧ ¬ IsFlow ender := by
    have hzdle : ¬ IsFlow zdle := by decide
    rw [hbytes, hdata]
    simp only [List.forall_mem_append, List.forall_mem_cons]
    constructor
    · rintro ⟨hbuf, -, hender, hcrc⟩
      exact ⟨⟨hbuf, hcrc⟩, hender⟩
    · rintro ⟨⟨hbuf, hcrc⟩, hender⟩
      exact ⟨hbuf, hzdle, hender, hcrc⟩
  rw [noFlow_flatMap_iff] at hflow
  constructor
  · intro h
    obtain ⟨hbytes, hender⟩ := hflow.mp h.noFlow
    exact ⟨hbytes, hender, hpaired.mp h.paired⟩
  · rintro ⟨hbytes, hender, hz⟩
    exact ⟨hflow.mpr ⟨hbytes, hender⟩, hpaired.mpr hz⟩

/-- A header or subpacket is transparent exactly if no byte of it that goes through
`send_zdle_byte_tx` is XON or XOFF with the parity bit set, and its ender is no control
byte of the line. -/
theorem flow_transparent_iff :
    (∀ (type : Byte) (flags : List Byte), Transparent zbin (binaryHeader crc type flags) ↔
      0x91 ∉ headerBytes crc type flags ∧ 0x93 ∉ headerBytes crc type flags) ∧
    ∀ (buf : List Byte) (ender : Byte), Transparent ender (subpacket crc buf ender) ↔
      (0x91 ∉ subpacketBytes crc buf ender ∧ 0x93 ∉ subpacketBytes crc buf ender) ∧
        ¬ IsFlow ender ∧ ender ≠ zdle :=
  ⟨transparent_binaryHeader_iff crc, transparent_subpacket_iff crc⟩

/-- The payload 0x91 goes out as it is. -/
theorem subpacket_not_transparent :
    ¬ ((∀ (type : Byte) (flags : List Byte), flags.length = 4 →
        Transparent zbin (binaryHeader referenceCrc type flags)) ∧
      ∀ (buf : List Byte) (ender : Byte), IsFrameEnd ender →
        Transparent ender (subpacket referenceCrc buf ender)) := by
  rintro ⟨-, h⟩
  have hsent : (0x91 : Byte) ∈ subpacket referenceCrc [0x91] zcrcw := by decide +kernel
  exact (h [0x91] zcrcw (by decide)).noFlow 0x91 hsent (by decide)

end ZephyrModem.Zmodem
