import ZephyrModem.Memory.Cursor
import ZephyrModem.Zmodem.Codec

/-!
# The buffer of a hexadecimal header (`src/zmodem.c`, lines 45-117)

`send_hex_header` and `send_hex_header_tx` build the frame in a local array of 20
bytes. The frame takes 21 of them when it ends in XON.
-/

namespace ZephyrModem.Zmodem
open ZephyrModem.Memory ZephyrModem.Transfer

variable (crc : CrcService)

/-- `uint8_t buf[20]`. -/
def hexBufSize : ℕ := 20

def putHex (s : Cursor Byte) (b : Byte) : Cursor Byte :=
  (s.put (hexDigits.getD ((b >>> 4) &&& 0x0F).toNat 0)).put (hexDigits.getD (b &&& 0x0F).toNat 0)

/-- The array as `send_hex_header` and `send_hex_header_tx` fill it. -/
def fillHexHeader (type : Byte) (flags : List Byte) : Cursor Byte :=
  let buf := (((Cursor.start.put zpad).put zpad).put zdle).put zhex
  let hbuf := type :: flags
  let buf := hbuf.foldl putHex buf
  let c := modemCrc16 crc hbuf
  let buf := [crcHi c, crcLo c].foldl putHex buf
  let buf := (buf.put 0x0D).put 0x0A
  if type ≠ zfin ∧ type ≠ zack then buf.put 0x11 else buf

theorem putHex_spec (s : Cursor Byte) (b : Byte) :
    (putHex s b).pos = s.pos + 2 ∧ (putHex s b).contents = s.contents ++ hexByte b := by
  simp [putHex, hexByte]

theorem contents_fillHexHeader (type : Byte) (flags : List Byte) :
    (fillHexHeader crc type flags).contents = hexHeader crc type flags := by
  have hdigits := fun bs s => (Cursor.foldl_spec putHex hexByte 2 putHex_spec bs s).2
  simp only [fillHexHeader, hexHeader]
  split <;> simp only [Cursor.contents_put, hdigits, Cursor.contents_start] <;> simp

theorem pos_fillHexHeader (type : Byte) (flags : List Byte) :
    (fillHexHeader crc type flags).pos =
      12 + 2 * flags.length + if type ≠ zfin ∧ type ≠ zack then 1 else 0 := by
  have hdigits := fun bs s => (Cursor.foldl_spec putHex hexByte 2 putHex_spec bs s).1
  simp only [fillHexHeader]
  split <;> simp only [Cursor.pos_put, hdigits, Cursor.pos_start, List.length_cons,
    List.length_nil] <;> omega

/-- The index at which the array is left, and what is stored there. -/
theorem store_past_end (type : Byte) (flags : List Byte) (h : flags.length = 4)
    (hxon : type ≠ zfin ∧ type ≠ zack) :
    (hexBufSize, 0x11) ∈ (fillHexHeader crc type flags).stores := by
  have hpos := pos_fillHexHeader crc type flags
  rw [if_pos hxon, h] at hpos
  simp only [fillHexHeader, if_pos hxon, Cursor.pos_put] at hpos ⊢
  apply List.mem_append_right
  rw [List.mem_singleton, Prod.mk.injEq]
  refine ⟨?_, rfl⟩
  rw [hexBufSize, Cursor.pos_put, Cursor.pos_put]
  omega

/-- What both functions hand to `write_bytes` is the array up to `pos`; they stay
inside it for the two types that are sent without XON and for no other. -/
theorem hexHeader_within_buf_iff (type f0 f1 f2 f3 : Byte) :
    let buf := fillHexHeader crc type [f0, f1, f2, f3]
    (sendHexHeader crc type [f0, f1, f2, f3] = writeBytes buf.contents ∧
      sendHexHeaderTx crc type [f0, f1, f2, f3] = writeBytes buf.contents ∧
      buf.contents.length = buf.pos) ∧
    ((buf.Within hexBufSize ∧ buf.pos ≤ hexBufSize) ↔ type = zfin ∨ type = zack) := by
  intro buf
  have hcontents : buf.contents = hexHeader crc type [f0, f1, f2, f3] :=
    contents_fillHexHeader crc type _
  refine ⟨⟨?_, ?_, buf.length_contents⟩, ?_⟩
  · rw [hcontents]
    rfl
  · rw [hcontents]
    rfl
  have hpos : buf.pos = 12 + 2 * 4 + if type ≠ zfin ∧ type ≠ zack then 1 else 0 :=
    pos_fillHexHeader crc type _
  rw [buf.within_iff, and_self, hexBufSize, hpos]
  by_cases hxon : type ≠ zfin ∧ type ≠ zack
  · rw [if_pos hxon]
    constructor
    · intro h
      omega
    · rintro (rfl | rfl)
      · exact absurd rfl hxon.1
      · exact absurd rfl hxon.2
  · rw [if_neg hxon]
    constructor
    · intro _
      by_cases hfin : type = zfin
      · exact .inl hfin
      · right
        by_contra hack
        exact hxon ⟨hfin, hack⟩
    · intro _
      omega

/-- ZRINIT with no flags: the XON goes to index 20. -/
theorem hexHeader_zrinit_past_end :
    ¬ ∀ type f0 f1 f2 f3 : Byte,
      (fillHexHeader referenceCrc type [f0, f1, f2, f3]).Within hexBufSize ∧
        (fillHexHeader referenceCrc type [f0, f1, f2, f3]).pos ≤ hexBufSize := by
  intro h
  have hstore := store_past_end referenceCrc zrinit [0, 0, 0, 0] rfl (by decide)
  have hlt : hexBufSize < hexBufSize := (h zrinit 0 0 0 0).1 _ hstore
  exact absurd hlt (Nat.lt_irrefl _)

end ZephyrModem.Zmodem
