import Mathlib.Algebra.Group.Nat.Defs
import ZephyrModem.Reactive.Calls
import ZephyrModem.Zmodem.Codec

/-!
# Frames read back

Every frame that is sent is read back as it was: escaped bytes, both kinds of
headers, subpackets. What follows a hexadecimal header on the line is left
unread.
-/

namespace ZephyrModem.Zmodem
open ZephyrModem.Reactive ZephyrModem.Transfer

variable (crc : CrcService) (rub : Bool)

/-! ### Escaped bytes -/

theorem parse_zdleByte (b : Byte) (rest : List Byte) :
    parse (readZdleByte rub) (.wait false) (zdleByte b ++ rest) = (.done (.byte b), rest) := by
  by_cases h : b = zdle ∨ b = 0x11 ∨ b = 0x13 ∨ b = 0x81 ∨ b = 0x83
  · have hesc : zdleByte b = [zdle, b ^^^ 0x40] := if_pos h
    have hread : readZdleByte rub true (.ok (b ^^^ 0x40)) = .done (.byte b) := by
      rcases h with rfl | rfl | rfl | rfl | rfl <;> cases rub <;> decide
    have hzdle : readZdleByte rub false (.ok zdle) = .wait true := rfl
    rw [hesc, List.cons_append, List.singleton_append, parse_cons, hzdle, parse_cons, hread,
      parse_done]
  · have hplain : zdleByte b = [b] := if_neg h
    have hb : b ≠ zdle := fun hb => h (.inl hb)
    rw [hplain, List.singleton_append, parse_cons, readZdleByte, if_neg hb, parse_done]

/-- How a reader goes on with what `read_zdle_byte` returns. -/
def afterZdle {τ α : Type} (byte ender : Byte → Next τ (Option α)) : ZdleResult → Next τ (Option α)
  | .byte b => byte b
  | .ender b => ender b
  | .error => .done none
  | .cancel => .done none

/-! ### Binary headers -/

/-- What `read_header` does with one more byte of a binary header. -/
def binNext (crc32 : Bool) (buf : List Byte) (b : Byte) : Next HeaderSite (Option Header) :=
  if (buf ++ [b]).length < (if crc32 then 9 else 7) then .wait (.bin crc32 (buf ++ [b]) false)
  else .done (checkHeader crc crc32 (buf ++ [b]))

theorem readHeader_bin (crc32 : Bool) (buf : List Byte) (esc : Bool) (r : Read) :
    readHeader crc rub (.bin crc32 buf esc) r =
      (readZdleByte rub esc r).into (.bin crc32 buf)
        (afterZdle (binNext crc crc32 buf) (binNext crc crc32 buf)) := by
  simp only [readHeader]
  cases readZdleByte rub esc r with
  | wait esc => rfl
  | done z => cases z <;> rfl

theorem parse_bin_byte (crc32 : Bool) (buf : List Byte) (b : Byte) (rest : List Byte) :
    parse (readHeader crc rub) (.wait (.bin crc32 buf false)) (zdleByte b ++ rest) =
      parse (readHeader crc rub) (binNext crc crc32 buf b) rest := by
  rw [parse_into (readHeader crc rub) (.bin crc32 buf) _ (readHeader_bin crc rub crc32 buf)
    (parse_zdleByte rub b rest)]
  rfl

theorem parse_bin_bytes (crc32 : Bool) (buf bs rest : List Byte)
    (h : buf.length + bs.length < if crc32 then 9 else 7) :
    parse (readHeader crc rub) (.wait (.bin crc32 buf false)) (bs.flatMap zdleByte ++ rest) =
      parse (readHeader crc rub) (.wait (.bin crc32 (buf ++ bs) false)) rest := by
  induction bs generalizing buf with
  | nil => simp
  | cons b bs ih =>
    rw [List.length_cons] at h
    have hmore : binNext crc crc32 buf b = .wait (.bin crc32 (buf ++ [b]) false) := by
      refine if_pos ?_
      rw [List.length_append, List.length_singleton]
      omega
    rw [List.flatMap_cons, List.append_assoc, parse_bin_byte, hmore, ih (buf ++ [b])]
    · simp
    · rw [List.length_append, List.length_singleton]
      omega

theorem checkHeader_sent (type : Byte) (flags : List Byte) (h : flags.length = 4) :
    checkHeader crc false (type :: flags ++ [crcHi (modemCrc16 crc (type :: flags)),
      crcLo (modemCrc16 crc (type :: flags))]) = some ⟨type, flags, false⟩ := by
  have hlen : (type :: flags).length = 5 := by rw [List.length_cons, h]
  unfold checkHeader
  simp only [List.take_left' hlen, List.drop_left' hlen, rxCrc16, be16_crcHi_crcLo]
  rfl

theorem parse_binaryHeader (type : Byte) (flags rest : List Byte) (h : flags.length = 4) :
    parse (readHeader crc rub) (.wait .pad) (binaryHeader crc type flags ++ rest) =
      (.done (some ⟨type, flags, false⟩), rest) := by
  have hopen : ∀ bs, parse (readHeader crc rub) (.wait .pad) (zpad :: zdle :: zbin :: bs) =
      parse (readHeader crc rub) (.wait (.bin false [] false)) bs := by
    intro bs
    rfl
  have hbytes : binaryHeader crc type flags ++ rest = zpad :: zdle :: zbin ::
      ((type :: flags ++ [crcHi (modemCrc16 crc (type :: flags))]).flatMap zdleByte ++
        (zdleByte (crcLo (modemCrc16 crc (type :: flags))) ++ rest)) := by
    simp [binaryHeader, zdleCrc]
  have hlast : binNext crc false (type :: flags ++ [crcHi (modemCrc16 crc (type :: flags))])
      (crcLo (modemCrc16 crc (type :: flags))) = .done (some ⟨type, flags, false⟩) := by
    unfold binNext
    rw [if_neg (by simp [h]), List.append_assoc]
    exact congrArg Next.done (checkHeader_sent crc type flags h)
  rw [hbytes, hopen, parse_bin_bytes crc rub false [] _ _ (by simp [h]), List.nil_append,
    parse_bin_byte, hlast, parse_done]

/-! ### Hexadecimal headers -/

theorem hexBytes_hexByte (b : Byte) (rest : List Byte) :
    hexBytes (hexByte b ++ rest) = (hexBytes rest).map (b :: ·) := by
  have hall : ∀ n : Fin 256,
      hexToNibble (hexDigits.getD ((UInt8.ofNat n >>> 4) &&& 0x0F).toNat 0) =
          some ((UInt8.ofNat n >>> 4) &&& 0x0F) ∧
        hexToNibble (hexDigits.getD (UInt8.ofNat n &&& 0x0F).toNat 0) =
          some (UInt8.ofNat n &&& 0x0F) ∧
        (((UInt8.ofNat n >>> 4) &&& 0x0F) <<< 4 ||| (UInt8.ofNat n &&& 0x0F)) = UInt8.ofNat n := by
    decide +kernel
  obtain ⟨hhi, hlo, hboth⟩ := hall ⟨b.toNat, b.toNat_lt⟩
  simp only [UInt8.ofNat_toNat] at hhi hlo hboth
  rw [hexByte, List.cons_append, List.singleton_append, hexBytes, hhi, hlo]
  simp only [Option.bind_eq_bind, Option.bind_some, hboth]
  cases hexBytes rest <;> rfl

theorem hexBytes_flatMap (bs : List Byte) : hexBytes (bs.flatMap hexByte) = some bs := by
  induction bs with
  | nil => rfl
  | cons b bs ih => rw [List.flatMap_cons, hexBytes_hexByte, ih, Option.map_some]

theorem length_flatMap_hexByte (bs : List Byte) : (bs.flatMap hexByte).length = 2 * bs.length := by
  induction bs with
  | nil => rfl
  | cons b bs ih =>
    rw [List.flatMap_cons, List.length_append, ih, List.length_cons]
    change 2 + _ = _
    omega

theorem parse_hex_bytes (buf bs rest : List Byte) (h : buf.length + bs.length < 14) :
    parse (readHeader crc rub) (.wait (.hex buf)) (bs ++ rest) =
      parse (readHeader crc rub) (.wait (.hex (buf ++ bs))) rest := by
  induction bs generalizing buf with
  | nil => simp
  | cons b bs ih =>
    rw [List.length_cons] at h
    have hmore : (buf ++ [b]).length < 14 := by
      rw [List.length_append, List.length_singleton]
      omega
    have hstep : readHeader crc rub (.hex buf) (.ok b) = .wait (.hex (buf ++ [b])) := if_pos hmore
    rw [List.cons_append, parse_cons, hstep, ih (buf ++ [b])]
    · simp
    · rw [List.length_append, List.length_singleton]
      omega

def hexTrailer (type : Byte) : List Byte :=
  [0x0D, 0x0A] ++ if type ≠ zfin ∧ type ≠ zack then [0x11] else []

def headerDigits (type : Byte) (flags : List Byte) : List Byte :=
  (type :: flags ++ [crcHi (modemCrc16 crc (type :: flags)),
    crcLo (modemCrc16 crc (type :: flags))]).flatMap hexByte

theorem hexHeader_eq (type : Byte) (flags : List Byte) :
    hexHeader crc type flags =
      zpad :: zpad :: zdle :: zhex :: (headerDigits crc type flags ++ hexTrailer type) := by
  simp [hexHeader, headerDigits, hexTrailer]

theorem parse_hexHeader (type : Byte) (flags rest : List Byte) (h : flags.length = 4) :
    parse (readHeader crc rub) (.wait .pad) (hexHeader crc type flags ++ rest) =
      (.done (some ⟨type, flags, false⟩), hexTrailer type ++ rest) := by
  have hopen : ∀ bs, parse (readHeader crc rub) (.wait .pad) (zpad :: zpad :: zdle :: zhex :: bs) =
      parse (readHeader crc rub) (.wait (.hex [])) bs := by
    intro bs
    rfl
  have hlen : (headerDigits crc type flags).length = 14 := by
    unfold headerDigits
    rw [length_flatMap_hexByte]
    simp [h]
  obtain ⟨ds, d, hds⟩ : ∃ ds d, headerDigits crc type flags = ds ++ [d] := by
    have hne : headerDigits crc type flags ≠ [] := by
      intro hnil
      rw [hnil] at hlen
      cases hlen
    exact ⟨_, _, (List.dropLast_append_getLast hne).symm⟩
  have hdslen : ds.length = 13 := by
    rw [hds, List.length_append, List.length_singleton] at hlen
    omega
  have hlast : readHeader crc rub (.hex ds) (.ok d) = .done (some ⟨type, flags, false⟩) := by
    have hfull : ¬ (ds ++ [d]).length < 14 := by
      rw [List.length_append, List.length_singleton]
      omega
    have hvalue : hexBytes (ds ++ [d]) = some (type :: flags ++
        [crcHi (modemCrc16 crc (type :: flags)), crcLo (modemCrc16 crc (type :: flags))]) := by
      rw [← hds]
      exact hexBytes_flatMap _
    simp only [readHeader, if_neg hfull, hvalue, Option.bind_some, checkHeader_sent crc type flags h]
  rw [hexHeader_eq, hds]
  simp only [List.cons_append, List.append_assoc, List.nil_append]
  rw [hopen, parse_hex_bytes crc rub [] ds _ (by rw [hdslen]; decide), List.nil_append, parse_cons,
    hlast, parse_done]

theorem parse_skip (bs rest : List Byte) (h : zpad ∉ bs) :
    parse (readHeader crc rub) (.wait .pad) (bs ++ rest) =
      parse (readHeader crc rub) (.wait .pad) rest := by
  induction bs with
  | nil => rfl
  | cons b bs ih =>
    have hb : b ≠ zpad := by
      rintro rfl
      exact h (List.mem_cons_self ..)
    have hstep : readHeader crc rub .pad (.ok b) = .wait .pad := if_neg hb
    rw [List.cons_append, parse_cons, hstep, ih fun hin => h (List.mem_cons_of_mem b hin)]

theorem zpad_notMem_hexTrailer (type : Byte) : zpad ∉ hexTrailer type := by
  unfold hexTrailer
  split <;> decide

/-! ### Subpackets -/

/-- The enders that `zmodem_transmit` uses. -/
def IsEnder (ender : Byte) : Prop := ender = zcrcg ∨ ender = zcrcw

/-- What `read_subpacket_rx` does with one more byte of data. -/
def dataNext (maxLen : ℕ) (buf : List Byte) (b : Byte) : Next PacketSite (Option (List Byte × Byte)) :=
  if buf.length < maxLen then .wait (.data (buf ++ [b]) false) else .done none

theorem readSubpacketRx_data (isCrc32 : Bool) (maxLen : ℕ) (buf : List Byte) (esc : Bool) (r : Read) :
    readSubpacketRx crc maxLen isCrc32 (.data buf esc) r =
      (readZdleByteRx esc r).into (.data buf)
        (afterZdle (dataNext maxLen buf) fun ender => .wait (.check buf ender [] false)) := by
  simp only [readSubpacketRx]
  cases readZdleByteRx esc r with
  | wait esc => rfl
  | done z => cases z <;> rfl

theorem parse_packet_data (isCrc32 : Bool) (maxLen : ℕ) (buf bs rest : List Byte)
    (h : buf.length + bs.length ≤ maxLen) :
    parse (readSubpacketRx crc maxLen isCrc32) (.wait (.data buf false))
        (bs.flatMap zdleByte ++ rest) =
      parse (readSubpacketRx crc maxLen isCrc32) (.wait (.data (buf ++ bs) false)) rest := by
  induction bs generalizing buf with
  | nil => simp
  | cons b bs ih =>
    rw [List.length_cons] at h
    have hbyte : dataNext maxLen buf b = .wait (.data (buf ++ [b]) false) := if_pos (by omega)
    rw [List.flatMap_cons, List.append_assoc, parse_into (readSubpacketRx crc maxLen isCrc32)
      (.data buf) _ (readSubpacketRx_data crc isCrc32 maxLen buf) (parse_zdleByte true b _)]
    simp only [afterZdle, hbyte]
    rw [ih (buf ++ [b]) (by rw [List.length_append, List.length_singleton]; omega)]
    simp

/-- What `read_subpacket_rx` does with one more byte of the CRC. -/
def checkNext (isCrc32 : Bool) (buf : List Byte) (ender : Byte) (c : List Byte) :
    Next PacketSite (Option (List Byte × Byte)) :=
  if c.length < (if isCrc32 then 4 else 2) then .wait (.check buf ender c false)
  else if checkSubpacket crc isCrc32 buf ender c then .done (some (buf, ender))
  else .done none

theorem readSubpacketRx_check (isCrc32 : Bool) (maxLen : ℕ) (buf : List Byte) (ender : Byte)
    (c : List Byte) (esc : Bool) (r : Read) :
    readSubpacketRx crc maxLen isCrc32 (.check buf ender c esc) r =
      (readZdleByteRx esc r).into (.check buf ender c)
        (afterZdle (fun b => checkNext crc isCrc32 buf ender (c ++ [b]))
          fun b => checkNext crc isCrc32 buf ender (c ++ [b])) := by
  simp only [readSubpacketRx]
  cases readZdleByteRx esc r with
  | wait esc => rfl
  | done z => cases z <;> rfl

theorem parse_check_byte (isCrc32 : Bool) (maxLen : ℕ) (buf : List Byte) (ender : Byte)
    (c : List Byte) (b : Byte) (rest : List Byte) :
    parse (readSubpacketRx crc maxLen isCrc32) (.wait (.check buf ender c false))
        (zdleByte b ++ rest) =
      parse (readSubpacketRx crc maxLen isCrc32) (checkNext crc isCrc32 buf ender (c ++ [b])) rest := by
  rw [parse_into (readSubpacketRx crc maxLen isCrc32) (.check buf ender c) _
    (readSubpacketRx_check crc isCrc32 maxLen buf ender c) (parse_zdleByte true b rest)]
  rfl

theorem parse_packet_check (isCrc32 : Bool) (maxLen : ℕ) (buf : List Byte) (ender : Byte)
    (c bs rest : List Byte) (hne : bs ≠ [])
    (hlen : (c ++ bs).length = if isCrc32 then 4 else 2)
    (h : checkSubpacket crc isCrc32 buf ender (c ++ bs) = true) :
    parse (readSubpacketRx crc maxLen isCrc32) (.wait (.check buf ender c false))
      (bs.flatMap zdleByte ++ rest) = (.done (some (buf, ender)), rest) := by
  induction bs generalizing c with
  | nil => exact absurd rfl hne
  | cons b bs ih =>
    rw [List.flatMap_cons, List.append_assoc, parse_check_byte]
    by_cases hlast : bs = []
    · subst hlast
      have hdone : checkNext crc isCrc32 buf ender (c ++ [b]) = .done (some (buf, ender)) := by
        rw [checkNext, if_neg (by omega), h, if_pos rfl]
      rw [hdone, parse_done]
      rfl
    · have hmore : checkNext crc isCrc32 buf ender (c ++ [b]) =
          .wait (.check buf ender (c ++ [b]) false) := by
        have hpos : 0 < bs.length := List.length_pos_of_ne_nil hlast
        refine if_pos ?_
        rw [← hlen]
        simp only [List.length_append, List.length_cons, List.length_nil]
        omega
      have hsame : c ++ [b] ++ bs = c ++ b :: bs := by simp
      rw [hmore, ih (c ++ [b]) hlast (by rw [hsame, hlen]) (by rw [hsame, h])]

/-- A subpacket as any peer may send it, with the bytes `c` of its CRC. -/
theorem parse_subpacket_check (isCrc32 : Bool) (maxLen : ℕ) (buf rest : List Byte) (ender : Byte)
    (he : IsEnder ender) (c : List Byte) (h : buf.length ≤ maxLen)
    (hlen : c.length = if isCrc32 then 4 else 2)
    (hc : checkSubpacket crc isCrc32 buf ender c = true) :
    parse (readSubpacketRx crc maxLen isCrc32) (.wait (.data [] false))
        (buf.flatMap zdleByte ++ (zdle :: ender :: (c.flatMap zdleByte ++ rest))) =
      (.done (some (buf, ender)), rest) := by
  have hender : ∀ rest, parse (readSubpacketRx crc maxLen isCrc32) (.wait (.data buf false))
      (zdle :: ender :: rest) =
        parse (readSubpacketRx crc maxLen isCrc32) (.wait (.check buf ender [] false)) rest := by
    intro rest
    rcases he with rfl | rfl <;> rfl
  have hne : c ≠ [] := by
    rintro rfl
    cases isCrc32 <;> simp at hlen
  rw [parse_packet_data crc isCrc32 maxLen [] buf _ (by simpa using h), List.nil_append, hender,
    parse_packet_check crc isCrc32 maxLen buf ender [] c rest hne hlen hc]

theorem parse_subpacket (maxLen : ℕ) (buf rest : List Byte) (ender : Byte) (he : IsEnder ender)
    (h : buf.length ≤ maxLen) :
    parse (readSubpacketRx crc maxLen false) (.wait (.data [] false))
        (subpacket crc buf ender ++ rest) = (.done (some (buf, ender)), rest) := by
  let c := modemCrc16Update crc (modemCrc16 crc buf) [ender]
  have hbytes : subpacket crc buf ender ++ rest = buf.flatMap zdleByte ++ (zdle :: ender ::
      ([crcHi c, crcLo c].flatMap zdleByte ++ rest)) := by
    simp [subpacket, zdleCrc, c]
  have hcheck : checkSubpacket crc false buf ender [crcHi c, crcLo c] = true := by
    simp [checkSubpacket, rxCrc16, be16_crcHi_crcLo, c]
  rw [hbytes]
  exact parse_subpacket_check crc false maxLen buf rest ender he _ h rfl hcheck

/-! ### CRCs of any peer -/

theorem or_shiftLeft {a b i : ℕ} (h : b < 2 ^ i) : b ||| a <<< i = a * 2 ^ i + b := by
  rw [Nat.or_comm, ← Nat.shiftLeft_add_eq_or_of_lt h, Nat.shiftLeft_eq]

theorem shiftLeft_mod {x : ℕ} (k : ℕ) (hx : x < 2 ^ 8) (hk : k ≤ 24) : x <<< k % 2 ^ 32 = x <<< k := by
  refine Nat.mod_eq_of_lt ?_
  rw [Nat.shiftLeft_eq]
  calc x * 2 ^ k < 2 ^ 8 * 2 ^ k := Nat.mul_lt_mul_of_pos_right hx (Nat.two_pow_pos k)
    _ = 2 ^ (8 + k) := (Nat.pow_add 2 8 k).symm
    _ ≤ 2 ^ 32 := Nat.pow_le_pow_right (by decide) (by omega)

theorem byte_mul_add_lt {n x i : ℕ} (hn : n < 2 ^ 8) (hx : x < 2 ^ i) :
    n * 2 ^ i + x < 2 ^ (8 + i) :=
  calc n * 2 ^ i + x < n * 2 ^ i + 2 ^ i := Nat.add_lt_add_left hx _
    _ = (n + 1) * 2 ^ i := (Nat.succ_mul n _).symm
    _ ≤ 2 ^ 8 * 2 ^ i := Nat.mul_le_mul_right _ hn
    _ = 2 ^ (8 + i) := (Nat.pow_add 2 8 i).symm

theorem toNat_rxCrc32 (c0 c1 c2 c3 : Byte) (more : List Byte) :
    (rxCrc32 (c0 :: c1 :: c2 :: c3 :: more)).toNat =
      c3.toNat * 2 ^ 24 + (c2.toNat * 2 ^ 16 + (c1.toNat * 2 ^ 8 + c0.toNat)) := by
  have h0 : c0.toNat < 2 ^ 8 := c0.toNat_lt
  have h1 : c1.toNat < 2 ^ 8 := c1.toNat_lt
  have h2 : c2.toNat < 2 ^ 8 := c2.toNat_lt
  have h3 : c3.toNat < 2 ^ 8 := c3.toNat_lt
  simp only [rxCrc32, UInt32.toNat_or, UInt32.toNat_shiftLeft, UInt8.toNat_toUInt32,
    UInt32.reduceToNat, Nat.reduceMod]
  rw [shiftLeft_mod 8 h1 (by decide), shiftLeft_mod 16 h2 (by decide),
    shiftLeft_mod 24 h3 (by decide), or_shiftLeft h0, or_shiftLeft (byte_mul_add_lt h1 h0),
    or_shiftLeft (byte_mul_add_lt h2 (byte_mul_add_lt h1 h0))]

end ZephyrModem.Zmodem
