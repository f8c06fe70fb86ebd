import Mathlib.Data.List.GetD
import Mathlib.Data.List.Induction
import ZephyrModem.Zmodem.Units

/-!
# Streams of headers

A header reader first scans for ZPAD, ZDLE and a format byte and then reads the
body. The scan takes ZPADs in groups of three, so that whether a frame is found
depends on how many of them stand directly before it.
-/

namespace ZephyrModem.Zmodem
open ZephyrModem.Reactive ZephyrModem.Transfer

variable (crc : CrcService) (rub : Bool)

/-! ### What is sent -/

structure SentHeader where
  type : Byte
  flags : List Byte
  length_flags : flags.length = 4

def SentHeader.received (h : SentHeader) : Header := ⟨h.type, h.flags, false⟩

inductive HeaderSender where
  | hex         -- `send_hex_header`
  | hexTx       -- `send_hex_header_tx`
  | binaryTx    -- `send_binary_header_tx`
  deriving Repr, DecidableEq

/-- What a sender puts on the line. -/
def HeaderSender.frame (h : SentHeader) : HeaderSender → List Byte
  | .hex => (sendHexHeader crc h.type h.flags).filterMap Event.wire
  | .hexTx => (sendHexHeaderTx crc h.type h.flags).filterMap Event.wire
  | .binaryTx => binaryHeader crc h.type h.flags

/-- What a reader leaves of a frame. -/
def HeaderSender.trailer (h : SentHeader) : HeaderSender → List Byte
  | .hex | .hexTx => hexTrailer h.type
  | .binaryTx => []

theorem zpad_notMem_trailer (h : SentHeader) (s : HeaderSender) : zpad ∉ s.trailer h := by
  cases s with
  | hex => exact zpad_notMem_hexTrailer h.type
  | hexTx => exact zpad_notMem_hexTrailer h.type
  | binaryTx => exact List.not_mem_nil

theorem parse_frame (h : SentHeader) (s : HeaderSender) (rest : List Byte) :
    parse (readHeader crc rub) (.wait .pad) (s.frame crc h ++ rest) =
      (.done (some h.received), s.trailer h ++ rest) := by
  cases s with
  | hex =>
    rw [HeaderSender.frame, sendHexHeader, wire_writeBytes]
    exact parse_hexHeader crc rub h.type h.flags rest h.length_flags
  | hexTx =>
    rw [HeaderSender.frame, sendHexHeaderTx, wire_writeBytes]
    exact parse_hexHeader crc rub h.type h.flags rest h.length_flags
  | binaryTx => exact parse_binaryHeader crc rub h.type h.flags rest h.length_flags

theorem calls_readHeader (hs : List (HeaderSender × SentHeader)) (rest : List Byte) :
    calls (readHeader crc rub) .pad hs.length (hs.flatMap (fun h => h.1.frame crc h.2) ++ rest) =
      (hs.map fun h => .done (some h.2.received),
        (hs.getLast?.map fun h => h.1.trailer h.2).getD [] ++ rest) := by
  refine calls_flatMap (fun h => h.1.frame crc h.2) (fun h => some h.2.received)
    (fun h => h.1.trailer h.2) (fun bs => zpad ∉ bs) ?_ ?_ hs [] rest List.not_mem_nil
  · intro h
    exact zpad_notMem_trailer h.2 h.1
  · intro bs h rest hbs
    rw [parse_skip crc rub bs _ hbs]
    exact parse_frame crc rub h.2 h.1 rest

/-- Each call returns the next header; of all trailers only the last one is left. -/
theorem calls_headers (hs : List (HeaderSender × SentHeader)) :
    calls (readHeaderRx crc) .pad hs.length (hs.flatMap fun h => h.1.frame crc h.2) =
        (hs.map fun h => .done (some h.2.received),
          (hs.getLast?.map fun h => h.1.trailer h.2).getD []) ∧
      calls (readHeaderTx crc) .pad hs.length (hs.flatMap fun h => h.1.frame crc h.2) =
        (hs.map fun h => .done (some h.2.received),
          (hs.getLast?.map fun h => h.1.trailer h.2).getD []) := by
  have hrx := calls_readHeader crc true hs []
  have htx := calls_readHeader crc false hs []
  rw [List.append_nil, List.append_nil] at hrx htx
  exact ⟨hrx, htx⟩

/-! ### The scan -/

/-- How much of a frame's start the scan has seen. -/
inductive ScanSite where
  | pad
  | padOrZdle
  | zdle
  | format
  deriving Repr, DecidableEq

def ScanSite.toHeaderSite : ScanSite → HeaderSite
  | .pad => .pad
  | .padOrZdle => .padOrZdle
  | .zdle => .zdle
  | .format => .format

/-- The scan; its value is the format byte, or `none` where a read fails. -/
def scanHeader : Reader Read ScanSite (Option Byte) := fun s r =>
  match s, r with
  | .pad, .ok b => if b = zpad then .wait .padOrZdle else .wait .pad
  | .padOrZdle, .ok b =>
    if b = zpad then .wait .zdle else if b = zdle then .wait .format else .wait .pad
  | .zdle, .ok b => if b = zdle then .wait .format else .wait .pad
  | .format, .ok b => if b = zhex ∨ b = zbin ∨ b = zbin32 then .done (some b) else .wait .pad
  | _, _ => .done none

def bodySite (format : Byte) : HeaderSite :=
  if format = zhex then .hex [] else .bin (format = zbin32) [] false

def afterScan : Option Byte → Next HeaderSite (Option Header)
  | none => .done none
  | some format => .wait (bodySite format)

theorem readHeader_scan (s : ScanSite) (r : Read) :
    readHeader crc rub s.toHeaderSite r =
      (scanHeader s r).into ScanSite.toHeaderSite afterScan := by
  cases r with
  | timeout => cases s <;> rfl
  | cancel => cases s <;> rfl
  | ok b =>
    cases s with
    | pad =>
      show (if b = zpad then _ else _) = _
      simp only [scanHeader]
      split <;> rfl
    | padOrZdle =>
      show (if b = zpad then _ else if b = zdle then _ else _) = _
      simp only [scanHeader]
      split <;> [rfl; split <;> rfl]
    | zdle =>
      show (if b = zdle then _ else _) = _
      simp only [scanHeader]
      split <;> rfl
    | format =>
      show (if b = zhex then _ else if b = zbin then _ else if b = zbin32 then _ else _) = _
      simp only [scanHeader]
      by_cases hhex : b = zhex
      · subst hhex
        rfl
      by_cases hbin : b = zbin
      · subst hbin
        rfl
      by_cases hbin32 : b = zbin32
      · subst hbin32
        rfl
      simp only [hhex, hbin, hbin32, if_false, or_self]
      rfl

theorem readHeader_timeout (s : HeaderSite) : readHeader crc rub s .timeout = .done none := by
  cases s with
  | bin crc32 buf esc => cases esc <;> rfl
  | pad => rfl
  | padOrZdle => rfl
  | zdle => rfl
  | format => rfl
  | hex buf => rfl

theorem call_of_scan_done {s : ScanSite} {bs body : List Byte} {format : Byte}
    (h : parse scanHeader (.wait s) bs = (.done (some format), body)) :
    call (readHeader crc rub) s.toHeaderSite bs =
      call (readHeader crc rub) (bodySite format) body := by
  apply call_congr
  exact parse_into (readHeader crc rub) ScanSite.toHeaderSite afterScan (readHeader_scan crc rub) h

theorem call_of_scan_wait {s s' : ScanSite} {bs : List Byte}
    (h : parse scanHeader (.wait s) bs = (.wait s', [])) :
    call (readHeader crc rub) s.toHeaderSite bs = (.done none, []) := by
  have hwait := parse_into_wait (readHeader crc rub) ScanSite.toHeaderSite afterScan
    (readHeader_scan crc rub) h
  rw [call_of_wait hwait, readHeader_timeout]

theorem scan_cases (s : ScanSite) (bs : List Byte) :
    (∃ format body, (format = zhex ∨ format = zbin ∨ format = zbin32) ∧
        parse scanHeader (.wait s) bs = (.done (some format), body)) ∨
      ∃ s', parse scanHeader (.wait s) bs = (.wait s', []) := by
  induction bs generalizing s with
  | nil => exact .inr ⟨s, rfl⟩
  | cons b bs ih =>
    have hstep : (∃ t, scanHeader s (.ok b) = .wait t) ∨
        (b = zhex ∨ b = zbin ∨ b = zbin32) ∧ scanHeader s (.ok b) = .done (some b) := by
      cases s with
      | pad => exact .inl (by simp only [scanHeader]; split <;> exact ⟨_, rfl⟩)
      | padOrZdle =>
        exact .inl (by simp only [scanHeader]; split <;> [skip; split] <;> exact ⟨_, rfl⟩)
      | zdle => exact .inl (by simp only [scanHeader]; split <;> exact ⟨_, rfl⟩)
      | format =>
        by_cases h : b = zhex ∨ b = zbin ∨ b = zbin32
        · exact .inr ⟨h, if_pos h⟩
        · exact .inl ⟨.pad, if_neg h⟩
    rw [parse_cons]
    rcases hstep with ⟨t, ht⟩ | ⟨hb, ht⟩
    · rw [ht]
      exact ih t
    · rw [ht, parse_done]
      exact .inl ⟨b, bs, hb, rfl⟩

/-- The scan over a byte that is not ZDLE. -/
def ScanSite.skip (s : ScanSite) (b : Byte) : ScanSite :=
  if b = zpad then
    match s with
    | .pad => .padOrZdle
    | .padOrZdle => .zdle
    | .zdle | .format => .pad
  else .pad

theorem ScanSite.skip_ne_format (s : ScanSite) (b : Byte) : s.skip b ≠ .format := by
  unfold ScanSite.skip
  split
  · cases s <;> decide
  · decide

theorem scanHeader_skip (s : ScanSite) (hs : s ≠ .format) (b : Byte) (hb : b ≠ zdle) :
    scanHeader s (.ok b) = .wait (s.skip b) := by
  unfold ScanSite.skip
  cases s with
  | pad =>
    simp only [scanHeader]
    split <;> rfl
  | padOrZdle =>
    simp only [scanHeader, if_neg hb]
    split <;> rfl
  | zdle =>
    simp only [scanHeader, if_neg hb]
    split <;> rfl
  | format => exact absurd rfl hs

theorem scan_skip (s : ScanSite) (hs : s ≠ .format) (noise rest : List Byte)
    (h : zdle ∉ noise) :
    parse scanHeader (.wait s) (noise ++ rest) =
      parse scanHeader (.wait (noise.foldl ScanSite.skip s)) rest := by
  induction noise generalizing s with
  | nil => rfl
  | cons b noise ih =>
    have hb : b ≠ zdle := by
      rintro rfl
      exact h (List.mem_cons_self ..)
    rw [List.cons_append, parse_cons, scanHeader_skip s hs b hb,
      ih (s.skip b) (s.skip_ne_format b) fun hin => h (List.mem_cons_of_mem b hin)]
    rfl

/-! ### Noise before a frame -/

/-- The ZPADs at the end of what precedes a frame. -/
def trailingPads (noise : List Byte) : ℕ := (noise.reverse.takeWhile fun b => b = zpad).length

/-- Where the scan stands behind `n` ZPADs. -/
def padSite (n : ℕ) : ScanSite :=
  if n % 3 = 0 then .pad else if n % 3 = 1 then .padOrZdle else .zdle

theorem skip_padSite (n : ℕ) : (padSite n).skip zpad = padSite (n + 1) := by
  have hmod : n % 3 = 0 ∨ n % 3 = 1 ∨ n % 3 = 2 := by omega
  have hnext : (n + 1) % 3 = (n % 3 + 1) % 3 := Nat.add_mod n 1 3
  unfold padSite
  rw [hnext]
  rcases hmod with h | h | h <;> rw [h] <;> rfl

theorem foldl_skip (noise : List Byte) :
    noise.foldl ScanSite.skip .pad = padSite (trailingPads noise) := by
  induction noise using List.reverseRecOn with
  | nil => rfl
  | append_singleton noise b ih =>
    rw [List.foldl_append, ih]
    show (padSite (trailingPads noise)).skip b = _
    by_cases hb : b = zpad
    · have hcount : trailingPads (noise ++ [b]) = trailingPads noise + 1 := by
        simp [trailingPads, hb]
      rw [hcount, hb, skip_padSite]
    · have hcount : trailingPads (noise ++ [b]) = 0 := by
        simp [trailingPads, hb]
      rw [hcount]
      exact if_neg hb

theorem scan_noise {noise : List Byte} (h : zdle ∉ noise) (rest : List Byte) :
    parse scanHeader (.wait .pad) (noise ++ rest) =
      parse scanHeader (.wait (padSite (trailingPads noise))) rest := by
  rw [scan_skip .pad (by decide) noise rest h, foldl_skip]

theorem scan_notMem {bs : List Byte} (h : zpad ∉ bs) :
    parse scanHeader (.wait .pad) bs = (.wait .pad, []) := by
  induction bs with
  | nil => rfl
  | cons b bs ih =>
    have hb : b ≠ zpad := by
      rintro rfl
      exact h (List.mem_cons_self ..)
    have hstep : scanHeader .pad (.ok b) = .wait .pad := if_neg hb
    rw [parse_cons, hstep]
    exact ih fun hin => h (List.mem_cons_of_mem b hin)

theorem zpad_notMem_hexByte (b : Byte) : zpad ∉ hexByte b := by
  have hdigit : ∀ n, hexDigits.getD n 0 ≠ zpad := by
    intro n
    by_cases hn : n < 16
    · have hall : ∀ n < 16, hexDigits.getD n 0 ≠ zpad := by decide
      exact hall n hn
    · have hout : hexDigits.getD n 0 = 0 := List.getD_eq_default _ _ (Nat.le_of_not_lt hn)
      rw [hout]
      decide
  intro hin
  rcases List.mem_cons.mp hin with h | h
  · exact hdigit _ h.symm
  · exact hdigit _ (List.mem_singleton.mp h).symm

theorem zpad_notMem_headerDigits (type : Byte) (flags : List Byte) :
    zpad ∉ headerDigits crc type flags := by
  intro hin
  obtain ⟨b, -, hb⟩ := List.mem_flatMap.mp hin
  exact zpad_notMem_hexByte b hb

/-- No byte as `send_zdle_byte_tx` sends it starts a frame. -/
theorem scan_zdleByte (s : ScanSite) (hs : s ≠ .format) (b : Byte) :
    ∃ s' ≠ ScanSite.format, parse scanHeader (.wait s) (zdleByte b) = (.wait s', []) := by
  by_cases h : b = zdle ∨ b = 0x11 ∨ b = 0x13 ∨ b = 0x81 ∨ b = 0x83
  · refine ⟨.pad, by decide, ?_⟩
    rcases h with rfl | rfl | rfl | rfl | rfl <;> cases s <;> rfl
  · have hplain : zdleByte b = [b] := if_neg h
    have hb : b ≠ zdle := fun hb => h (.inl hb)
    refine ⟨s.skip b, s.skip_ne_format b, ?_⟩
    rw [hplain, parse_cons, scanHeader_skip s hs b hb]
    rfl

theorem scan_flatMap_zdleByte (s : ScanSite) (hs : s ≠ .format) (bs : List Byte) :
    ∃ s', parse scanHeader (.wait s) (bs.flatMap zdleByte) = (.wait s', []) := by
  induction bs generalizing s with
  | nil => exact ⟨s, rfl⟩
  | cons b bs ih =>
    obtain ⟨s₁, hs₁, hb⟩ := scan_zdleByte s hs b
    obtain ⟨s₂, hrest⟩ := ih s₁ hs₁
    refine ⟨s₂, ?_⟩
    rw [List.flatMap_cons, parse_append_of_wait hb, hrest]

/-- The number of ZPADs, modulo 3, behind which a frame is not found. -/
def HeaderSender.lostBehind : HeaderSender → ℕ
  | .hex | .hexTx => 1
  | .binaryTx => 2

def Lost (s : ScanSite) (frame : List Byte) : Prop :=
  ∃ t, parse scanHeader (.wait s) frame = (.wait t, [])

/-- The scan finds in the frame what it finds when it starts there. -/
def Found (s : ScanSite) (frame : List Byte) : Prop :=
  ∃ format body, parse scanHeader (.wait s) frame = (.done (some format), body) ∧
    parse scanHeader (.wait .pad) frame = (.done (some format), body)

theorem scan_hexHeader (n : ℕ) (type : Byte) (flags : List Byte) :
    n % 3 = 1 ∧ Lost (padSite n) (hexHeader crc type flags) ∨
      n % 3 ≠ 1 ∧ Found (padSite n) (hexHeader crc type flags) := by
  have hbody : zpad ∉ zdle :: zhex :: (headerDigits crc type flags ++ hexTrailer type) := by
    simp only [List.mem_cons, List.mem_append, not_or]
    exact ⟨by decide, by decide, zpad_notMem_headerDigits crc type flags,
      zpad_notMem_hexTrailer type⟩
  have hmod : n % 3 = 0 ∨ n % 3 = 1 ∨ n % 3 = 2 := by omega
  rw [hexHeader_eq]
  unfold padSite
  rcases hmod with h | h | h <;> rw [h]
  · exact .inr ⟨by decide, zhex, _, rfl, rfl⟩
  · exact .inl ⟨rfl, .pad, scan_notMem hbody⟩
  · exact .inr ⟨by decide, zhex, _, rfl, rfl⟩

theorem scan_binaryHeader (n : ℕ) (type : Byte) (flags : List Byte) :
    n % 3 = 2 ∧ Lost (padSite n) (binaryHeader crc type flags) ∨
      n % 3 ≠ 2 ∧ Found (padSite n) (binaryHeader crc type flags) := by
  obtain ⟨body, hbytes⟩ : ∃ bs : List Byte, binaryHeader crc type flags =
      zpad :: zdle :: zbin :: bs.flatMap zdleByte := by
    refine ⟨type :: flags ++ [crcHi (modemCrc16 crc (type :: flags)),
      crcLo (modemCrc16 crc (type :: flags))], ?_⟩
    simp [binaryHeader, zdleCrc]
  have hopen : ∀ bs, parse scanHeader (.wait .pad) (zpad :: zdle :: zbin :: bs) =
      (.done (some zbin), bs) := by
    intro bs
    show parse scanHeader (.done (some zbin)) bs = _
    rw [parse_done]
  have hsecond : ∀ bs, parse scanHeader (.wait .padOrZdle) (zpad :: zdle :: zbin :: bs) =
      (.done (some zbin), bs) := by
    intro bs
    show parse scanHeader (.done (some zbin)) bs = _
    rw [parse_done]
  have hmod : n % 3 = 0 ∨ n % 3 = 1 ∨ n % 3 = 2 := by omega
  rw [hbytes]
  unfold padSite
  rcases hmod with h | h | h <;> rw [h]
  · exact .inr ⟨by decide, zbin, _, hopen _, hopen _⟩
  · exact .inr ⟨by decide, zbin, _, hsecond _, hopen _⟩
  · exact .inl ⟨rfl, scan_flatMap_zdleByte .pad (by decide) body⟩

theorem scan_frame (n : ℕ) (h : SentHeader) (s : HeaderSender) :
    n % 3 = s.lostBehind ∧ Lost (padSite n) (s.frame crc h) ∨
      n % 3 ≠ s.lostBehind ∧ Found (padSite n) (s.frame crc h) := by
  cases s with
  | hex =>
    rw [HeaderSender.frame, sendHexHeader, wire_writeBytes]
    exact scan_hexHeader crc n h.type h.flags
  | hexTx =>
    rw [HeaderSender.frame, sendHexHeaderTx, wire_writeBytes]
    exact scan_hexHeader crc n h.type h.flags
  | binaryTx => exact scan_binaryHeader crc n h.type h.flags

theorem call_noise_frame {noise : List Byte} (hnoise : zdle ∉ noise) (h : SentHeader)
    (s : HeaderSender) :
    (call (readHeader crc rub) .pad (noise ++ s.frame crc h)).1 =
      .done (if trailingPads noise % 3 = s.lostBehind then none else some h.received) := by
  rcases scan_frame crc (trailingPads noise) h s with
    ⟨hlost, t, ht⟩ | ⟨hlost, format, body, hfound, hplain⟩
  · rw [← scan_noise hnoise] at ht
    rw [if_pos hlost]
    exact congrArg Prod.fst (call_of_scan_wait crc rub ht)
  · rw [← scan_noise hnoise] at hfound
    have hframe := parse_frame crc rub h s []
    rw [List.append_nil] at hframe
    rw [if_neg hlost]
    calc (call (readHeader crc rub) .pad (noise ++ s.frame crc h)).1
        = (call (readHeader crc rub) (bodySite format) body).1 :=
          congrArg Prod.fst (call_of_scan_done crc rub hfound)
      _ = (call (readHeader crc rub) .pad (s.frame crc h)).1 :=
          (congrArg Prod.fst (call_of_scan_done crc rub hplain)).symm
      _ = .done (some h.received) := congrArg Prod.fst (call_of_done hframe)

/-- Behind noise without ZDLE both readers find the frame, unless the ZPADs directly
before it fill a group of the scan in the wrong way. -/
theorem readHeader_after_noise_iff (noise : List Byte) (hnoise : zdle ∉ noise) (s : HeaderSender)
    (h : SentHeader) :
    ((call (readHeaderRx crc) .pad (noise ++ s.frame crc h)).1 = .done (some h.received) ∧
        (call (readHeaderTx crc) .pad (noise ++ s.frame crc h)).1 = .done (some h.received)) ↔
      trailingPads noise % 3 ≠ s.lostBehind := by
  rw [readHeaderRx, readHeaderTx, call_noise_frame crc true hnoise h s,
    call_noise_frame crc false hnoise h s, and_self]
  by_cases hlost : trailingPads noise % 3 = s.lostBehind
  · rw [if_pos hlost]
    constructor
    · intro hfound
      cases hfound
    · intro hne
      exact absurd hlost hne
  · rw [if_neg hlost]
    exact ⟨fun _ => hlost, fun _ => rfl⟩

/-- A banner that ends in one ZPAD: the frame behind it is found if it is a binary one. -/
theorem readHeader_after_banner :
    (call (readHeaderRx referenceCrc) .pad ([0x0D, 0x0A, zpad] ++
        HeaderSender.binaryTx.frame referenceCrc ⟨zrinit, [0, 0, 0, 0], rfl⟩)).1 =
      .done (some ⟨zrinit, [0, 0, 0, 0], false⟩) :=
  ((readHeader_after_noise_iff referenceCrc [0x0D, 0x0A, zpad] (by decide) .binaryTx
    ⟨zrinit, [0, 0, 0, 0], rfl⟩).mpr (by decide)).1

/-- One ZPAD before a hexadecimal header. -/
theorem readHeader_misses_hexHeader :
    ¬ ∀ (noise : List Byte), zdle ∉ noise → ∀ (s : HeaderSender) (h : SentHeader),
      (call (readHeaderRx referenceCrc) .pad (noise ++ s.frame referenceCrc h)).1 =
          .done (some h.received) ∧
        (call (readHeaderTx referenceCrc) .pad (noise ++ s.frame referenceCrc h)).1 =
          .done (some h.received) := by
  intro hall
  have hfound := (hall [zpad] (by decide) .hex ⟨zrinit, [0, 0, 0, 0], rfl⟩).1
  have hlost : (call (readHeader referenceCrc true) .pad
      ([zpad] ++ HeaderSender.hex.frame referenceCrc ⟨zrinit, [0, 0, 0, 0], rfl⟩)).1 = .done none :=
    call_noise_frame referenceCrc true (by decide) ⟨zrinit, [0, 0, 0, 0], rfl⟩ .hex
  rw [readHeaderRx, hlost] at hfound
  cases hfound

end ZephyrModem.Zmodem
