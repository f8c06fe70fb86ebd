import ZephyrModem.Zmodem.Headers

/-!
# The two header readers

`read_header_rx` and `read_header_tx` scan alike and read hexadecimal bodies alike.
They differ on the units ZDLE ZRUB0 and ZDLE ZRUB1 of a binary body, and no header
that contains one of them passes the CRC test of both.
-/

namespace ZephyrModem.Zmodem
open ZephyrModem.Reactive

variable (crc : CrcService) (rub : Bool)

/-! ### Binary bodies -/

/-- Units of a binary body: type, flags and CRC. -/
def bodyUnits (crc32 : Bool) : ℕ := if crc32 then 9 else 7

theorem parse_bin_unit (crc32 : Bool) (buf : List Byte) (u : ZUnit) (rest : List Byte) :
    parse (readHeader crc rub) (.wait (.bin crc32 buf false)) (u.bytes ++ rest) =
      parse (readHeader crc rub) (binNext crc crc32 buf (u.value rub)) rest := by
  rw [parse_into (readHeader crc rub) (.bin crc32 buf) _ (readHeader_bin crc rub crc32 buf)
    (u.parse_bytes rub rest)]
  unfold ZUnit.result
  split <;> rfl

theorem parse_bin_units (crc32 : Bool) (buf : List Byte) (us : List ZUnit) (rest : List Byte)
    (h : buf.length + us.length < bodyUnits crc32) :
    parse (readHeader crc rub) (.wait (.bin crc32 buf false)) (us.flatMap ZUnit.bytes ++ rest) =
      parse (readHeader crc rub) (.wait (.bin crc32 (buf ++ us.map (ZUnit.value rub)) false))
        rest := by
  induction us generalizing buf with
  | nil => simp
  | cons u us ih =>
    rw [List.length_cons] at h
    have hlen : (buf ++ [u.value rub]).length = buf.length + 1 := List.length_append
    have hmore : binNext crc crc32 buf (u.value rub) =
        .wait (.bin crc32 (buf ++ [u.value rub]) false) := by
      refine if_pos ?_
      rw [hlen]
      exact Nat.lt_of_le_of_lt (by omega) h
    rw [List.flatMap_cons, List.append_assoc, parse_bin_unit, hmore,
      ih (buf ++ [u.value rub]) (by rw [hlen]; omega)]
    simp

theorem parse_bin_body (crc32 : Bool) (us : List ZUnit) (rest : List Byte)
    (h : us.length = bodyUnits crc32) :
    parse (readHeader crc rub) (.wait (.bin crc32 [] false)) (us.flatMap ZUnit.bytes ++ rest) =
      (.done (checkHeader crc crc32 (us.map (ZUnit.value rub))), rest) := by
  obtain ⟨init, last, rfl⟩ : ∃ init last, us = init ++ [last] := by
    have hne : us ≠ [] := by
      rintro rfl
      cases crc32 <;> cases h
    exact ⟨_, _, (List.dropLast_append_getLast hne).symm⟩
  rw [List.length_append, List.length_singleton] at h
  have hlast : binNext crc crc32 (init.map (ZUnit.value rub)) (last.value rub) =
      .done (checkHeader crc crc32 ((init ++ [last]).map (ZUnit.value rub))) := by
    rw [List.map_append]
    refine if_neg ?_
    rw [List.length_append, List.length_map, List.length_singleton, h]
    exact Nat.lt_irrefl _
  have hfew : ([] : List Byte).length + init.length < bodyUnits crc32 := by
    rw [List.length_nil]
    omega
  rw [List.flatMap_append, List.append_assoc, parse_bin_units crc rub crc32 [] init _ hfew,
    List.nil_append, List.flatMap_singleton, parse_bin_unit, hlast, parse_done]

theorem call_bin_short (crc32 : Bool) (us : List ZUnit) {tail : List Byte}
    (h : us.length < bodyUnits crc32) (htail : tail = [] ∨ tail = [zdle]) :
    call (readHeader crc rub) (.bin crc32 [] false) (us.flatMap ZUnit.bytes ++ tail) =
      (.done none, []) := by
  obtain ⟨esc, hcut⟩ := ZUnit.parse_cut rub htail
  have hfew : ([] : List Byte).length + us.length < bodyUnits crc32 := by
    rw [List.length_nil]
    omega
  have hwait : parse (readHeader crc rub) (.wait (.bin crc32 [] false))
      (us.flatMap ZUnit.bytes ++ tail) =
        (.wait (.bin crc32 (us.map (ZUnit.value rub)) esc), []) := by
    rw [parse_bin_units crc rub crc32 [] us _ hfew, List.nil_append]
    exact parse_into_wait (readHeader crc rub) (.bin crc32 _) _ (readHeader_bin crc rub crc32 _) hcut
  rw [call_of_wait hwait, readHeader_timeout]

/-! ### What a passed CRC test determines -/

theorem rxCrc32_inj {a b : List Byte} (ha : a.length = 4) (hb : b.length = 4)
    (h : rxCrc32 a = rxCrc32 b) : a = b := by
  obtain ⟨a0, a1, a2, a3, rfl⟩ : ∃ a0 a1 a2 a3, a = [a0, a1, a2, a3] := List.length_eq_four.mp ha
  obtain ⟨b0, b1, b2, b3, rfl⟩ : ∃ b0 b1 b2 b3, b = [b0, b1, b2, b3] := List.length_eq_four.mp hb
  have hnat := congrArg UInt32.toNat h
  rw [toNat_rxCrc32, toNat_rxCrc32] at hnat
  have hbound : ∀ c : Byte, c.toNat < 2 ^ 8 := fun c => c.toNat_lt
  have ha0 := hbound a0
  have ha1 := hbound a1
  have ha2 := hbound a2
  have hb0 := hbound b0
  have hb1 := hbound b1
  have hb2 := hbound b2
  have h0 : a0 = b0 := UInt8.toNat_inj.mp (by omega)
  have h1 : a1 = b1 := UInt8.toNat_inj.mp (by omega)
  have h2 : a2 = b2 := UInt8.toNat_inj.mp (by omega)
  have h3 : a3 = b3 := UInt8.toNat_inj.mp (by omega)
  rw [h0, h1, h2, h3]

theorem rxCrc16_inj {a b : List Byte} (ha : a.length = 2) (hb : b.length = 2)
    (h : rxCrc16 a = rxCrc16 b) : a = b := by
  obtain ⟨a0, a1, rfl⟩ : ∃ a0 a1, a = [a0, a1] := List.length_eq_two.mp ha
  obtain ⟨b0, b1, rfl⟩ : ∃ b0 b1, b = [b0, b1] := List.length_eq_two.mp hb
  obtain ⟨hhi, hlo⟩ := (be16_eq_iff a0 a1 (be16 b0 b1)).mp h
  obtain ⟨hhi', hlo'⟩ := (be16_eq_iff b0 b1 (be16 b0 b1)).mp rfl
  rw [hhi, hlo, ← hhi', ← hlo']

theorem checkHeader_eq_some {crc32 : Bool} {buf : List Byte} {h : Header}
    (hlen : 5 ≤ buf.length) (hc : checkHeader crc crc32 buf = some h) :
    buf.take 5 = h.type :: h.flags ∧
      if crc32 then rxCrc32 (buf.drop 5) = modemCrc32 crc (h.type :: h.flags)
      else rxCrc16 (buf.drop 5) = modemCrc16 crc (h.type :: h.flags) := by
  obtain ⟨type, flags, htake⟩ : ∃ type flags, buf.take 5 = type :: flags := by
    apply List.exists_cons_of_length_pos
    rw [List.length_take]
    omega
  unfold checkHeader at hc
  rw [htake] at hc ⊢
  simp only [Option.ite_none_right_eq_some, Option.some.injEq] at hc
  obtain ⟨hcrc, rfl⟩ := hc
  refine ⟨rfl, ?_⟩
  cases crc32 with
  | false => exact hcrc
  | true => exact hcrc

/-- Two bodies that pass as the same header are the same body. -/
theorem checkHeader_inj {crc32 : Bool} {a b : List Byte} {h : Header}
    (ha : a.length = bodyUnits crc32) (hb : b.length = bodyUnits crc32)
    (hca : checkHeader crc crc32 a = some h) (hcb : checkHeader crc crc32 b = some h) : a = b := by
  have hsize : bodyUnits crc32 = 5 + (if crc32 then 4 else 2) := by cases crc32 <;> rfl
  obtain ⟨htakea, hcrca⟩ := checkHeader_eq_some crc (by omega) hca
  obtain ⟨htakeb, hcrcb⟩ := checkHeader_eq_some crc (by omega) hcb
  have hdrop : a.drop 5 = b.drop 5 := by
    cases crc32 with
    | false =>
      apply rxCrc16_inj
      · rw [List.length_drop, ha]
        rfl
      · rw [List.length_drop, hb]
        rfl
      · exact hcrca.trans hcrcb.symm
    | true =>
      apply rxCrc32_inj
      · rw [List.length_drop, ha]
        rfl
      · rw [List.length_drop, hb]
        rfl
      · exact hcrca.trans hcrcb.symm
  rw [← List.take_append_drop 5 a, ← List.take_append_drop 5 b, htakea, htakeb, hdrop]

theorem check_eq_iff {crc32 : Bool} {us : List ZUnit} (hlen : us.length = bodyUnits crc32) :
    checkHeader crc crc32 (us.map (ZUnit.value true)) =
        checkHeader crc crc32 (us.map (ZUnit.value false)) ↔
      ((∃ u ∈ us, u.IsRub) →
        checkHeader crc crc32 (us.map (ZUnit.value true)) = none ∧
          checkHeader crc crc32 (us.map (ZUnit.value false)) = none) := by
  have hmap : ∀ rub, (us.map (ZUnit.value rub)).length = bodyUnits crc32 := by
    intro rub
    rw [List.length_map, hlen]
  constructor
  · intro heq hrub
    cases hc : checkHeader crc crc32 (us.map (ZUnit.value true)) with
    | none => exact ⟨rfl, by rw [← heq, hc]⟩
    | some h =>
      have hsame := checkHeader_inj crc (hmap true) (hmap false) hc (heq ▸ hc)
      exact absurd hrub ((ZUnit.map_value_eq_iff us).mp hsame)
  · intro h
    by_cases hrub : ∃ u ∈ us, u.IsRub
    · obtain ⟨htrue, hfalse⟩ := h hrub
      rw [htrue, hfalse]
    · rw [(ZUnit.map_value_eq_iff us).mpr hrub]

/-! ### Whole streams -/

/-- The binary header that the scan of a stream comes to. -/
structure BinaryHeader (bs : List Byte) where
  crc32 : Bool
  units : List ZUnit
  rest : List Byte
  opens : parse scanHeader (.wait .pad) bs =
    (.done (some (if crc32 then zbin32 else zbin)), units.flatMap ZUnit.bytes ++ rest)
  length_units : units.length = bodyUnits crc32

/-- No binary header with a rub-out unit passes the CRC test of a reader. -/
def RubFree (bs : List Byte) : Prop :=
  ∀ h : BinaryHeader bs, (∃ u ∈ h.units, u.IsRub) →
    checkHeader crc h.crc32 (h.units.map (ZUnit.value true)) = none ∧
      checkHeader crc h.crc32 (h.units.map (ZUnit.value false)) = none

theorem bodySite_binary (crc32 : Bool) :
    bodySite (if crc32 then zbin32 else zbin) = .bin crc32 [] false := by
  cases crc32 <;> rfl

theorem call_binaryHeader {bs : List Byte} (h : BinaryHeader bs) :
    call (readHeader crc rub) .pad bs =
      (.done (checkHeader crc h.crc32 (h.units.map (ZUnit.value rub))), h.rest) := by
  have hbody := call_of_scan_done crc rub h.opens
  rw [bodySite_binary, call_of_done (parse_bin_body crc rub h.crc32 h.units h.rest h.length_units)]
    at hbody
  exact hbody

theorem parse_hex_agree (buf bs : List Byte) :
    parse (readHeader crc true) (.wait (.hex buf)) bs =
      parse (readHeader crc false) (.wait (.hex buf)) bs := by
  induction bs generalizing buf with
  | nil => rfl
  | cons b bs ih =>
    rw [parse_cons, parse_cons]
    simp only [readHeader]
    split
    · exact ih _
    · rw [parse_done, parse_done]

theorem call_hex_agree (bs : List Byte) :
    call (readHeader crc true) (.hex []) bs = call (readHeader crc false) (.hex []) bs := by
  have hparse := parse_hex_agree crc [] bs
  rcases h : parse (readHeader crc false) (.wait (.hex [])) bs with ⟨n, rest⟩
  rw [h] at hparse
  cases n with
  | done a => rw [call_of_done h, call_of_done hparse]
  | wait s => rw [call_of_wait h, call_of_wait hparse, readHeader_timeout, readHeader_timeout]

theorem call_agree_of_isEmpty {bs : List Byte} (hno : BinaryHeader bs → False) :
    call (readHeader crc true) .pad bs = call (readHeader crc false) .pad bs := by
  rcases scan_cases .pad bs with ⟨format, body, hformat, hscan⟩ | ⟨s, hscan⟩
  · have hbody := fun rub => call_of_scan_done crc rub hscan
    by_cases hhex : format = zhex
    · subst hhex
      exact (hbody true).trans ((call_hex_agree crc body).trans (hbody false).symm)
    · obtain ⟨crc32, rfl⟩ : ∃ crc32 : Bool, format = if crc32 then zbin32 else zbin := by
        rcases hformat with h | h | h
        · exact absurd h hhex
        · exact ⟨false, h⟩
        · exact ⟨true, h⟩
      simp only [bodySite_binary] at hbody
      rcases ZUnit.take_units (bodyUnits crc32) body with
        ⟨us, rest, hlen, rfl⟩ | ⟨us, tail, hlen, htail, rfl⟩
      · exact (hno ⟨crc32, us, rest, hscan, hlen⟩).elim
      · have hshort := fun rub => call_bin_short crc rub crc32 us hlen htail
        exact (hbody true).trans ((hshort true).trans ((hshort false).symm.trans (hbody false).symm))
  · exact (call_of_scan_wait crc true hscan).trans (call_of_scan_wait crc false hscan).symm

/-- The two un-escape helpers agree on a unit unless it is a rub-out; the two header
readers consume the same bytes of every stream and agree on it unless a header with a
rub-out passes the CRC test of one of them. -/
theorem readHeaders_agree_iff :
    (∀ (u : ZUnit) (rest : List Byte),
      parse readZdleByteRx (.wait false) (u.bytes ++ rest) =
        parse readZdleByteTx (.wait false) (u.bytes ++ rest) ↔ ¬ u.IsRub) ∧
    ∀ bs : List Byte,
      (call (readHeaderRx crc) .pad bs).2 = (call (readHeaderTx crc) .pad bs).2 ∧
      (call (readHeaderRx crc) .pad bs = call (readHeaderTx crc) .pad bs ↔ RubFree crc bs) := by
  constructor
  · intro u rest
    rw [readZdleByteRx, readZdleByteTx, ZUnit.parse_bytes, ZUnit.parse_bytes, Prod.mk.injEq,
      Next.done.injEq, ZUnit.result_eq_iff, and_iff_left rfl]
  intro bs
  rw [readHeaderRx, readHeaderTx]
  by_cases hno : BinaryHeader bs → False
  · have hagree := call_agree_of_isEmpty crc hno
    refine ⟨congrArg Prod.snd hagree, fun _ h => (hno h).elim, fun _ => hagree⟩
  · obtain ⟨h⟩ : Nonempty (BinaryHeader bs) := by
      by_contra hempty
      exact hno fun h => hempty ⟨h⟩
    have hcall := fun rub (h : BinaryHeader bs) => call_binaryHeader crc rub h
    refine ⟨by rw [hcall true h, hcall false h], ?_, ?_⟩
    · intro heq h'
      rw [hcall true h', hcall false h', Prod.mk.injEq, Next.done.injEq] at heq
      exact (check_eq_iff crc h'.length_units).mp heq.1
    · intro hfree
      rw [hcall true h, hcall false h, (check_eq_iff crc h.length_units).mpr (hfree h)]

/-- ZRINIT with a flag 0x7F, which the peer sends as ZDLE ZRUB0. -/
def rubbedHeader : List Byte :=
  [zpad, zdle, zbin, zrinit, zdle, zrub0, 0, 0, 0] ++
    zdleCrc (modemCrc16 referenceCrc [zrinit, 0x7F, 0, 0, 0])

theorem readHeaderTx_rejects_rubbed :
    ¬ ∀ bs, call (readHeaderRx referenceCrc) .pad bs = call (readHeaderTx referenceCrc) .pad bs := by
  intro hall
  have hrx : call (readHeaderRx referenceCrc) .pad rubbedHeader =
      (.done (some ⟨zrinit, [0x7F, 0, 0, 0], false⟩), []) := by
    decide +kernel
  have htx : call (readHeaderTx referenceCrc) .pad rubbedHeader = (.done none, []) := by
    decide +kernel
  have heq := hall rubbedHeader
  rw [hrx, htx] at heq
  cases heq

end ZephyrModem.Zmodem
