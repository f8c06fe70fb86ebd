import ZephyrModem.Zmodem.Units

/-!
# The subpacket grammar

A subpacket is data units, a frame end and two more units for the CRC. The reader
takes any two units there, also ones that end a frame.
-/

namespace ZephyrModem.Zmodem
open ZephyrModem.Reactive

variable (crc : CrcService) (maxLen : ℕ)

/-! ### The reader on units -/

theorem readSubpacketRx_timeout (s : PacketSite) :
    readSubpacketRx crc maxLen false s .timeout = .done none := by
  cases s with
  | data buf esc => cases esc <;> rfl
  | check buf ender c esc => cases esc <;> rfl

theorem parse_data_unit (buf : List Byte) {u : ZUnit} (hu : ¬ u.IsEnder) (rest : List Byte) :
    parse (readSubpacketRx crc maxLen false) (.wait (.data buf false)) (u.bytes ++ rest) =
      parse (readSubpacketRx crc maxLen false) (dataNext maxLen buf (u.value true)) rest := by
  rw [parse_into (readSubpacketRx crc maxLen false) (.data buf) _
    (readSubpacketRx_data crc false maxLen buf) (u.parse_bytes true rest), ZUnit.result, if_neg hu]
  rfl

theorem parse_frame_end (buf : List Byte) {ender : Byte} (he : IsFrameEnd ender)
    (rest : List Byte) :
    parse (readSubpacketRx crc maxLen false) (.wait (.data buf false)) (zdle :: ender :: rest) =
      parse (readSubpacketRx crc maxLen false) (.wait (.check buf ender [] false)) rest := by
  rcases he with rfl | rfl | rfl | rfl <;> rfl

theorem parse_check_unit (buf : List Byte) (ender : Byte) (c : List Byte) (u : ZUnit)
    (rest : List Byte) :
    parse (readSubpacketRx crc maxLen false) (.wait (.check buf ender c false)) (u.bytes ++ rest) =
      parse (readSubpacketRx crc maxLen false)
        (checkNext crc false buf ender (c ++ [u.value true])) rest := by
  rw [parse_into (readSubpacketRx crc maxLen false) (.check buf ender c) _
    (readSubpacketRx_check crc false maxLen buf ender c) (u.parse_bytes true rest)]
  unfold ZUnit.result
  split <;> rfl

theorem parse_data_units (buf : List Byte) (us : List ZUnit) (hus : ∀ u ∈ us, ¬ u.IsEnder)
    (rest : List Byte) (h : buf.length + us.length ≤ maxLen) :
    parse (readSubpacketRx crc maxLen false) (.wait (.data buf false))
        (us.flatMap ZUnit.bytes ++ rest) =
      parse (readSubpacketRx crc maxLen false)
        (.wait (.data (buf ++ us.map (ZUnit.value true)) false)) rest := by
  induction us generalizing buf with
  | nil => simp
  | cons u us ih =>
    rw [List.length_cons] at h
    have hlen : (buf ++ [u.value true]).length = buf.length + 1 := List.length_append
    have hmore : dataNext maxLen buf (u.value true) =
        .wait (.data (buf ++ [u.value true]) false) := if_pos (by omega)
    rw [List.flatMap_cons, List.append_assoc,
      parse_data_unit crc maxLen buf (hus u (List.mem_cons_self ..)), hmore,
      ih (buf ++ [u.value true]) (fun v hv => hus v (List.mem_cons_of_mem u hv))
        (by rw [hlen]; omega)]
    simp

theorem parse_data_overflow (us : List ZUnit) (hus : ∀ u ∈ us, ¬ u.IsEnder) (rest : List Byte)
    (h : maxLen < us.length) :
    ∃ left, parse (readSubpacketRx crc maxLen false) (.wait (.data [] false))
      (us.flatMap ZUnit.bytes ++ rest) = (.done none, left) := by
  obtain ⟨first, u, more, hsplit, hfirst⟩ :
      ∃ first u more, us = first ++ u :: more ∧ first.length = maxLen := by
    refine ⟨us.take maxLen, us[maxLen], us.drop (maxLen + 1), ?_, ?_⟩
    · rw [← List.drop_eq_getElem_cons h, List.take_append_drop]
    · rw [List.length_take]
      omega
  subst hsplit
  have hu : ¬ u.IsEnder := hus u (List.mem_append_right _ (List.mem_cons_self ..))
  have hfull : dataNext maxLen (first.map (ZUnit.value true)) (u.value true) = .done none := by
    refine if_neg ?_
    rw [List.length_map, hfirst]
    exact Nat.lt_irrefl _
  refine ⟨more.flatMap ZUnit.bytes ++ rest, ?_⟩
  rw [List.flatMap_append, List.append_assoc,
    parse_data_units crc maxLen [] first (fun v hv => hus v (List.mem_append_left _ hv)) _
      (by rw [List.length_nil]; omega),
    List.nil_append, List.flatMap_cons, List.append_assoc, parse_data_unit crc maxLen _ hu, hfull,
    parse_done]

/-! ### The grammar -/

/-- The units of a subpacket, with any two units for its CRC. -/
structure PacketUnits where
  data : List ZUnit
  ender : Byte
  check1 : ZUnit
  check2 : ZUnit
  data_not_ender : ∀ u ∈ data, ¬ u.IsEnder
  isFrameEnd : IsFrameEnd ender

namespace PacketUnits

def bytes (k : PacketUnits) : List Byte :=
  k.data.flatMap ZUnit.bytes ++ zdle :: k.ender :: (k.check1.bytes ++ k.check2.bytes)

def payload (k : PacketUnits) : List Byte := k.data.map (ZUnit.value true)

/-- The last two units stand for the CRC of payload and ender. -/
def Checked (k : PacketUnits) : Prop :=
  let c := modemCrc16Update crc (modemCrc16 crc k.payload) [k.ender]
  k.check1.value true = crcHi c ∧ k.check2.value true = crcLo c

instance (k : PacketUnits) : Decidable (k.Checked crc) := instDecidableAnd

theorem bytes_append (k : PacketUnits) (rest : List Byte) :
    k.bytes ++ rest = k.data.flatMap ZUnit.bytes ++
      zdle :: k.ender :: (k.check1.bytes ++ (k.check2.bytes ++ rest)) := by
  simp [bytes]

theorem bytes_append_inj {k l : PacketUnits} {as bs : List Byte}
    (h : k.bytes ++ as = l.bytes ++ bs) : k = l ∧ as = bs := by
  rw [bytes_append, bytes_append] at h
  obtain ⟨hdata, hender, hchecks⟩ :=
    ZUnit.data_append_inj k.data_not_ender l.data_not_ender k.isFrameEnd l.isFrameEnd h
  obtain ⟨hcheck1, hlast⟩ := ZUnit.bytes_append_inj hchecks
  obtain ⟨hcheck2, hrest⟩ := ZUnit.bytes_append_inj hlast
  cases k
  cases l
  subst hdata hender hcheck1 hcheck2
  exact ⟨rfl, hrest⟩

def sent (buf : List Byte) (ender : Byte) (he : IsFrameEnd ender) : PacketUnits where
  data := buf.map ZUnit.ofByte
  ender := ender
  check1 := .ofByte (crcHi (modemCrc16Update crc (modemCrc16 crc buf) [ender]))
  check2 := .ofByte (crcLo (modemCrc16Update crc (modemCrc16 crc buf) [ender]))
  data_not_ender := by
    intro u hu
    obtain ⟨b, -, rfl⟩ := List.mem_map.mp hu
    exact ZUnit.not_isEnder_ofByte b
  isFrameEnd := he

theorem payload_sent (buf : List Byte) (ender : Byte) (he : IsFrameEnd ender) :
    (sent crc buf ender he).payload = buf := by
  show (buf.map ZUnit.ofByte).map (ZUnit.value true) = buf
  rw [List.map_map]
  exact (List.map_congr_left fun b _ => ZUnit.value_ofByte true b).trans (List.map_id buf)

theorem checked_sent (buf : List Byte) (ender : Byte) (he : IsFrameEnd ender) :
    (sent crc buf ender he).Checked crc := by
  unfold Checked
  rw [payload_sent]
  exact ⟨ZUnit.value_ofByte true _, ZUnit.value_ofByte true _⟩

theorem bytes_sent (buf : List Byte) (ender : Byte) (he : IsFrameEnd ender) :
    (sent crc buf ender he).bytes = subpacket crc buf ender := by
  have hdata : (buf.map ZUnit.ofByte).flatMap ZUnit.bytes = buf.flatMap zdleByte := by
    rw [List.flatMap_map]
    exact List.flatMap_congr fun b _ => ZUnit.bytes_ofByte b
  simp only [bytes, sent, hdata, ZUnit.bytes_ofByte, subpacket, zdleCrc]
  simp

end PacketUnits

/-! ### What the reader accepts -/

theorem checkSubpacket_iff (k : PacketUnits) :
    checkSubpacket crc false k.payload k.ender [k.check1.value true, k.check2.value true] = true ↔
      k.Checked crc := by
  rw [checkSubpacket, if_neg Bool.false_ne_true, beq_iff_eq]
  exact be16_eq_iff _ _ _

theorem parse_packet (k : PacketUnits) (rest : List Byte) (h : k.data.length ≤ maxLen) :
    parse (readSubpacketRx crc maxLen false) (.wait (.data [] false)) (k.bytes ++ rest) =
      (.done (if k.Checked crc then some (k.payload, k.ender) else none), rest) := by
  have hlast : checkNext crc false k.payload k.ender ([k.check1.value true] ++ [k.check2.value true]) =
      .done (if k.Checked crc then some (k.payload, k.ender) else none) := by
    refine (if_neg (Nat.lt_irrefl 2)).trans ?_
    by_cases hc : k.Checked crc
    · rw [if_pos hc]
      exact if_pos ((checkSubpacket_iff crc k).mpr hc)
    · rw [if_neg hc]
      exact if_neg fun hcheck => hc ((checkSubpacket_iff crc k).mp hcheck)
  rw [k.bytes_append, parse_data_units crc maxLen [] k.data k.data_not_ender _
      (by rw [List.length_nil]; omega),
    parse_frame_end crc maxLen _ k.isFrameEnd, parse_check_unit]
  show parse _ (.wait (PacketSite.check k.payload k.ender [k.check1.value true] false)) _ = _
  rw [parse_check_unit, hlast, parse_done]

/-- Every stream is data units up to a frame end, or up to where it stops. -/
theorem data_cases (bs : List Byte) :
    ∃ (us : List ZUnit) (tail : List Byte), (∀ u ∈ us, ¬ u.IsEnder) ∧
      bs = us.flatMap ZUnit.bytes ++ tail ∧
      ((tail = [] ∨ tail = [zdle]) ∨
        ∃ ender rest, IsFrameEnd ender ∧ tail = zdle :: ender :: rest) := by
  induction hn : bs.length using Nat.strongRecOn generalizing bs with
  | ind n ih =>
    have hnone : ∀ u ∈ ([] : List ZUnit), ¬ u.IsEnder := by
      intro u hu
      cases hu
    rcases ZUnit.stream_cases bs with hnil | hcut | ⟨u, rest, rfl⟩
    · exact ⟨[], bs, hnone, rfl, .inl (.inl hnil)⟩
    · exact ⟨[], bs, hnone, rfl, .inl (.inr hcut)⟩
    · by_cases hu : u.IsEnder
      · cases u with
        | plain b h => exact hu.elim
        | pair b => exact ⟨[], _, hnone, rfl, .inr ⟨b, rest, hu, rfl⟩⟩
      · have hlt : rest.length < n := by
          have hpos := u.length_bytes_pos
          rw [← hn, List.length_append]
          omega
        obtain ⟨us, tail, hus, rfl, htail⟩ := ih _ hlt rest rfl
        refine ⟨u :: us, tail, ?_, ?_, htail⟩
        · intro v hv
          rcases List.mem_cons.mp hv with rfl | hv
          · exact hu
          · exact hus v hv
        · rw [List.flatMap_cons, List.append_assoc]

theorem call_of_no_packet {bs : List Byte}
    (hno : ∀ (k : PacketUnits) rest, k.data.length ≤ maxLen → bs ≠ k.bytes ++ rest) :
    (call (readSubpacketRx crc maxLen false) (.data [] false) bs).1 = .done none := by
  obtain ⟨us, tail, hus, rfl, htail⟩ := data_cases bs
  by_cases hlen : maxLen < us.length
  · obtain ⟨left, hover⟩ := parse_data_overflow crc maxLen us hus tail hlen
    exact congrArg Prod.fst (call_of_done hover)
  · have hdata := parse_data_units crc maxLen [] us hus tail (by rw [List.length_nil]; omega)
    rcases htail with hcut | ⟨ender, rest, he, rfl⟩
    · obtain ⟨esc, hesc⟩ := ZUnit.parse_cut true hcut
      have hwait := parse_into_wait (readSubpacketRx crc maxLen false) _ _
        (readSubpacketRx_data crc false maxLen (us.map (ZUnit.value true))) hesc
      rw [call_of_wait (hdata.trans hwait), readSubpacketRx_timeout]
    · rw [parse_frame_end crc maxLen _ he] at hdata
      rcases ZUnit.take_units 2 rest with ⟨cs, rest', hcs, rfl⟩ | ⟨cs, cut, hcs, hcut, rfl⟩
      · obtain ⟨c1, c2, rfl⟩ := List.length_eq_two.mp hcs
        refine absurd ?_ (hno ⟨us, ender, c1, c2, hus, he⟩ rest' (Nat.le_of_not_lt hlen))
        rw [PacketUnits.bytes_append]
        simp
      · obtain ⟨esc, hesc⟩ := ZUnit.parse_cut true hcut
        obtain ⟨c, hc⟩ : ∃ c, parse (readSubpacketRx crc maxLen false)
            (.wait (.check ([] ++ us.map (ZUnit.value true)) ender [] false))
            (cs.flatMap ZUnit.bytes ++ cut) = (.wait (.check _ ender c esc), []) := by
          cases cs with
          | nil =>
            exact ⟨[], parse_into_wait (readSubpacketRx crc maxLen false) _ _
              (readSubpacketRx_check crc false maxLen _ ender []) hesc⟩
          | cons c1 cs =>
            obtain rfl : cs = [] := by
              rw [List.length_cons] at hcs
              exact List.length_eq_zero_iff.mp (by omega)
            refine ⟨[c1.value true], ?_⟩
            rw [List.flatMap_singleton, parse_check_unit]
            exact parse_into_wait (readSubpacketRx crc maxLen false) _ _
              (readSubpacketRx_check crc false maxLen _ ender [c1.value true]) hesc
        rw [call_of_wait (hdata.trans hc), readSubpacketRx_timeout]

/-! ### Round trip -/

def PacketSite.stored : PacketSite → List Byte
  | .data buf _ | .check buf _ _ _ => buf

theorem stored_length_le {bs rest : List Byte} {s : PacketSite}
    (h : parse (readSubpacketRx crc maxLen false) (.wait (.data [] false)) bs = (.wait s, rest)) :
    s.stored.length ≤ maxLen := by
  refine parse_invariant (fun s : PacketSite => s.stored.length ≤ maxLen) ?_ (Nat.zero_le _) h
  intro s b s' hs hstep
  cases s with
  | data buf esc =>
    rw [readSubpacketRx_data] at hstep
    cases hz : readZdleByteRx esc (.ok b) with
    | wait esc' =>
      rw [hz] at hstep
      cases hstep
      exact hs
    | done z =>
      rw [hz] at hstep
      cases z with
      | byte c =>
        simp only [Next.into, afterZdle, dataNext] at hstep
        split at hstep
        · rename_i hlt
          cases hstep
          show (buf ++ [c]).length ≤ maxLen
          rw [List.length_append, List.length_singleton]
          omega
        · cases hstep
      | ender c =>
        cases hstep
        exact hs
      | error => cases hstep
      | cancel => cases hstep
  | check buf ender c esc =>
    rw [readSubpacketRx_check] at hstep
    have hnext : ∀ c', checkNext crc false buf ender c' = .wait s' → s'.stored = buf := by
      intro c' hc
      by_cases hlen : c'.length < 2
      · have hmore : checkNext crc false buf ender c' = .wait (.check buf ender c' false) :=
          if_pos hlen
        rw [hmore] at hc
        cases hc
        rfl
      · have hdone : checkNext crc false buf ender c' =
            .done (if checkSubpacket crc false buf ender c' then some (buf, ender) else none) := by
          refine (if_neg hlen).trans ?_
          split <;> rfl
        rw [hdone] at hc
        cases hc
    have hsame : s'.stored = buf := by
      cases hz : readZdleByteRx esc (.ok b) with
      | wait esc' =>
        rw [hz] at hstep
        cases hstep
        rfl
      | done z =>
        rw [hz] at hstep
        cases z with
        | byte b' => exact hnext _ hstep
        | ender b' => exact hnext _ hstep
        | error => cases hstep
        | cancel => cases hstep
    rw [hsame]
    exact hs

/-- A subpacket of at most 1024 bytes is read back and nothing behind it is consumed; a
longer one is refused; on no stream are more than 1024 bytes stored. -/
theorem readSubpacketRx_subpacket :
    (∀ (buf : List Byte) (ender : Byte) (t : List Byte), IsFrameEnd ender → buf.length ≤ 1024 →
      parse (readSubpacketRx crc 1024 false) (.wait (.data [] false))
        (subpacket crc buf ender ++ t) = (.done (some (buf, ender)), t)) ∧
    (∀ (buf : List Byte) (ender : Byte) (t : List Byte), 1024 < buf.length →
      ∃ left, parse (readSubpacketRx crc 1024 false) (.wait (.data [] false))
        (subpacket crc buf ender ++ t) = (.done none, left)) ∧
    ∀ (bs rest : List Byte) (s : PacketSite),
      parse (readSubpacketRx crc 1024 false) (.wait (.data [] false)) bs = (.wait s, rest) →
        s.stored.length ≤ 1024 := by
  refine ⟨?_, ?_, fun bs rest s h => stored_length_le crc 1024 h⟩
  · intro buf ender t he hlen
    have hread := parse_packet crc 1024 (.sent crc buf ender he) t (by
      show (buf.map ZUnit.ofByte).length ≤ 1024
      rw [List.length_map]
      exact hlen)
    rw [PacketUnits.bytes_sent, if_pos (PacketUnits.checked_sent crc buf ender he),
      PacketUnits.payload_sent] at hread
    exact hread
  · intro buf ender t hlen
    have hdata : subpacket crc buf ender ++ t = (buf.map ZUnit.ofByte).flatMap ZUnit.bytes ++
        (zdle :: ender :: zdleCrc (modemCrc16Update crc (modemCrc16 crc buf) [ender]) ++ t) := by
      rw [List.flatMap_map, List.flatMap_congr fun b _ => ZUnit.bytes_ofByte b]
      simp [subpacket]
    rw [hdata]
    apply parse_data_overflow
    · intro u hu
      obtain ⟨b, -, rfl⟩ := List.mem_map.mp hu
      exact ZUnit.not_isEnder_ofByte b
    · rw [List.length_map]
      exact hlen

/-- Four bytes behind each other that all need care, sent with ZCRCQ. -/
theorem readSubpacketRx_subpacket_escapes :
    parse (readSubpacketRx referenceCrc 1024 false) (.wait (.data [] false))
        (subpacket referenceCrc [zdle, zcrce, 0x13, 0xFF] zcrcq ++ [zpad]) =
      (.done (some ([zdle, zcrce, 0x13, 0xFF], zcrcq)), [zpad]) :=
  (readSubpacketRx_subpacket referenceCrc).1 [zdle, zcrce, 0x13, 0xFF] zcrcq [zpad] (by decide)
    (by decide)

/-! ### Exactly the grammar -/

/-- The stream starts with a subpacket whose CRC is sent as two data units. -/
def InGrammar (bs p : List Byte) (ender : Byte) : Prop :=
  ∃ (k : PacketUnits) (rest : List Byte), bs = k.bytes ++ rest ∧ k.data.length ≤ maxLen ∧
    ¬ k.check1.IsEnder ∧ ¬ k.check2.IsEnder ∧ k.Checked crc ∧ p = k.payload ∧ ender = k.ender

/-- The stream starts with a subpacket in which a frame end stands for a byte of the CRC. -/
def EnderForCrc (bs : List Byte) : Prop :=
  ∃ (k : PacketUnits) (rest : List Byte), bs = k.bytes ++ rest ∧ k.data.length ≤ maxLen ∧
    k.Checked crc ∧ (k.check1.IsEnder ∨ k.check2.IsEnder)

theorem inGrammar_packet_iff (k : PacketUnits) (rest p : List Byte) (ender : Byte)
    (hlen : k.data.length ≤ maxLen) :
    InGrammar crc maxLen (k.bytes ++ rest) p ender ↔
      ¬ k.check1.IsEnder ∧ ¬ k.check2.IsEnder ∧ k.Checked crc ∧ p = k.payload ∧
        ender = k.ender := by
  constructor
  · rintro ⟨l, rest', hbytes, -, hgrammar⟩
    obtain ⟨rfl, -⟩ := PacketUnits.bytes_append_inj hbytes
    exact hgrammar
  · intro hgrammar
    exact ⟨k, rest, rfl, hlen, hgrammar⟩

theorem enderForCrc_packet_iff (k : PacketUnits) (rest : List Byte)
    (hlen : k.data.length ≤ maxLen) :
    EnderForCrc crc maxLen (k.bytes ++ rest) ↔
      k.Checked crc ∧ (k.check1.IsEnder ∨ k.check2.IsEnder) := by
  constructor
  · rintro ⟨l, rest', hbytes, -, hender⟩
    obtain ⟨rfl, -⟩ := PacketUnits.bytes_append_inj hbytes
    exact hender
  · intro hender
    exact ⟨k, rest, rfl, hlen, hender⟩

theorem call_packet_eq_iff (k : PacketUnits) (rest p : List Byte) (ender : Byte)
    (hlen : k.data.length ≤ maxLen) :
    (call (readSubpacketRx crc maxLen false) (.data [] false) (k.bytes ++ rest)).1 =
        .done (some (p, ender)) ↔
      k.Checked crc ∧ p = k.payload ∧ ender = k.ender := by
  rw [call_of_done (parse_packet crc maxLen k rest hlen), Next.done.injEq]
  by_cases hc : k.Checked crc
  · rw [if_pos hc, Option.some.injEq, Prod.mk.injEq, and_iff_right hc]
    exact and_congr eq_comm eq_comm
  · rw [if_neg hc]
    constructor
    · intro h
      cases h
    · intro h
      exact absurd h.1 hc

/-- The reader accepts a stream exactly by the grammar, unless the stream starts with
a subpacket in which a frame end stands for a byte of the right CRC. -/
theorem readSubpacketRx_grammar_iff (bs : List Byte) :
    (∀ (p : List Byte) (ender : Byte),
      (call (readSubpacketRx crc 1024 false) (.data [] false) bs).1 = .done (some (p, ender)) ↔
        InGrammar crc 1024 bs p ender) ↔ ¬ EnderForCrc crc 1024 bs := by
  by_cases hk : ∃ (k : PacketUnits) (rest : List Byte), k.data.length ≤ 1024 ∧ bs = k.bytes ++ rest
  · obtain ⟨k, rest, hlen, rfl⟩ := hk
    simp only [call_packet_eq_iff crc 1024 k rest _ _ hlen,
      inGrammar_packet_iff crc 1024 k rest _ _ hlen]
    rw [enderForCrc_packet_iff crc 1024 k rest hlen]
    constructor
    · rintro h ⟨hc, hender⟩
      obtain ⟨h1, h2, -⟩ := (h k.payload k.ender).mp ⟨hc, rfl, rfl⟩
      exact hender.elim h1 h2
    · intro h p ender
      constructor
      · rintro ⟨hc, hp, he⟩
        exact ⟨fun h1 => h ⟨hc, .inl h1⟩, fun h2 => h ⟨hc, .inr h2⟩, hc, hp, he⟩
      · rintro ⟨-, -, hc, hp, he⟩
        exact ⟨hc, hp, he⟩
  · have hno : ∀ (k : PacketUnits) rest, k.data.length ≤ 1024 → bs ≠ k.bytes ++ rest := by
      intro k rest hlen hbs
      exact hk ⟨k, rest, hlen, hbs⟩
    rw [call_of_no_packet crc 1024 hno]
    constructor
    · rintro - ⟨k, rest, hbs, hlen, -⟩
      exact hno k rest hlen hbs
    · intro _ p ender
      constructor
      · intro h
        cases h
      · rintro ⟨k, rest, hbs, hlen, -⟩
        exact absurd hbs (hno k rest hlen)

/-- The one byte `$`: its CRC starts with 0x69, sent as the frame end ZDLE ZCRCG. -/
theorem readSubpacketRx_takes_ender :
    ¬ ∀ (bs p : List Byte) (ender : Byte),
      (call (readSubpacketRx referenceCrc 1024 false) (.data [] false) bs).1 =
          .done (some (p, ender)) ↔ InGrammar referenceCrc 1024 bs p ender := by
  intro h
  let k : PacketUnits := ⟨[.plain 0x24 (by decide)], zcrcw, .pair zcrcg, .plain 0x3E (by decide),
    by decide, by decide⟩
  have hread : (call (readSubpacketRx referenceCrc 1024 false) (.data [] false)
      (k.bytes ++ [])).1 = .done (some ([0x24], zcrcw)) := by
    decide +kernel
  obtain ⟨hplain, -⟩ := (inGrammar_packet_iff referenceCrc 1024 k [] _ _ (by decide)).mp
    ((h (k.bytes ++ []) [0x24] zcrcw).mp hread)
  exact hplain (by decide)

end ZephyrModem.Zmodem
