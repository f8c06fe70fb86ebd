import ZephyrModem.Ymodem.Block0

/-!
# The YMODEM receiver on one packet

What `ymodem_receive` does with the bytes of an undamaged packet, and what any
single read can lead to.
-/

namespace ZephyrModem.Ymodem
open ZephyrModem.Reactive ZephyrModem.Transfer
open ZephyrModem.Xmodem (Byte Read soh stx eot ack nak can charC)

variable {υ : Type} (P : Platform) (crc : CrcService) (cbs : RxCallbacks υ)

/-! ### A whole packet -/

theorem feed_rxAt (s : RxState υ) (b : Byte) (site : RxSite) (v : RxLocals υ)
    (h : receiveStep P crc cbs s (.ok b) = rxAt site v) (bs : List Byte) :
    feed (receiveStep P crc cbs) (.wait s) (b :: bs) =
      feed (receiveStep P crc cbs) (.wait ⟨site, v⟩) bs := by
  rw [feed_cons, h]
  rfl

theorem feed_header (v : RxLocals υ) (payload : List Byte) (bs : List Byte)
    (hlen : payload.length = 128 ∨ payload.length = 1024) :
    feed (receiveStep P crc cbs) (.wait ⟨.header, v⟩)
        ((if payload.length = 1024 then stx else soh) :: bs) =
      feed (receiveStep P crc cbs) (.wait ⟨.blkNum payload.length, v⟩) bs := by
  apply feed_rxAt
  obtain ⟨retries, phase, u⟩ := v
  rcases hlen with h | h <;> cases phase <;>
    simp [receiveStep, headerByte, openPacket, h, soh, stx, eot, can]

theorem feed_payload_part (v : RxLocals υ) (len : ℕ) (n : Byte) (buf bs : List Byte)
    (h : buf.length + bs.length < len) :
    feed (receiveStep P crc cbs) (.wait ⟨.payload len n buf, v⟩) bs =
      ⟨[], .wait ⟨.payload len n (buf ++ bs), v⟩⟩ := by
  induction bs generalizing buf with
  | nil => rw [List.append_nil, feed_nil]
  | cons b bs ih =>
    rw [List.length_cons] at h
    have hlt : (buf ++ [b]).length < len := by
      rw [List.length_append, List.length_singleton]
      omega
    rw [feed_rxAt P crc cbs ⟨.payload len n buf, v⟩ b (.payload len n (buf ++ [b])) v]
    · rw [ih (buf ++ [b]) (by rw [List.length_append, List.length_singleton]; omega)]
      simp
    · simp only [receiveStep, hlt, if_true]

theorem feed_payload (v : RxLocals υ) (n : Byte) (payload rest : List Byte) (hne : payload ≠ []) :
    feed (receiveStep P crc cbs) (.wait ⟨.payload payload.length n [], v⟩) (payload ++ rest) =
      feed (receiveStep P crc cbs) (.wait ⟨.crcHi n payload false, v⟩) rest := by
  obtain ⟨init, b, rfl⟩ : ∃ init b, payload = init ++ [b] :=
    ⟨payload.dropLast, payload.getLast hne, (List.dropLast_append_getLast hne).symm⟩
  have hlen : (init ++ [b]).length = init.length + 1 := by simp
  rw [List.append_assoc, feed_append, feed_payload_part P crc cbs v _ n [] init (by
    rw [hlen, List.length_nil]
    omega), Out.after_nil, List.nil_append, List.singleton_append]
  apply feed_rxAt
  simp only [receiveStep, Nat.lt_irrefl, if_false]

theorem acceptBlock0_end (v : RxLocals υ) (payload : List Byte)
    (h : (parseBlock0 P payload 128).filename = []) :
    acceptBlock0 P cbs v payload = ⟨sendByte ack, .done .ok⟩ := if_pos h

theorem acceptBlock0_file (v : RxLocals υ) (payload : List Byte)
    (h : (parseBlock0 P payload 128).filename ≠ []) :
    acceptBlock0 P cbs v payload =
      ⟨sendByte ack ++ sendByte charC ++ (callFileStart cbs (parseBlock0 P payload 128) v.userData).1,
        .wait ⟨.header, { v with
          phase := .data ⟨parseBlock0 P payload 128, 1, 0⟩
          userData := (callFileStart cbs (parseBlock0 P payload 128) v.userData).2 }⟩⟩ := if_neg h

theorem acceptBlock0_block0Payload {info : FileInfo} (h : Fits P info) (v : RxLocals υ) :
    acceptBlock0 P cbs v (block0Payload info) =
      ⟨sendByte ack ++ sendByte charC ++ (callFileStart cbs info v.userData).1,
        .wait ⟨.header, { v with
          phase := .data ⟨info, 1, 0⟩
          userData := (callFileStart cbs info v.userData).2 }⟩⟩ := by
  have hparse := parseBlock0_block0Payload h
  have hname : (parseBlock0 P (block0Payload info) 128).filename ≠ [] := by
    rw [hparse]
    exact h.name_ne_nil
  rw [acceptBlock0_file P cbs v _ hname, hparse]

def FileLocals.next (P : Platform) (g : FileLocals) (blkSize : ℕ) : FileLocals :=
  { g with fileOffset := P.toSize (g.fileOffset + blkSize), expectedBlk := g.expectedBlk + 1 }

/-- The reaction to the last byte of a packet whose CRC is right. -/
def packetDone (v : RxLocals υ) (n : Byte) (payload : List Byte) : RxOut υ :=
  match v.phase with
  | .block0 => if n ≠ 0 then rxAt .purge v else acceptBlock0 P cbs v payload
  | .data f => acceptBlock P cbs v f n payload

/-- The state before the last byte of a packet. -/
def lastRead (crc : CrcService) (v : RxLocals υ) (n : Byte) (payload : List Byte) : RxState υ :=
  ⟨.crcLo n payload false (crcHi (modemCrc16 crc payload)), v⟩

theorem feed_packet_init (v : RxLocals υ) (n : Byte) (payload : List Byte)
    (hlen : payload.length = 128 ∨ payload.length = 1024) :
    feed (receiveStep P crc cbs) (.wait ⟨.header, v⟩) (packet crc n payload).dropLast =
      ⟨[], .wait (lastRead crc v n payload)⟩ := by
  have hne : payload ≠ [] := by
    rintro rfl
    simp at hlen
  have hinit : (packet crc n payload).dropLast = (if payload.length = 1024 then stx else soh) ::
      n :: ~~~n :: (payload ++ [crcHi (modemCrc16 crc payload)]) := by
    unfold packet
    rw [List.dropLast_cons_of_ne_nil (by simp), List.dropLast_cons_of_ne_nil (by simp),
      List.dropLast_cons_of_ne_nil (by simp), List.dropLast_append_of_ne_nil (by simp)]
    rfl
  rw [hinit, feed_header P crc cbs v payload _ hlen,
    feed_rxAt P crc cbs ⟨.blkNum payload.length, v⟩ n (.blkNumInv payload.length n) v rfl,
    feed_rxAt P crc cbs ⟨.blkNumInv payload.length n, v⟩ (~~~n) (.payload payload.length n []) v rfl,
    feed_payload P crc cbs v n payload _ hne,
    feed_rxAt P crc cbs ⟨.crcHi n payload false, v⟩ _ (.crcLo n payload false _) v rfl, feed_nil]
  rfl

theorem packet_eq_append (n : Byte) (payload : List Byte) :
    packet crc n payload = (packet crc n payload).dropLast ++ [crcLo (modemCrc16 crc payload)] := by
  have hne : packet crc n payload ≠ [] := by
    unfold packet
    simp
  have hlast : (packet crc n payload).getLast hne = crcLo (modemCrc16 crc payload) := by
    simp [packet]
  rw [← hlast, List.dropLast_append_getLast]

theorem receiveStep_lastRead (v : RxLocals υ) (n : Byte) (payload : List Byte) :
    receiveStep P crc cbs (lastRead crc v n payload) (.ok (crcLo (modemCrc16 crc payload))) =
      packetDone P cbs v n payload := by
  cases hp : v.phase with
  | block0 => simp [lastRead, receiveStep, checkPacket, packetDone, hp, be16_crcHi_crcLo]
  | data f => simp [lastRead, receiveStep, checkPacket, packetDone, hp, be16_crcHi_crcLo]

theorem feed_packet (v : RxLocals υ) (n : Byte) (payload : List Byte)
    (hlen : payload.length = 128 ∨ payload.length = 1024) :
    feed (receiveStep P crc cbs) (.wait ⟨.header, v⟩) (packet crc n payload) =
      packetDone P cbs v n payload := by
  rw [packet_eq_append, feed_snoc _ (feed_packet_init P crc cbs v n payload hlen),
    receiveStep_lastRead]

theorem feed_block0 {info : FileInfo} (h : Fits P info) (u : υ) :
    feed (receiveStep P crc cbs) (ymodemReceive u).next (packet crc 0 (block0Payload info)) =
      ⟨sendByte ack ++ sendByte charC ++ (callFileStart cbs info u).1,
        .wait ⟨.header, ⟨0, .data ⟨info, 1, 0⟩, (callFileStart cbs info u).2⟩⟩⟩ := by
  have hpacket := feed_packet P crc cbs ⟨0, .block0, u⟩ 0 (block0Payload info)
    (.inl (length_block0Payload h))
  exact hpacket.trans (acceptBlock0_block0Payload P cbs h _)

theorem visit_packet {m : Next (RxState υ) Status} {reads : List Read} {v : RxLocals υ}
    (h : (run (receiveStep P crc cbs) m reads).next = .wait ⟨.header, v⟩) (n : Byte)
    (payload : List Byte) (hlen : payload.length = 128 ∨ payload.length = 1024) :
    (lastRead crc v n payload, .ok (crcLo (modemCrc16 crc payload))) ∈
      visits (receiveStep P crc cbs) m (reads ++ (packet crc n payload).map .ok) := by
  have hinit := feed_packet_init P crc cbs v n payload hlen
  unfold feed at hinit
  rw [packet_eq_append, List.map_append, visits_append, visits_append, h, hinit]
  exact List.mem_append_right _ (List.mem_append_right _ (List.mem_singleton.mpr rfl))

/-! ### What one read can lead to -/

/-- Nothing but requests: `'C'`, NAK and CAN. -/
def Requests (es : List Event) : Prop := ∀ e ∈ es, e = .write charC ∨ e = .write nak ∨ e = .write can

theorem Requests.writes {es : List Event} (h : Requests es) : Writes es := by
  intro e he
  rcases h e he with h | h | h
  · exact ⟨_, h⟩
  · exact ⟨_, h⟩
  · exact ⟨_, h⟩

theorem Requests.append {as bs : List Event} (ha : Requests as) (hb : Requests bs) :
    Requests (as ++ bs) := by
  intro e he
  rcases List.mem_append.mp he with h | h
  · exact ha e h
  · exact hb e h

theorem requests_nil : Requests [] := by
  intro e he
  cases he

theorem requests_charC : Requests (sendByte charC) := by
  intro e he
  exact .inl (List.mem_singleton.mp he)

theorem requests_nak : Requests (sendByte nak) := by
  intro e he
  exact .inr (.inl (List.mem_singleton.mp he))

theorem requests_can : Requests (sendByte can) := by
  intro e he
  exact .inr (.inr (List.mem_singleton.mp he))

theorem requestAgain_cases (v : RxLocals υ) :
    (∃ es, Requests es ∧ requestAgain v = ⟨es, .done .errorTimeout⟩) ∨
    ∃ es, Requests es ∧
      requestAgain v = ⟨es, .wait ⟨.header, { v with retries := v.retries + 1 }⟩⟩ := by
  by_cases h : v.retries + 1 < maxRetries
  · exact .inr ⟨_, requests_charC, if_pos h⟩
  · exact .inl ⟨_, requests_charC.append requests_can, if_neg h⟩

/-- The reads that follow one another without an answer. -/
inductive RxSite.ReadsOn (phase : Phase) : RxSite → Read → RxSite → Prop where
  | block128 : ReadsOn phase .header (.ok soh) (.blkNum 128)
  | block1024 : ReadsOn phase .header (.ok stx) (.blkNum 1024)
  | number (len : ℕ) (n : Byte) : ReadsOn phase (.blkNum len) (.ok n) (.blkNumInv len n)
  | complement (len : ℕ) (n inv : Byte) : ReadsOn phase (.blkNumInv len n) (.ok inv) (.payload len n [])
  | byte {len : ℕ} (n : Byte) {buf : List Byte} {b : Byte} (h : (buf ++ [b]).length < len) :
      ReadsOn phase (.payload len n buf) (.ok b) (.payload len n (buf ++ [b]))
  | last {len : ℕ} (n : Byte) {buf : List Byte} {b : Byte} (h : ¬ (buf ++ [b]).length < len) :
      ReadsOn phase (.payload len n buf) (.ok b) (.crcHi n (buf ++ [b]) false)
  | missing (len : ℕ) (n : Byte) (buf : List Byte) (r : Read) :
      ReadsOn phase (.payload len n buf) r (.crcHi n buf true)
  | check (n : Byte) (buf : List Byte) (e : Bool) (hi : Byte) :
      ReadsOn phase (.crcHi n buf e) (.ok hi) (.crcLo n buf e hi)
  | rejected (site : RxSite) (r : Read) (h : site ≠ .secondEot) : ReadsOn phase site r .purge
  | outside (r : Read) (h : phase = .block0) : ReadsOn phase .secondEot r .secondEot  -- not reached

/-- The block sizes at a read. -/
def BlockSite : RxSite → Prop
  | .blkNum len | .blkNumInv len _ => len = 128 ∨ len = 1024
  | .payload len _ buf => (len = 128 ∨ len = 1024) ∧ buf.length < len
  | .crcHi _ buf e | .crcLo _ buf e _ => e = false → buf.length = 128 ∨ buf.length = 1024
  | _ => True

theorem BlockSite.readsOn {phase : Phase} {site site' : RxSite} {r : Read} (h : BlockSite site)
    (hnext : site.ReadsOn phase r site') : BlockSite site' := by
  cases hnext with
  | block128 => exact .inl rfl
  | block1024 => exact .inr rfl
  | number len n => exact h
  | complement len n inv =>
    refine ⟨h, ?_⟩
    rcases h with rfl | rfl <;> decide
  | byte n hmore => exact ⟨h.1, hmore⟩
  | last n hend =>
    intro _
    rw [Xmodem.length_full h.2 hend]
    exact h.1
  | missing len n buf r =>
    intro he
    cases he
  | check n buf e hi => exact h
  | rejected site r hsite => trivial
  | outside r hphase => trivial

/-- A verified Block 0 comes in. -/
def AcceptsBlock0 (s : RxState υ) (r : Read) (buf : List Byte) : Prop :=
  s.locals.phase = .block0 ∧
    ∃ hi lo, s.site = .crcLo 0 buf false hi ∧ r = .ok lo ∧ modemCrc16 crc buf = be16 hi lo

theorem AcceptsBlock0.step {s : RxState υ} {r : Read} {buf : List Byte}
    (h : AcceptsBlock0 crc s r buf) :
    receiveStep P crc cbs s r = acceptBlock0 P cbs s.locals buf := by
  obtain ⟨hp, hi, lo, hs, rfl, hcrc⟩ := h
  simp [receiveStep, hs, checkPacket, hp, hcrc]

/-- A verified block of the file comes in. -/
def AcceptsBlock (s : RxState υ) (r : Read) (f : FileLocals) (n : Byte) (buf : List Byte) : Prop :=
  s.locals.phase = .data f ∧
    ∃ hi lo, s.site = .crcLo n buf false hi ∧ r = .ok lo ∧ modemCrc16 crc buf = be16 hi lo

theorem AcceptsBlock.step {s : RxState υ} {r : Read} {f : FileLocals} {n : Byte} {buf : List Byte}
    (h : AcceptsBlock crc s r f n buf) :
    receiveStep P crc cbs s r = acceptBlock P cbs s.locals f n buf := by
  obtain ⟨hp, hi, lo, hs, rfl, hcrc⟩ := h
  simp [receiveStep, hs, checkPacket, hp, hcrc]

/-- A packet counts as missing or as rejected: the header read times out, or a purge ends. -/
def misses (s : RxState υ) (r : Read) : Bool :=
  match s.site, r with
  | .header, .timeout => true
  | .purge, .ok _ => false
  | .purge, _ => true
  | _, _ => false

/-- What one read can lead to: another read with the locals unchanged, another
request, the answer to EOT, a failure in step 1, a failure of the file in step 2,
the end of the file, Block 0, or a block. -/
inductive Outcome (s : RxState υ) (r : Read) : Prop where
  | readsOn (site : RxSite) (hnext : s.site.ReadsOn s.locals.phase r site)
      (hstep : receiveStep P crc cbs s r = rxAt site s.locals)
  | asks (es : List Event) (v : RxLocals υ) (hmiss : misses s r = true) (hes : Requests es)
      (hphase : v.phase = s.locals.phase) (huser : v.userData = s.locals.userData)
      (hstep : receiveStep P crc cbs s r = ⟨es, .wait ⟨.header, v⟩⟩)
  | firstEot (f : FileLocals) (hsite : s.site = .header) (hread : r = .ok eot)
      (hphase : s.locals.phase = .data f)
      (hstep : receiveStep P crc cbs s r = ⟨sendByte nak, .wait ⟨.secondEot, s.locals⟩⟩)
  | stops (es : List Event) (st : Status) (hes : Requests es) (hst : st ≠ .ok)
      (hphase : s.locals.phase = .block0) (hstep : receiveStep P crc cbs s r = ⟨es, .done st⟩)
  | failsFile (es : List Event) (f : FileLocals) (st : Status) (hes : Requests es) (hst : st ≠ .ok)
      (hphase : s.locals.phase = .data f)
      (hstep : receiveStep P crc cbs s r = fileFails cbs es f st s.locals.userData)
  | endsFile (f : FileLocals) (hsite : s.site = .secondEot) (hphase : s.locals.phase = .data f)
      (hstep : receiveStep P crc cbs s r = endFile cbs s.locals r)
  | takesBlock0 (buf : List Byte) (haccepts : AcceptsBlock0 crc s r buf)
      (hstep : receiveStep P crc cbs s r = acceptBlock0 P cbs s.locals buf)
  | takesBlock (f : FileLocals) (n : Byte) (buf : List Byte) (haccepts : AcceptsBlock crc s r f n buf)
      (hstep : receiveStep P crc cbs s r = acceptBlock P cbs s.locals f n buf)

theorem outcome_of_requestAgain {s : RxState υ} {r : Read} (hmiss : misses s r = true)
    (hphase : s.locals.phase = .block0)
    (hstep : receiveStep P crc cbs s r = requestAgain s.locals) : Outcome P crc cbs s r := by
  rcases requestAgain_cases s.locals with ⟨es, hes, h⟩ | ⟨es, hes, h⟩
  · exact .stops es .errorTimeout hes (by decide) hphase (hstep.trans h)
  · exact .asks es { s.locals with retries := s.locals.retries + 1 } hmiss hes rfl rfl
      (hstep.trans h)

theorem outcome_of_openPacket {v : RxLocals υ} {header : Byte}
    (hstep : receiveStep P crc cbs ⟨.header, v⟩ (.ok header) = openPacket v header) :
    Outcome P crc cbs ⟨.header, v⟩ (.ok header) := by
  unfold openPacket at hstep
  split_ifs at hstep with hneither hstx
  · exact .readsOn .purge (.rejected _ _ (by simp)) hstep
  · exact .readsOn _ (hstx ▸ .block1024) hstep
  · have hsoh : header = soh := by
      by_contra hsoh
      exact hneither ⟨hsoh, hstx⟩
    exact .readsOn _ (hsoh ▸ .block128) hstep

theorem outcome_of_purge {s : RxState υ} {r : Read} (hsite : s.site ≠ .secondEot)
    (hstep : receiveStep P crc cbs s r = rxAt .purge s.locals) : Outcome P crc cbs s r :=
  .readsOn .purge (.rejected _ _ hsite) hstep

theorem outcome_header_block0 {v : RxLocals υ} (hp : v.phase = .block0) (r : Read) :
    Outcome P crc cbs ⟨.header, v⟩ r := by
  cases r with
  | cancel =>
    refine .stops _ .errorCancel (requests_can.append requests_can) (by decide) hp ?_
    simp [receiveStep, headerCancel, hp]
  | timeout =>
    apply outcome_of_requestAgain P crc cbs rfl hp
    simp [receiveStep, headerTimeout, hp]
  | ok b =>
    by_cases hb : b = can
    · refine .stops [] .errorCancel requests_nil (by decide) hp ?_
      simp [receiveStep, headerByte, hp, hb]
    · apply outcome_of_openPacket
      simp [receiveStep, headerByte, hp, hb]

theorem outcome_header_data {v : RxLocals υ} {f : FileLocals} (hp : v.phase = .data f) (r : Read) :
    Outcome P crc cbs ⟨.header, v⟩ r := by
  cases r with
  | cancel =>
    refine .failsFile _ f .errorCancel (requests_can.append requests_can) (by decide) hp ?_
    simp [receiveStep, headerCancel, hp]
  | timeout =>
    by_cases hr : v.retries + 1 > maxRetries
    · refine .failsFile _ f .errorTimeout requests_can (by decide) hp ?_
      simp only [receiveStep, headerTimeout, hp, if_pos hr]
    · refine .asks (sendByte nak) { v with retries := v.retries + 1 } rfl requests_nak rfl rfl ?_
      simp only [receiveStep, headerTimeout, hp, if_neg hr]
  | ok b =>
    by_cases heot : b = eot
    · subst heot
      refine .firstEot f rfl rfl hp ?_
      simp [receiveStep, headerByte, hp]
    · by_cases hb : b = can
      · refine .failsFile [] f .errorCancel requests_nil (by decide) hp ?_
        simp only [receiveStep, headerByte, hp, if_neg heot, if_pos hb]
      · apply outcome_of_openPacket
        simp [receiveStep, headerByte, hp, heot, hb]

/-- The last byte of a packet of which nothing is missing. -/
theorem outcome_crcLo (v : RxLocals υ) (n : Byte) (buf : List Byte) (hi lo : Byte) :
    Outcome P crc cbs ⟨.crcLo n buf false hi, v⟩ (.ok lo) := by
  cases hp : v.phase with
  | block0 =>
    by_cases hcrc : be16 hi lo ≠ modemCrc16 crc buf ∨ n ≠ 0
    · apply outcome_of_purge P crc cbs (by simp)
      simp [receiveStep, checkPacket, hp, hcrc]
    · rw [not_or, not_not, not_not] at hcrc
      obtain ⟨hcrc, rfl⟩ := hcrc
      have ha : AcceptsBlock0 crc ⟨.crcLo 0 buf false hi, v⟩ (.ok lo) buf :=
        ⟨hp, hi, lo, rfl, rfl, hcrc.symm⟩
      exact .takesBlock0 buf ha (ha.step P crc cbs)
  | data f =>
    by_cases hcrc : modemCrc16 crc buf = be16 hi lo
    · have ha : AcceptsBlock crc ⟨.crcLo n buf false hi, v⟩ (.ok lo) f n buf :=
        ⟨hp, hi, lo, rfl, rfl, hcrc⟩
      exact .takesBlock f n buf ha (ha.step P crc cbs)
    · apply outcome_of_purge P crc cbs (by simp)
      simp [receiveStep, checkPacket, hp, hcrc]

theorem outcome_of_afterPurge {v : RxLocals υ} {r : Read} (hmiss : misses ⟨.purge, v⟩ r = true)
    (hstep : receiveStep P crc cbs ⟨.purge, v⟩ r = afterPurge v) :
    Outcome P crc cbs ⟨.purge, v⟩ r := by
  cases hp : v.phase with
  | block0 =>
    apply outcome_of_requestAgain P crc cbs hmiss hp
    simp [hstep, afterPurge, hp]
  | data f =>
    refine .asks (sendByte nak) v hmiss requests_nak rfl rfl ?_
    simp only [hstep, afterPurge, hp]

theorem receiveStep_cases (s : RxState υ) (r : Read) : Outcome P crc cbs s r := by
  obtain ⟨site, v⟩ := s
  cases site with
  | header =>
    cases hp : v.phase with
    | block0 => exact outcome_header_block0 P crc cbs hp r
    | data f => exact outcome_header_data P crc cbs hp r
  | secondEot =>
    cases hp : v.phase with
    | block0 => exact .readsOn .secondEot (.outside r hp) (by simp [receiveStep, endFile, hp])
    | data f => exact .endsFile f rfl hp rfl
  | blkNum len =>
    cases r with
    | ok b => exact .readsOn _ (.number len b) rfl
    | timeout | cancel => exact outcome_of_purge P crc cbs (by simp) rfl
  | blkNumInv len n =>
    cases r with
    | ok b => exact .readsOn _ (.complement len n b) rfl
    | timeout | cancel => exact outcome_of_purge P crc cbs (by simp) rfl
  | payload len n buf =>
    cases r with
    | ok b =>
      by_cases hmore : (buf ++ [b]).length < len
      · exact .readsOn _ (.byte n hmore) (by simp only [receiveStep, if_pos hmore])
      · exact .readsOn _ (.last n hmore) (by simp only [receiveStep, if_neg hmore])
    | timeout | cancel => exact .readsOn _ (.missing len n buf _) rfl
  | crcHi n buf e =>
    cases r with
    | ok b => exact .readsOn _ (.check n buf e b) rfl
    | timeout | cancel => exact outcome_of_purge P crc cbs (by simp) rfl
  | crcLo n buf e hi =>
    cases r with
    | timeout | cancel => exact outcome_of_purge P crc cbs (by simp) rfl
    | ok lo =>
      cases e with
      | true => exact outcome_of_purge P crc cbs (by simp) (by simp [receiveStep, checkPacket])
      | false => exact outcome_crcLo P crc cbs v n buf hi lo
  | purge =>
    cases r with
    | ok b => exact outcome_of_purge P crc cbs (by simp) rfl
    | timeout | cancel => exact outcome_of_afterPurge P crc cbs rfl rfl

/-- Where an event of a read comes from: bytes for the line anywhere, a failed end
of a file, the end of a file at EOT, Block 0 of a file, or a block in sequence. -/
theorem mem_receiveStep_events {s : RxState υ} {r : Read} {e : Event}
    (h : e ∈ (receiveStep P crc cbs s r).events) :
    (∃ b, e = .write b) ∨
    (∃ info st, st ≠ .ok ∧ e = .onFileEnd info st) ∨
    (∃ f, s.site = .secondEot ∧ s.locals.phase = .data f ∧ cbs.onFileEnd ≠ none ∧
      e = .onFileEnd f.info .ok) ∨
    (∃ buf res, AcceptsBlock0 crc s r buf ∧ (parseBlock0 P buf 128).filename ≠ [] ∧
      e = .onFileStart (parseBlock0 P buf 128) res) ∨
    ∃ f buf g, AcceptsBlock crc s r f f.expectedBlk buf ∧ cbs.onData = some g ∧
      0 < writeLen P f buf.length ∧ e = .onData buf (writeLen P f buf.length) f.fileOffset
        (g buf (writeLen P f buf.length) f.fileOffset s.locals.userData).1 := by
  have hfails : ∀ {es : List Event} {f st u}, Writes es → st ≠ .ok →
      e ∈ (fileFails cbs es f st u).events →
      (∃ b, e = .write b) ∨ ∃ info st, st ≠ .ok ∧ e = .onFileEnd info st := by
    intro es f st u hes hst hin
    rcases List.mem_append.mp hin with hin | hin
    · exact .inl (hes e hin)
    · exact .inr ⟨f.info, st, hst, ((mem_callFileEnd_iff cbs f.info st u e).mp hin).2⟩
  rcases receiveStep_cases P crc cbs s r with ⟨site, -, he⟩ | ⟨es, v, -, hes, -, -, he⟩ |
    ⟨f, -, -, -, he⟩ | ⟨es, st, hes, -, -, he⟩ | ⟨es, f, st, hes, hst, -, he⟩ | ⟨f, hs, hp, he⟩ |
    ⟨buf, ha, he⟩ | ⟨f, n, buf, ha, he⟩ <;> rw [he] at h
  · cases h
  · exact .inl (hes.writes e h)
  · exact .inl (writes_sendByte nak e h)
  · exact .inl (hes.writes e h)
  · rcases hfails hes.writes hst h with hb | hend
    · exact .inl hb
    · exact .inr (.inl hend)
  · simp only [endFile, hp, requestBlock0, Out.after_events, List.append_assoc, List.mem_append] at h
    rcases h with h | h | h
    · exact .inl (writes_sendByte ack e h)
    · obtain ⟨hend, rfl⟩ := (mem_callFileEnd_iff cbs f.info .ok _ e).mp h
      exact .inr (.inr (.inl ⟨f, hs, hp, hend, rfl⟩))
    · exact .inl (writes_sendByte charC e h)
  · by_cases hname : (parseBlock0 P buf 128).filename = []
    · rw [acceptBlock0_end P cbs _ _ hname] at h
      exact .inl (writes_sendByte ack e h)
    · rw [acceptBlock0_file P cbs _ _ hname] at h
      rcases List.mem_append.mp h with h | h
      · exact .inl ((writes_sendByte ack).append (writes_sendByte charC) e h)
      · rcases callFileStart_events cbs (parseBlock0 P buf 128) s.locals.userData with hs | ⟨res, hs⟩ <;>
          rw [hs] at h
        · cases h
        · exact .inr (.inr (.inr (.inl ⟨buf, res, ha, hname, List.mem_singleton.mp h⟩)))
  · unfold acceptBlock at h
    split_ifs at h with hn hd
    · subst hn
      rcases List.mem_append.mp h with h | h
      · obtain ⟨g, hg, hlen, rfl⟩ := (mem_callData_iff cbs _ _ _ _ e).mp h
        exact .inr (.inr (.inr (.inr ⟨f, buf, g, ha, hg, hlen, rfl⟩)))
      · exact .inl (writes_sendByte ack e h)
    · exact .inl (writes_sendByte ack e h)
    · rcases hfails (writes_sendByte can) (by decide) h with hb | hend
      · exact .inl hb
      · exact .inr (.inl hend)

theorem endFile_events {s : RxState υ} {f : FileLocals} (hend : cbs.onFileEnd ≠ none)
    (hs : s.site = .secondEot) (hp : s.locals.phase = .data f) (r : Read) :
    (receiveStep P crc cbs s r).events =
      sendByte ack ++ .onFileEnd f.info .ok :: sendByte charC := by
  obtain ⟨g, hg⟩ := Option.ne_none_iff_exists'.mp hend
  simp only [receiveStep, hs, endFile, hp, callFileEnd, hg, requestBlock0]
  rfl

theorem done_ok_site {s : RxState υ} {r : Read}
    (h : (receiveStep P crc cbs s r).next = .done .ok) :
    ∃ buf, AcceptsBlock0 crc s r buf ∧ (parseBlock0 P buf 128).filename = [] := by
  rcases receiveStep_cases P crc cbs s r with ⟨site, -, he⟩ | ⟨es, v, -, -, -, -, he⟩ |
    ⟨f, -, -, -, he⟩ | ⟨es, st, -, hst, -, he⟩ | ⟨es, f, st, -, hst, -, he⟩ | ⟨f, -, hp, he⟩ |
    ⟨buf, ha, he⟩ | ⟨f, n, buf, -, he⟩ <;> rw [he] at h
  · cases h
  · cases h
  · cases h
  · cases h
    exact absurd rfl hst
  · cases h
    exact absurd rfl hst
  · simp only [endFile, hp] at h
    cases h
  · by_cases hname : (parseBlock0 P buf 128).filename = []
    · exact ⟨buf, ha, hname⟩
    · rw [acceptBlock0_file P cbs _ _ hname] at h
      cases h
  · unfold acceptBlock at h
    split_ifs at h
    cases h

end ZephyrModem.Ymodem
