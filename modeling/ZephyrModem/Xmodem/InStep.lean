import ZephyrModem.Xmodem.Line

/-!
# Both sides in CRC mode

Once the transmitter has been asked for CRC, and the receiver still wants it, whole
packets are on the line and the two sides stay in step, until one of them returns.
-/

namespace ZephyrModem.Xmodem
open ZephyrModem.Reactive ZephyrModem.Reactive.Duplex

abbrev Line (υ υ' : Type) := Duplex Byte Event (TxSite υ) Status Event (RxState υ') RxResult

section InStep

variable {υ υ' : Type} (P : Platform) (crc : CrcService) (tcbs : TxCallbacks υ)
  (rcbs : RxCallbacks υ') (tcfg rcfg : Config) (totalLen : ℕ)

/-- `xmodem_transmit` with any callbacks. -/
def txParty : Party Byte Event (TxSite υ) Status := ⟨transmitStep P crc tcbs tcfg totalLen, Event.wire⟩

/-- A round of the block loop comes to send its packet. -/
def SendsPacket (v : TxLocals υ) : Prop :=
  0 < tcfg.maxRetries ∧
    0 ≤ (tcbs.dataCb v.blockNum (List.replicate (blockSizeAt P tcfg totalLen v.bytesSent) 0x1A)
      v.userData).1

/-! ### What the transmitter sends -/

section Transmitter

variable {tcbs tcfg}

theorem blockSizeAt_cases (bytesSent : ℕ) :
    blockSizeAt P tcfg totalLen bytesSent = blockSize128 ∨
      blockSizeAt P tcfg totalLen bytesSent = blockSize1024 := by
  unfold blockSizeAt
  split
  · exact .inl rfl
  · exact txBlockSize_cases tcfg

/-- One round of the block loop: a packet, CAN and the end, or EOT. -/
theorem nextBlock_cases (v : TxLocals υ) :
    (SendsPacket P tcbs tcfg totalLen v ∧ ∃ payload res u,
      (payload.length = blockSize128 ∨ payload.length = blockSize1024) ∧
      nextBlock P crc tcbs tcfg totalLen v =
        ⟨.dataCb v.blockNum payload res :: writeBytes (packet crc v.crcMode v.blockNum payload),
          .wait (.reply { v with userData := u } 0 payload)⟩) ∨
    (¬ SendsPacket P tcbs tcfg totalLen v ∧ ∃ es st, es.filterMap Event.wire = [can] ∧
      nextBlock P crc tcbs tcfg totalLen v = ⟨es, .done st⟩) ∨
    (0 < v.bytesSent ∧ ∃ es, es.filterMap Event.wire = [] ∧
      nextBlock P crc tcbs tcfg totalLen v = (sendEot tcfg 0).after es) := by
  by_cases hloop : totalLen = 0 ∨ v.bytesSent < totalLen
  · unfold SendsPacket
    generalize hcall : tcbs.dataCb v.blockNum
      (List.replicate (blockSizeAt P tcfg totalLen v.bytesSent) 0x1A) v.userData = called
    have hlen : called.2.1.length = blockSize128 ∨ called.2.1.length = blockSize1024 := by
      rw [← hcall, tcbs.dataCb_length, List.length_replicate]
      exact blockSizeAt_cases P totalLen v.bytesSent
    obtain ⟨res, payload, u⟩ := called
    simp only [nextBlock, if_pos hloop, hcall]
    by_cases hneg : res < 0
    · refine .inr (.inl ⟨by omega, .dataCb v.blockNum payload res :: sendByte can, .errorIo, rfl, ?_⟩)
      rw [if_pos hneg]
      rfl
    · rw [if_neg hneg]
      by_cases hend : res = 0 ∧ totalLen = 0 ∧ v.bytesSent > 0
      · refine .inr (.inr ⟨hend.2.2, [.dataCb v.blockNum payload res], rfl, ?_⟩)
        rw [if_pos hend]
      · rw [if_neg hend]
        rcases sendPacket_cases crc tcfg { v with userData := u } 0 payload with
          ⟨hretries, hsend⟩ | ⟨hretries, hsend⟩
        · refine .inl ⟨⟨hretries, by omega⟩, payload, res, u, hlen, ?_⟩
          rw [hsend]
          rfl
        · refine .inr (.inl ⟨fun h => hretries h.1,
            .dataCb v.blockNum payload res :: sendByte can, .errorTimeout, rfl, ?_⟩)
          rw [hsend]
          rfl
  · refine .inr (.inr ⟨by omega, [], rfl, ?_⟩)
    simp only [nextBlock, if_neg hloop]
    rfl

theorem nextBlock_first (u : υ) (c : Bool) :
    (SendsPacket P tcbs tcfg totalLen ⟨c, 1, 0, u⟩ ∧ ∃ payload res u',
      (payload.length = blockSize128 ∨ payload.length = blockSize1024) ∧
      nextBlock P crc tcbs tcfg totalLen ⟨c, 1, 0, u⟩ =
        ⟨.dataCb 1 payload res :: writeBytes (packet crc c 1 payload),
          .wait (.reply ⟨c, 1, 0, u'⟩ 0 payload)⟩) ∨
    (¬ SendsPacket P tcbs tcfg totalLen ⟨c, 1, 0, u⟩ ∧ ∃ es st, es.filterMap Event.wire = [can] ∧
      nextBlock P crc tcbs tcfg totalLen ⟨c, 1, 0, u⟩ = ⟨es, .done st⟩) := by
  rcases nextBlock_cases P crc totalLen (⟨c, 1, 0, u⟩ : TxLocals υ) with h | h | ⟨hpos, -⟩
  · exact .inl h
  · exact .inr h
  · exact absurd hpos (Nat.lt_irrefl 0)

/-- What the transmitter sends in CRC mode: a packet, CAN and the end, or EOT. -/
def SendsFrame (tcfg : Config) (o : TxOut υ) : Prop :=
  (∃ v retries payload, v.crcMode = true ∧ 0 < tcfg.maxRetries ∧
    (payload.length = blockSize128 ∨ payload.length = blockSize1024) ∧
    o.events.filterMap Event.wire = packet crc true v.blockNum payload ∧
    o.next = .wait (.reply v retries payload)) ∨
  (∃ st, o.events.filterMap Event.wire = [can] ∧ o.next = .done st) ∨
  ∃ retries, o.events.filterMap Event.wire = [eot] ∧ o.next = .wait (.eotReply retries)

theorem sendPacket_sendsFrame {v : TxLocals υ} (hv : v.crcMode = true) (hmax : 0 < tcfg.maxRetries)
    (retries : Byte) {payload : List Byte}
    (hlen : payload.length = blockSize128 ∨ payload.length = blockSize1024) :
    SendsFrame crc tcfg (sendPacket crc tcfg v retries payload) := by
  rcases sendPacket_cases crc tcfg v retries payload with ⟨-, hsend⟩ | ⟨-, hsend⟩
  · rw [hsend, hv]
    exact .inl ⟨v, retries, payload, hv, hmax, hlen, wire_writeBytes _, rfl⟩
  · rw [hsend]
    exact .inr (.inl ⟨.errorTimeout, rfl, rfl⟩)

theorem nextBlock_sendsFrame {v : TxLocals υ} (hv : v.crcMode = true) (hmax : 0 < tcfg.maxRetries) :
    SendsFrame crc tcfg (nextBlock P crc tcbs tcfg totalLen v) := by
  rcases nextBlock_cases P crc totalLen v with
    ⟨-, payload, res, u, hlen, hnext⟩ | ⟨-, es, st, hes, hnext⟩ | ⟨-, es, hes, hnext⟩
  · rw [hnext, hv]
    exact .inl ⟨⟨true, v.blockNum, v.bytesSent, u⟩, 0, payload, rfl, hmax, hlen, by simp, rfl⟩
  · rw [hnext]
    exact .inr (.inl ⟨st, hes, rfl⟩)
  · have heot : sendEot (υ := υ) tcfg 0 = ⟨sendByte eot, .wait (.eotReply 0)⟩ := if_pos hmax
    rw [hnext, heot]
    exact .inr (.inr ⟨0, by simp [hes], rfl⟩)

theorem start_sendsFrame (retries : Byte) (u : υ) :
    SendsFrame crc tcfg (transmitStep P crc tcbs tcfg totalLen (.start retries u) (.ok charC)) := by
  have hstep : transmitStep P crc tcbs tcfg totalLen (.start retries u) (.ok charC) =
      nextBlock P crc tcbs tcfg totalLen ⟨true, 1, 0, u⟩ := by
    simp only [transmitStep, if_true]
  rw [hstep]
  rcases nextBlock_first P crc totalLen u true with ⟨hsends, -⟩ | ⟨-, es, st, hes, hnext⟩
  · exact nextBlock_sendsFrame P crc totalLen rfl hsends.1
  · rw [hnext]
    exact .inr (.inl ⟨st, hes, rfl⟩)

theorem reply_sendsFrame {v : TxLocals υ} (hv : v.crcMode = true) (hmax : 0 < tcfg.maxRetries)
    (retries : Byte) {payload : List Byte}
    (hlen : payload.length = blockSize128 ∨ payload.length = blockSize1024) :
    SendsFrame crc tcfg (transmitStep P crc tcbs tcfg totalLen (.reply v retries payload) .timeout) ∧
    ∀ b, b ≠ can → SendsFrame crc tcfg
      (transmitStep P crc tcbs tcfg totalLen (.reply v retries payload) (.ok b)) := by
  constructor
  · exact sendPacket_sendsFrame crc hv hmax _ hlen
  · intro b hb
    simp only [transmitStep, if_neg hb]
    split
    · exact nextBlock_sendsFrame P crc totalLen hv hmax
    · exact sendPacket_sendsFrame crc hv hmax _ hlen

end Transmitter

/-! ### What the receiver expects -/

section Receiver

/-- The check that a read of a check byte belongs to. -/
def RxSite.check : RxSite → Option Bool
  | .crcHi .. | .crcLo .. => some true
  | .cksum .. => some false
  | _ => none

/-- The receiver wants CRC and reads no checksum. -/
structure ByCrc (x : RxState υ') : Prop where
  crcMode : x.locals.crcMode = true
  check : x.site.check ≠ some false

variable {rcbs rcfg}

theorem acceptPacket_crcMode {v : RxLocals υ'} {n : Byte} {buf : List Byte} {y : RxState υ'}
    (h : (acceptPacket P rcbs v n buf).next = .wait y) :
    y.site = .header ∧ y.locals.crcMode = v.crcMode := by
  rcases acceptPacket_cases P rcbs v n buf with ⟨-, -, he⟩ | ⟨-, -, he⟩ | ⟨es, st, -, he⟩ <;>
    rw [he] at h
  · cases h
    exact ⟨rfl, rfl⟩
  · cases h
    exact ⟨rfl, rfl⟩
  · cases h

/-- As long as bytes arrive, it goes on to want CRC. -/
theorem receiveStep_byCrc {x y : RxState υ'} {b : Byte} (hx : ByCrc x)
    (h : (receiveStep P crc rcbs rcfg x (.ok b)).next = .wait y) : ByCrc y := by
  obtain ⟨site, v⟩ := x
  obtain ⟨hv, hcheck⟩ := hx
  have hcrc : v.crcMode = true := hv
  rcases receiveStep_cases P crc rcbs rcfg ⟨site, v⟩ (.ok b) with ⟨site', hnext, he⟩ |
    ⟨es, -, -, he⟩ | ⟨-, -, he⟩ | ⟨-, hr, -⟩ | ⟨bad, -, he⟩ | ⟨n, buf, -, he⟩
  · rw [he] at h
    cases h
    refine ⟨hcrc, ?_⟩
    cases hnext with
    | lastSum n hend hmode => cases hcrc.symm.trans hmode
    | _ => simp [RxSite.check]
  · rw [he] at h
    cases h
  · rw [he] at h
    cases h
  · cases hr
  · rcases afterPurge_cases rcfg bad v with hp | hp <;> rw [he, hp] at h <;> cases h
    exact ⟨hcrc, by simp [RxSite.check]⟩
  · rw [he] at h
    obtain ⟨hsite, hmode⟩ := acceptPacket_crcMode P h
    exact ⟨hmode.trans hcrc, by simp [hsite, RxSite.check]⟩

theorem feed_byCrc {n : Next (RxState υ') RxResult} {bs : List Byte}
    (hn : ∀ x, n = .wait x → ByCrc x) :
    ∀ y, (feed (receiveStep P crc rcbs rcfg) n bs).next = .wait y → ByCrc y := by
  induction bs generalizing n with
  | nil =>
    rw [feed_nil]
    exact hn
  | cons b bs ih =>
    cases n with
    | done r =>
      intro y hy
      rw [feed_done] at hy
      cases hy
    | wait x =>
      rw [feed_cons]
      exact ih fun y hy => receiveStep_byCrc P crc (hn x rfl) hy

/-- A packet in CRC mode is answered by ACK, or ends the session. -/
theorem feed_sentPacket (rcbs : RxCallbacks υ') (rcfg : Config) {w : RxLocals υ'}
    (hw : w.crcMode = true) (n : Byte) {payload : List Byte}
    (hlen : payload.length = blockSize128 ∨ payload.length = blockSize1024) :
    (∃ r, (feed (receiveStep P crc rcbs rcfg) (.wait ⟨.header, w⟩) (packet crc true n payload)).next =
      .done r) ∨
    ∃ es w', es.filterMap Event.wire = [ack] ∧
      feed (receiveStep P crc rcbs rcfg) (.wait ⟨.header, w⟩) (packet crc true n payload) =
        ⟨es, .wait ⟨.header, w'⟩⟩ := by
  have hframed : (sentPacket crc true n payload).Framed w.crcMode := by
    rw [hw]
    exact sentPacket_framed crc true n payload hlen
  have hfeed := feed_packet P crc rcbs rcfg w (sentPacket crc true n payload) hframed
  rw [hw, if_pos (sentPacket_verified crc true n payload), sentPacket_bytes] at hfeed
  rw [hfeed]
  rcases acceptPacket_cases P rcbs w (sentPacket crc true n payload).blkNum
    (sentPacket crc true n payload).payload with ⟨-, -, he⟩ | ⟨-, -, he⟩ | ⟨es, st, -, he⟩
  · rw [he]
    exact .inr ⟨_, _, rfl, rfl⟩
  · rw [he]
    exact .inr ⟨_, _, rfl, rfl⟩
  · rw [he]
    exact .inl ⟨_, rfl⟩

end Receiver

/-! ### Both sides in step -/

section Invariant

variable {P crc tcbs rcbs tcfg rcfg totalLen}

/-- The receiver once it has read all that has been sent. -/
def ahead (P : Platform) (crc : CrcService) (rcbs : RxCallbacks υ') (rcfg : Config) (s : Line υ υ') :
    RxOut υ' :=
  feed (receiveStep P crc rcbs rcfg) s.right.next (s.toRight ++ s.left.events.filterMap Event.wire)

/-- What the transmitter is going to read by then. -/
def replies (P : Platform) (crc : CrcService) (rcbs : RxCallbacks υ') (rcfg : Config) (s : Line υ υ') :
    List Byte :=
  s.toLeft ++ s.right.events.filterMap Event.wire ++
    (ahead P crc rcbs rcfg s).events.filterMap Event.wire

/-- What the sides may expect of one another, at each read of the transmitter. -/
def Expects (P : Platform) (crc : CrcService) (rcbs : RxCallbacks υ') (tcfg rcfg : Config)
    (s : Line υ υ') : Next (TxSite υ) Status → Prop
  | .wait (.start _ _) => (∃ w, (ahead P crc rcbs rcfg s).next = .wait ⟨.header, w⟩) ∧
      (∃ rest, replies P crc rcbs rcfg s = charC :: rest) ∧ can ∉ replies P crc rcbs rcfg s
  | .wait (.reply v _ payload) => v.crcMode = true ∧ 0 < tcfg.maxRetries ∧
      (payload.length = blockSize128 ∨ payload.length = blockSize1024) ∧
      ((∃ r, (ahead P crc rcbs rcfg s).next = .done r) ∨
        (∃ w, (ahead P crc rcbs rcfg s).next = .wait ⟨.header, w⟩) ∧
          replies P crc rcbs rcfg s ≠ [] ∧ can ∉ replies P crc rcbs rcfg s)
  | .wait (.eotReply _) => ∃ r, (ahead P crc rcbs rcfg s).next = .done r
  | .done _ => (∃ r, (ahead P crc rcbs rcfg s).next = .done r) ∨
      ∃ w, (ahead P crc rcbs rcfg s).next = .wait ⟨.secondCan, w⟩

/-- CRC on both sides, and whole packets on the line. -/
structure InStep (P : Platform) (crc : CrcService) (rcbs : RxCallbacks υ') (tcfg rcfg : Config)
    (s : Line υ υ') : Prop where
  byCrc : ∀ x, s.right.next = .wait x → ByCrc x
  expects : Expects P crc rcbs tcfg rcfg s s.left.next

theorem Expects.congr {s t : Line υ υ'} {n : Next (TxSite υ) Status}
    (h : Expects P crc rcbs tcfg rcfg s n)
    (hnext : (ahead P crc rcbs rcfg t).next = (ahead P crc rcbs rcfg s).next)
    (hreplies : replies P crc rcbs rcfg t = replies P crc rcbs rcfg s) :
    Expects P crc rcbs tcfg rcfg t n := by
  unfold Expects at h ⊢
  rw [hnext, hreplies]
  exact h

theorem InStep.emitLeft {s t : Line υ υ'} (h : InStep P crc rcbs tcfg rcfg s)
    (hmove : move (txParty P crc tcbs tcfg totalLen) (receiver P crc rcbs rcfg) .emitLeft s = some t) :
    InStep P crc rcbs tcfg rcfg t := by
  obtain ⟨e, es, n, hl, rfl⟩ := move_emitLeft.mp hmove
  have hahead : ahead P crc rcbs rcfg
      { s with left := ⟨es, n⟩, toRight := s.toRight ++ (Event.wire e).toList,
               leftLog := s.leftLog ++ [e] } = ahead P crc rcbs rcfg s := by
    unfold ahead
    rw [hl, ← sent_emit]
  have hexpects := h.expects
  rw [hl] at hexpects
  refine ⟨h.byCrc, hexpects.congr (congrArg Out.next hahead) ?_⟩
  show s.toLeft ++ s.right.events.filterMap Event.wire ++ _ = _
  rw [replies, ← hahead]
  rfl

theorem InStep.emitRight {s t : Line υ υ'} (h : InStep P crc rcbs tcfg rcfg s)
    (hmove : move (txParty P crc tcbs tcfg totalLen) (receiver P crc rcbs rcfg) .emitRight s = some t) :
    InStep P crc rcbs tcfg rcfg t := by
  obtain ⟨e, es, n, hr, rfl⟩ := move_emitRight.mp hmove
  have hahead : ahead P crc rcbs rcfg
      { s with right := ⟨es, n⟩, toLeft := s.toLeft ++ (Event.wire e).toList,
               rightLog := s.rightLog ++ [e] } = ahead P crc rcbs rcfg s := by
    unfold ahead
    rw [hr]
  have hbyCrc := h.byCrc
  rw [hr] at hbyCrc
  refine ⟨hbyCrc, h.expects.congr (congrArg Out.next hahead) ?_⟩
  show s.toLeft ++ (Event.wire e).toList ++ es.filterMap Event.wire ++ _ = _
  rw [sent_emit, replies, hr, ← hahead]
  rfl

/-- Reading on does not change where the receiver will be. -/
theorem InStep.readRight {s t : Line υ υ'} (h : InStep P crc rcbs tcfg rcfg s)
    (hmove : move (txParty P crc tcbs tcfg totalLen) (receiver P crc rcbs rcfg) .readRight s = some t) :
    InStep P crc rcbs tcfg rcfg t := by
  obtain ⟨x, b, q, hr, hq, rfl⟩ := move_readRight.mp hmove
  have hahead : ahead P crc rcbs rcfg s =
      (ahead P crc rcbs rcfg
        { s with right := receiveStep P crc rcbs rcfg x (.ok b), toRight := q }).after
          (receiveStep P crc rcbs rcfg x (.ok b)).events := by
    unfold ahead
    rw [hr, hq, List.cons_append, feed_cons]
  have hbyCrc : ByCrc x := h.byCrc x (by rw [hr])
  refine ⟨?_, h.expects.congr ?_ ?_⟩
  · intro y hy
    have hnext : (receiveStep P crc rcbs rcfg x (.ok b)).next = .wait y := hy
    exact receiveStep_byCrc P crc hbyCrc hnext
  · show (ahead P crc rcbs rcfg
      { s with right := receiveStep P crc rcbs rcfg x (.ok b), toRight := q }).next = _
    rw [hahead, Out.after_next]
  · rw [replies, replies, hahead, hr, Out.after_events, List.filterMap_append]
    simp only [List.filterMap_nil, List.append_nil, List.append_assoc]
    rfl

theorem ahead_send {s t : Line υ υ'} (hleft : s.left.events = []) (hright : t.right = s.right)
    (htoRight : t.toRight = s.toRight) :
    ahead P crc rcbs rcfg t =
      (feed (receiveStep P crc rcbs rcfg) (ahead P crc rcbs rcfg s).next
        (t.left.events.filterMap Event.wire)).after (ahead P crc rcbs rcfg s).events := by
  unfold ahead
  rw [hright, htoRight, hleft, List.filterMap_nil, List.append_nil, feed_append]

theorem ahead_done {s t : Line υ υ'} {q : RxResult} (hleft : s.left.events = [])
    (hright : t.right = s.right) (htoRight : t.toRight = s.toRight)
    (hdone : (ahead P crc rcbs rcfg s).next = .done q) :
    (ahead P crc rcbs rcfg t).next = .done q := by
  rw [ahead_send hleft hright htoRight, hdone, feed_done]
  rfl

/-- The receiver has returned, or stands at a packet boundary and no CAN is on its
way to the transmitter. -/
def Quiet (P : Platform) (crc : CrcService) (rcbs : RxCallbacks υ') (rcfg : Config) (s : Line υ υ')
    (rest : List Byte) : Prop :=
  (∃ r, (ahead P crc rcbs rcfg s).next = .done r) ∨
    (∃ w, (ahead P crc rcbs rcfg s).next = .wait ⟨.header, w⟩) ∧ can ∉ rest

theorem expects_send {s t : Line υ υ'} {rest : List Byte} (h : InStep P crc rcbs tcfg rcfg s)
    (hleft : s.left.events = []) (hright : t.right = s.right) (htoRight : t.toRight = s.toRight)
    (hrest : t.toLeft ++ s.right.events.filterMap Event.wire ++
      (ahead P crc rcbs rcfg s).events.filterMap Event.wire = rest)
    (hquiet : Quiet P crc rcbs rcfg s rest) (hframe : SendsFrame crc tcfg t.left) :
    Expects P crc rcbs tcfg rcfg t t.left.next := by
  have hahead : ahead P crc rcbs rcfg t =
      (feed (receiveStep P crc rcbs rcfg) (ahead P crc rcbs rcfg s).next
        (t.left.events.filterMap Event.wire)).after (ahead P crc rcbs rcfg s).events :=
    ahead_send hleft hright htoRight
  rcases hquiet with ⟨r, hr⟩ | ⟨⟨w, hw⟩, hcan⟩
  · have hdone : (ahead P crc rcbs rcfg t).next = .done r := by
      rw [hahead, hr, feed_done]
      rfl
    rcases hframe with ⟨v, retries, payload, hv, hmax, hlen, -, hnext⟩ | ⟨st, -, hnext⟩ |
      ⟨retries, -, hnext⟩
    · rw [hnext]
      exact ⟨hv, hmax, hlen, .inl ⟨r, hdone⟩⟩
    · rw [hnext]
      exact .inl ⟨r, hdone⟩
    · rw [hnext]
      exact ⟨r, hdone⟩
  · have hmode : w.crcMode = true :=
      (feed_byCrc P crc h.byCrc ⟨.header, w⟩ hw).crcMode
    have hreplies : replies P crc rcbs rcfg t = rest ++
        (feed (receiveStep P crc rcbs rcfg) (.wait ⟨.header, w⟩)
          (t.left.events.filterMap Event.wire)).events.filterMap Event.wire := by
      rw [replies, hahead, hw, hright, Out.after_events, List.filterMap_append, ← hrest]
      simp only [List.append_assoc]
    rw [hw] at hahead
    rcases hframe with ⟨v, retries, payload, hv, hmax, hlen, hsent, hnext⟩ | ⟨st, hsent, hnext⟩ |
      ⟨retries, hsent, hnext⟩
    · rw [hsent] at hahead hreplies
      rw [hnext]
      refine ⟨hv, hmax, hlen, ?_⟩
      rcases feed_sentPacket P crc rcbs rcfg hmode v.blockNum hlen with
        ⟨r, hr⟩ | ⟨es, w', hes, hfeed⟩
      · exact .inl ⟨r, by rw [hahead, Out.after_next, hr]⟩
      · rw [hfeed] at hahead hreplies
        refine .inr ⟨⟨w', by rw [hahead]; rfl⟩, ?_, ?_⟩
        · rw [hreplies, hes]
          exact List.concat_ne_nil _ _
        · rw [hreplies, hes, List.mem_append, List.mem_singleton]
          have hne : can ≠ ack := by decide
          tauto
    · rw [hsent] at hahead
      rw [hnext]
      exact .inr ⟨w, by rw [hahead]; rfl⟩
    · rw [hsent] at hahead
      rw [hnext]
      exact ⟨_, by rw [hahead]; rfl⟩

theorem expects_eotReply {s t : Line υ υ'} (tcbs : TxCallbacks υ) (totalLen : ℕ) (retries : Byte)
    (r : Read) (hleft : s.left.events = []) (hright : t.right = s.right)
    (htoRight : t.toRight = s.toRight) (hdone : ∃ q, (ahead P crc rcbs rcfg s).next = .done q)
    (ht : t.left = transmitStep P crc tcbs tcfg totalLen (.eotReply retries) r) :
    Expects P crc rcbs tcfg rcfg t t.left.next := by
  obtain ⟨q, hq⟩ := hdone
  have hnext := ahead_done hleft hright htoRight hq
  rw [ht]
  simp only [transmitStep, sendEot]
  split_ifs
  · exact .inl ⟨q, hnext⟩
  · exact ⟨q, hnext⟩
  · exact .inl ⟨q, hnext⟩

theorem InStep.readLeft {s t : Line υ υ'} (h : InStep P crc rcbs tcfg rcfg s)
    (hmove : move (txParty P crc tcbs tcfg totalLen) (receiver P crc rcbs rcfg) .readLeft s = some t) :
    InStep P crc rcbs tcfg rcfg t := by
  obtain ⟨x, b, q, hl, hq, rfl⟩ := move_readLeft.mp hmove
  have hevents : s.left.events = [] := by rw [hl]
  have hexpects := h.expects
  rw [hl] at hexpects
  have hreplies : replies P crc rcbs rcfg s = b :: (q ++ s.right.events.filterMap Event.wire ++
      (ahead P crc rcbs rcfg s).events.filterMap Event.wire) := by
    rw [replies, hq]
    rfl
  refine ⟨h.byCrc, ?_⟩
  cases x with
  | start retries u =>
    obtain ⟨hheader, ⟨rest, hfirst⟩, hcan⟩ := hexpects
    rw [hreplies] at hfirst hcan
    obtain rfl : b = charC := (List.cons.inj hfirst).1
    exact expects_send h hevents rfl rfl rfl (.inr ⟨hheader, fun hmem => hcan (List.mem_cons_of_mem _ hmem)⟩)
      (start_sendsFrame P crc totalLen retries u)
  | reply v retries payload =>
    obtain ⟨hv, hmax, hlen, hquiet⟩ := hexpects
    have hquiet' : Quiet P crc rcbs rcfg s (q ++ s.right.events.filterMap Event.wire ++
        (ahead P crc rcbs rcfg s).events.filterMap Event.wire) := by
      rcases hquiet with hdone | ⟨hheader, -, hcan⟩
      · exact .inl hdone
      · rw [hreplies] at hcan
        exact .inr ⟨hheader, fun hmem => hcan (List.mem_cons_of_mem _ hmem)⟩
    by_cases hb : b = can
    · -- a CAN comes only from a receiver that has returned
      have hdone : ∃ r, (ahead P crc rcbs rcfg s).next = .done r := by
        rcases hquiet with hdone | ⟨-, -, hcan⟩
        · exact hdone
        · rw [hreplies, hb] at hcan
          exact absurd (List.mem_cons_self ..) hcan
      obtain ⟨r, hr⟩ := hdone
      have hstep : transmitStep P crc tcbs tcfg totalLen (.reply v retries payload) (.ok b) =
          ⟨[], .done .errorCancel⟩ := by
        rw [hb]
        rfl
      show Expects P crc rcbs tcfg rcfg _ (transmitStep P crc tcbs tcfg totalLen _ _).next
      rw [hstep]
      exact .inl ⟨r, ahead_done (s := s) hevents rfl rfl hr⟩
    · exact expects_send h hevents rfl rfl rfl hquiet'
        ((reply_sendsFrame P crc totalLen hv hmax retries hlen).2 b hb)
  | eotReply retries => exact expects_eotReply tcbs totalLen retries (.ok b) hevents rfl rfl hexpects rfl

/-- The transmitter's read fails only when the receiver has returned. -/
theorem InStep.failLeft {s t : Line υ υ'} (h : InStep P crc rcbs tcfg rcfg s)
    (hmove : move (txParty P crc tcbs tcfg totalLen) (receiver P crc rcbs rcfg) .failLeft s = some t)
    (hpatient : ¬ s.RightReady) : InStep P crc rcbs tcfg rcfg t := by
  obtain ⟨x, hl, hq, rfl⟩ := move_failLeft.mp hmove
  have hevents : s.left.events = [] := by rw [hl]
  have hquiet : s.right.events = [] := by
    by_contra hne
    exact hpatient (.inl hne)
  -- nothing is left for the receiver to read, so it has said all it will say
  have hahead : (ahead P crc rcbs rcfg s).events = [] := by
    unfold ahead
    rw [hevents, List.filterMap_nil, List.append_nil]
    cases hn : s.right.next with
    | done r => rw [feed_done]
    | wait y =>
      have hnil : s.toRight = [] := by
        by_contra hne
        exact hpatient (.inr ⟨⟨y, hn⟩, hne⟩)
      rw [hnil, feed_nil]
  have hreplies : replies P crc rcbs rcfg s = [] := by
    rw [replies, hq, hquiet, hahead]
    rfl
  have hexpects := h.expects
  rw [hl] at hexpects
  refine ⟨h.byCrc, ?_⟩
  cases x with
  | start retries u =>
    obtain ⟨-, ⟨rest, hfirst⟩, -⟩ := hexpects
    rw [hreplies] at hfirst
    cases hfirst
  | reply v retries payload =>
    obtain ⟨hv, hmax, hlen, hdone | ⟨-, hne, -⟩⟩ := hexpects
    · have hframe : SendsFrame crc tcfg
          (transmitStep P crc tcbs tcfg totalLen (.reply v retries payload) .timeout) :=
        (reply_sendsFrame P crc totalLen hv hmax retries hlen).1
      exact expects_send h hevents rfl rfl rfl (.inl hdone) hframe
    · exact absurd hreplies hne
  | eotReply retries => exact expects_eotReply tcbs totalLen retries .timeout hevents rfl rfl hexpects rfl

/-- The receiver's read fails only when it waits for a second CAN. -/
theorem InStep.failRight {s t : Line υ υ'} (h : InStep P crc rcbs tcfg rcfg s)
    (hmove : move (txParty P crc tcbs tcfg totalLen) (receiver P crc rcbs rcfg) .failRight s = some t)
    (hpatient : ¬ s.LeftReady) : InStep P crc rcbs tcfg rcfg t := by
  obtain ⟨x, hr, hq, rfl⟩ := move_failRight.mp hmove
  have hevents : s.left.events = [] := by
    by_contra hne
    exact hpatient (.inl hne)
  have hahead : ahead P crc rcbs rcfg s = ⟨[], .wait x⟩ := by
    unfold ahead
    rw [hevents, hq, hr]
    rfl
  have hidle : ∀ y, s.left.next = .wait y → replies P crc rcbs rcfg s = [] := by
    intro y hy
    have hnil : s.toLeft = [] := by
      by_contra hne
      exact hpatient (.inr ⟨⟨y, hy⟩, hne⟩)
    rw [replies, hahead, hnil, hr]
    rfl
  have hexpects := h.expects
  cases hl : s.left.next with
  | wait y =>
    rw [hl] at hexpects
    cases y with
    | start retries u =>
      obtain ⟨-, ⟨rest, hfirst⟩, -⟩ := hexpects
      rw [hidle _ hl] at hfirst
      cases hfirst
    | reply v retries payload =>
      obtain ⟨-, -, -, ⟨r, hdone⟩ | ⟨-, hne, -⟩⟩ := hexpects
      · rw [hahead] at hdone
        cases hdone
      · exact absurd (hidle _ hl) hne
    | eotReply retries =>
      obtain ⟨r, hdone⟩ := hexpects
      rw [hahead] at hdone
      cases hdone
  | done st =>
    rw [hl] at hexpects
    rcases hexpects with ⟨r, hdone⟩ | ⟨w, hcan⟩
    · rw [hahead] at hdone
      cases hdone
    · rw [hahead] at hcan
      obtain rfl : x = ⟨.secondCan, w⟩ := Next.wait.inj hcan
      refine ⟨?_, ?_⟩
      · intro y hy
        cases hy
      · show Expects P crc rcbs tcfg rcfg _ s.left.next
        rw [hl]
        refine .inl ⟨⟨.errorCancel, none⟩, ?_⟩
        unfold ahead
        exact congrArg Out.next (feed_done _ _ _)

theorem InStep.step {s t : Line υ υ'} (h : InStep P crc rcbs tcfg rcfg s)
    (hstep : PatientStep (txParty P crc tcbs tcfg totalLen) (receiver P crc rcbs rcfg) s t) :
    InStep P crc rcbs tcfg rcfg t := by
  obtain ⟨m, hmove, hleft, hright⟩ := hstep
  cases m with
  | emitLeft => exact h.emitLeft hmove
  | emitRight => exact h.emitRight hmove
  | readLeft => exact h.readLeft hmove
  | readRight => exact h.readRight hmove
  | failLeft => exact h.failLeft hmove (hleft rfl)
  | failRight => exact h.failRight hmove (hright rfl)

theorem InStep.run {j : ℕ} {s t : Line υ υ'} (h : InStep P crc rcbs tcfg rcfg s)
    (hrun : PatientRun (txParty P crc tcbs tcfg totalLen) (receiver P crc rcbs rcfg) j s t) :
    InStep P crc rcbs tcfg rcfg t := by
  induction hrun with
  | refl s => exact h
  | step hstep _ ih => exact ih (h.step hstep)

end Invariant

end InStep

end ZephyrModem.Xmodem
