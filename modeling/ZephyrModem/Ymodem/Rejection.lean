import ZephyrModem.Reactive.Timed
import ZephyrModem.Ymodem.Frames

/-!
# Rejected packets and the time they take

The time-outs of the reads in `src/ymodem.c`, and what `ymodem_receive` does with bytes
that are no packet: it drains the line and asks again, in less time than the transmitter
waits for a reply.
-/

namespace ZephyrModem.Ymodem
open ZephyrModem.Reactive ZephyrModem.Transfer
open ZephyrModem.Xmodem (Byte Read soh stx eot ack nak can charC)

def packetTimeoutMs : ℕ := 3000

def byteTimeoutMs : ℕ := 1000

/-- The time-out in `purge_rx`. -/
def purgeTimeoutMs : ℕ := 100

def RxSite.waits : RxSite → ℕ
  | .header | .secondEot => packetTimeoutMs
  | .purge => purgeTimeoutMs
  | _ => byteTimeoutMs

theorem RxSite.waits_pos (site : RxSite) : 0 < site.waits := by
  cases site <;> simp [waits, packetTimeoutMs, byteTimeoutMs, purgeTimeoutMs]

variable {υ : Type} (P : Platform) (crc : CrcService) (cbs : RxCallbacks υ)

def timedRx : TimedParty Byte Event (RxState υ) Status where
  resume := receiveStep P crc cbs
  wire := Event.wire
  waits s := s.site.waits
  waits_pos s := s.site.waits_pos

/-! ### Bytes that are no packet -/

def blockSizeOf (header : Byte) : ℕ := if header = stx then 1024 else 128

/-- What follows the header byte begins with a whole packet whose CRC is right. -/
def Carries (header : Byte) (rest : List Byte) : Prop :=
  ∃ n inv payload hi lo more, payload.length = blockSizeOf header ∧
    rest = n :: inv :: (payload ++ hi :: lo :: more) ∧ modemCrc16 crc payload = be16 hi lo

/-- Something arrives, but neither EOT nor CAN nor a packet whose CRC is right. -/
inductive Garbled : List Byte → Prop
  | intro {header : Byte} {rest : List Byte} (heot : header ≠ eot) (hcan : header ≠ can)
      (hpacket : header = soh ∨ header = stx → ¬ Carries crc header rest) : Garbled (header :: rest)

/-- Reads inside a packet or while the line is drained. -/
def RxSite.Inside (site : RxSite) : Prop := site ≠ .header ∧ site ≠ .secondEot

theorem feed_purge (v : RxLocals υ) (bs : List Byte) :
    feed (receiveStep P crc cbs) (.wait ⟨.purge, v⟩) bs = ⟨[], .wait ⟨.purge, v⟩⟩ := by
  induction bs with
  | nil => exact feed_nil _ _
  | cons b bs ih => rw [feed_rxAt P crc cbs ⟨.purge, v⟩ b .purge v rfl, ih]

theorem blockSizeOf_pos (header : Byte) : 0 < blockSizeOf header := by
  unfold blockSizeOf
  split <;> decide

theorem checkPacket_wrong {v : RxLocals υ} {n hi lo : Byte} {buf : List Byte}
    (h : modemCrc16 crc buf ≠ be16 hi lo) :
    checkPacket P crc cbs v n buf false hi lo = rxAt .purge v := by
  unfold checkPacket
  cases v.phase with
  | block0 => simp [Ne.symm h]
  | data f => simp [h]

/-- The check bytes of a packet whose CRC is wrong, as far as they arrive. -/
theorem feed_crc_wrong (v : RxLocals υ) (n : Byte) (buf : List Byte) (bs : List Byte)
    (h : ∀ hi lo more, bs = hi :: lo :: more → modemCrc16 crc buf ≠ be16 hi lo) :
    ∃ site, site.Inside ∧ feed (receiveStep P crc cbs) (.wait ⟨.crcHi n buf false, v⟩) bs =
      ⟨[], .wait ⟨site, v⟩⟩ := by
  match bs with
  | [] => exact ⟨.crcHi n buf false, ⟨by simp, by simp⟩, feed_nil _ _⟩
  | [hi] =>
    refine ⟨.crcLo n buf false hi, ⟨by simp, by simp⟩, ?_⟩
    rw [feed_rxAt P crc cbs ⟨.crcHi n buf false, v⟩ hi (.crcLo n buf false hi) v rfl, feed_nil]
  | hi :: lo :: more =>
    have hwrong : checkPacket P crc cbs v n buf false hi lo = rxAt .purge v :=
      checkPacket_wrong P crc cbs (h hi lo more rfl)
    refine ⟨.purge, ⟨by simp, by simp⟩, ?_⟩
    rw [feed_rxAt P crc cbs ⟨.crcHi n buf false, v⟩ hi (.crcLo n buf false hi) v rfl,
      feed_rxAt P crc cbs ⟨.crcLo n buf false hi, v⟩ lo .purge v hwrong, feed_purge]

theorem feed_unpacked (v : RxLocals υ) (header : Byte) (bs : List Byte)
    (h : ¬ Carries crc header bs) :
    ∃ site, site.Inside ∧
      feed (receiveStep P crc cbs) (.wait ⟨.blkNum (blockSizeOf header), v⟩) bs =
        ⟨[], .wait ⟨site, v⟩⟩ := by
  match bs with
  | [] => exact ⟨.blkNum (blockSizeOf header), ⟨by simp, by simp⟩, feed_nil _ _⟩
  | [n] =>
    refine ⟨.blkNumInv (blockSizeOf header) n, ⟨by simp, by simp⟩, ?_⟩
    rw [feed_rxAt P crc cbs ⟨.blkNum _, v⟩ n (.blkNumInv _ n) v rfl, feed_nil]
  | n :: inv :: data =>
    have hopened : feed (receiveStep P crc cbs) (.wait ⟨.blkNum (blockSizeOf header), v⟩)
        (n :: inv :: data) =
          feed (receiveStep P crc cbs) (.wait ⟨.payload (blockSizeOf header) n [], v⟩) data := by
      rw [feed_rxAt P crc cbs ⟨.blkNum _, v⟩ n (.blkNumInv _ n) v rfl,
        feed_rxAt P crc cbs ⟨.blkNumInv _ n, v⟩ inv (.payload _ n []) v rfl]
    rw [hopened]
    by_cases hshort : data.length < blockSizeOf header
    · refine ⟨.payload (blockSizeOf header) n data, ⟨by simp, by simp⟩, ?_⟩
      rw [feed_payload_part P crc cbs v _ n [] data (by simpa using hshort), List.nil_append]
    · have hlen : (data.take (blockSizeOf header)).length = blockSizeOf header := by
        rw [List.length_take]
        omega
      have hne : data.take (blockSizeOf header) ≠ [] := by
        have := blockSizeOf_pos header
        exact List.ne_nil_of_length_pos (by omega)
      have hpayload := feed_payload P crc cbs v n (data.take (blockSizeOf header))
        (data.drop (blockSizeOf header)) hne
      rw [hlen, List.take_append_drop] at hpayload
      rw [hpayload]
      refine feed_crc_wrong P crc cbs v n _ _ ?_
      intro hi lo more hmore hcrc
      refine h ⟨n, inv, _, hi, lo, more, hlen, ?_, hcrc⟩
      rw [← hmore, List.take_append_drop]

/-- After such bytes the receiver reads inside a packet or drains the line. -/
theorem feed_garbled (v : RxLocals υ) {bs : List Byte} (h : Garbled crc bs) :
    ∃ site, site.Inside ∧ feed (receiveStep P crc cbs) (.wait ⟨.header, v⟩) bs =
      ⟨[], .wait ⟨site, v⟩⟩ := by
  obtain @⟨header, rest, heot, hcan, hpacket⟩ := h
  have hopen : receiveStep P crc cbs ⟨.header, v⟩ (.ok header) = openPacket v header := by
    simp only [receiveStep, headerByte]
    cases v.phase with
    | block0 => simp only [if_neg hcan]
    | data f => simp only [if_neg heot, if_neg hcan]
  by_cases hblock : header = soh ∨ header = stx
  · have hnot : ¬ (header ≠ soh ∧ header ≠ stx) := by tauto
    rw [openPacket, if_neg hnot] at hopen
    rw [feed_rxAt P crc cbs ⟨.header, v⟩ header (.blkNum (blockSizeOf header)) v hopen]
    exact feed_unpacked P crc cbs v header rest (hpacket hblock)
  · rw [openPacket, if_pos (not_or.mp hblock)] at hopen
    refine ⟨.purge, ⟨by simp, by simp⟩, ?_⟩
    rw [feed_rxAt P crc cbs ⟨.header, v⟩ header .purge v hopen, feed_purge]

/-! ### The time until the receiver asks again -/

section Time

variable {ε σ ρ : Type} {T : TimedParty Byte ε σ ρ} {l : Out ε σ ρ} {a d : ℕ}

/-- The receiver after a reaction, an empty line, and the other side, which has waited `a`. -/
def quiet (l : Out ε σ ρ) (ll : List ε) (rl : List Event) (a : ℕ) (o : RxOut υ) :
    Timed Byte ε σ ρ Event (RxState υ) Status := ⟨⟨l, o, [], [], ll, rl⟩, a, 0⟩

/-- The other side does nothing for `d` milliseconds. -/
def Outlasts (T : TimedParty Byte ε σ ρ) (l : Out ε σ ρ) (d : ℕ) : Prop :=
  l.events = [] ∧ ∀ x, l.next = .wait x → d < T.waits x

theorem Outlasts.mono {d' : ℕ} (h : Outlasts T l d') (hle : d ≤ d') : Outlasts T l d :=
  ⟨h.1, fun x hx => Nat.lt_of_le_of_lt hle (h.2 x hx)⟩

variable (v : RxLocals υ) (ll : List ε) (rl : List Event)

theorem reaches_timeout (site : RxSite) (h : Outlasts T l (a + site.waits)) :
    Timed.Reaches T (timedRx P crc cbs) (quiet l ll rl a (rxAt site v))
      (quiet l ll rl (a + site.waits) (receiveStep P crc cbs ⟨site, v⟩ .timeout)) := by
  have hpending : (quiet l ll rl a (rxAt site v)).RightPending ⟨site, v⟩ := ⟨rfl, rfl⟩
  refine Timed.reaches_expireRight hpending (Nat.zero_add _) ?_ ?_
  · rintro (hevents | ⟨-, hline⟩)
    · exact hevents h.1
    · exact hline rfl
  · intro x hx
    exact h.2 x (congrArg Out.next hx.1)

theorem reaches_afterPurge (h : Outlasts T l (a + purgeTimeoutMs)) :
    ∃ a', Timed.Reaches T (timedRx P crc cbs) (quiet l ll rl a (rxAt .purge v))
      (quiet l ll rl a' (afterPurge v)) :=
  ⟨_, reaches_timeout P crc cbs v ll rl .purge h⟩

theorem reaches_drained {site : RxSite} (hwaits : site.waits = byteTimeoutMs)
    (hsite : receiveStep P crc cbs ⟨site, v⟩ .timeout = rxAt .purge v)
    (h : Outlasts T l (a + byteTimeoutMs + purgeTimeoutMs)) :
    ∃ a', Timed.Reaches T (timedRx P crc cbs) (quiet l ll rl a (rxAt site v))
      (quiet l ll rl a' (afterPurge v)) := by
  have hsoon : Outlasts T l (a + site.waits) := h.mono (by rw [hwaits]; exact Nat.le_add_right _ _)
  have hfirst := reaches_timeout P crc cbs v ll rl site hsoon
  rw [hsite, hwaits] at hfirst
  obtain ⟨a', hrest⟩ := reaches_afterPurge P crc cbs v ll rl h
  exact ⟨a', hfirst.trans hrest⟩

/-- Wherever the receiver stands inside a packet, it has asked again before a side that
waits for `packetTimeoutMs` stops waiting. -/
theorem reaches_rejected {site : RxSite} (hsite : site.Inside)
    (h : Outlasts T l (2 * byteTimeoutMs + purgeTimeoutMs)) :
    ∃ a, Timed.Reaches T (timedRx P crc cbs) (quiet l ll rl 0 (rxAt site v))
      (quiet l ll rl a (afterPurge v)) := by
  have hone : Outlasts T l (0 + byteTimeoutMs + purgeTimeoutMs) := h.mono (by decide)
  cases site with
  | header => exact absurd rfl hsite.1
  | secondEot => exact absurd rfl hsite.2
  | blkNum len => exact reaches_drained P crc cbs v ll rl rfl rfl hone
  | blkNumInv len n => exact reaches_drained P crc cbs v ll rl rfl rfl hone
  | payload len n buf =>
    -- the check bytes are still waited for
    have hfirst := reaches_timeout P crc cbs v ll rl (.payload len n buf) (a := 0)
      (h.mono (show 0 + byteTimeoutMs ≤ _ by decide))
    have hlong : Outlasts T l (0 + byteTimeoutMs + byteTimeoutMs + purgeTimeoutMs) :=
      h.mono (by decide)
    have hcheck : (RxSite.crcHi n buf true).waits = byteTimeoutMs := rfl
    obtain ⟨a, hrest⟩ := reaches_drained P crc cbs v ll rl hcheck rfl hlong
    exact ⟨a, hfirst.trans hrest⟩
  | crcHi n buf e => exact reaches_drained P crc cbs v ll rl rfl rfl hone
  | crcLo n buf e hi => exact reaches_drained P crc cbs v ll rl rfl rfl hone
  | purge => exact reaches_afterPurge P crc cbs v ll rl (h.mono (by decide))

end Time

end ZephyrModem.Ymodem
