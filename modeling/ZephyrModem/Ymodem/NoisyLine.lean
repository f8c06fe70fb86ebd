import ZephyrModem.Ymodem.Rejection
import ZephyrModem.Ymodem.RoundTrip

/-!
# A YMODEM transfer over a noisy line

The line may garble Block 0 of a file, any packet of a block and any reply to one. The
two functions wait as long as `src/ymodem.c` says. A block comes through if one of the
ten attempts at it and the reply to it are left alone.
-/

namespace ZephyrModem.Ymodem
open ZephyrModem.Reactive ZephyrModem.Transfer
open ZephyrModem.Xmodem (Byte Read soh stx eot ack nak can charC)

/-! ### The line -/

/-- What arrives instead of the bytes of Block 0 of a file, of the packet of a block, by
file, offset and attempt, and of the reply to that packet. -/
structure Noise where
  block0 : ℕ → Option (List Byte)
  packet : ℕ → ℕ → ℕ → Option (List Byte)
  reply : ℕ → ℕ → ℕ → Option Byte

section Line

variable {υ : Type} (P : Platform) (crc : CrcService) (tcbs : TxCallbacks υ) (z : Noise)

/-- What arrives instead of what the transmitter wrote before the read. -/
def Noise.arrives : TxSite υ → Option (List Byte)
  | .ackBlock0 v => z.block0 v.fileIdx
  | .reply v b retries => z.packet v.fileIdx b.fileOffset retries.toNat
  | _ => none

def Noise.outgoing (o : TxOut υ) : TxOut υ :=
  match o.next with
  | .wait x =>
    match z.arrives x with
    | some bs => ⟨o.events.filter (fun e => e.wire = none) ++ writeBytes bs, o.next⟩
    | none => o
  | .done _ => o

def Noise.incoming : TxSite υ → Read → Read
  | .reply v b retries, .ok c => .ok ((z.reply v.fileIdx b.fileOffset retries.toNat).getD c)
  | _, r => r

/-- `ymodem_transmit` behind the line: its bytes as they arrive at the other end. -/
def noisyStep : Resume Read Event (TxSite υ) Status := fun x r =>
  z.outgoing (transmitStep P crc tcbs x (z.incoming x r))

def noisyTx : TimedParty Byte Event (TxSite υ) Status where
  resume := noisyStep P crc tcbs z
  wire := Event.wire
  waits _ := packetTimeoutMs
  waits_pos _ := by decide

/-- Blocks and replies are garbled so that it shows, and for every block one of the ten
attempts comes through. -/
structure Recoverable : Prop where
  packet : ∀ i offset j bs, z.packet i offset j = some bs → Garbled crc bs
  reply : ∀ i offset j b, z.reply i offset j = some b → b ≠ Xmodem.ack ∧ b ≠ can
  through : ∀ i offset, ∃ j < maxRetries.toNat, z.packet i offset j = none ∧ z.reply i offset j = none

end Line

section Transfer

variable {υ υ' : Type} {P : Platform} (crc : CrcService) {tcbs : TxCallbacks υ} (z : Noise)
  {files : List File} {f : File}
  (start : FileInfo → υ' → ℤ × υ') (data : List Byte → ℕ → ℕ → υ' → ℤ × υ')
  (finish : FileInfo → Status → υ' → υ')

/-- A state of the joined system at which both pending reads are new. -/
def fresh (l : TxOut υ) (r : RxOut υ') (tl : List Byte) (ll rl : List Event) :
    Timed Byte Event (TxSite υ) Status Event (RxState υ') Status := ⟨⟨l, r, [], tl, ll, rl⟩, 0, 0⟩

theorem outgoing_of_none {x : TxSite υ} {es : List Event} (h : z.arrives x = none) :
    z.outgoing ⟨es, .wait x⟩ = ⟨es, .wait x⟩ := by
  simp only [Noise.outgoing, h]

theorem outgoing_of_some {x : TxSite υ} {es : List Event} {bs : List Byte}
    (h : z.arrives x = some bs) : z.outgoing ⟨es, .wait x⟩ =
      ⟨es.filter (fun e => e.wire = none) ++ writeBytes bs, .wait x⟩ := by
  simp only [Noise.outgoing, h]

theorem outgoing_next (o : TxOut υ) : (z.outgoing o).next = o.next := by
  unfold Noise.outgoing
  split
  · split <;> rfl
  · rfl

theorem wire_silent (es : List Event) :
    (es.filter (fun e => e.wire = none)).filterMap Event.wire = [] := by
  rw [List.filterMap_eq_nil_iff]
  intro e he
  simpa using (List.mem_filter.mp he).2

/-- What arrives of a reaction before the read `x`. -/
theorem wire_outgoing (es : List Event) (x : TxSite υ) :
    (z.outgoing ⟨es, .wait x⟩).events.filterMap Event.wire =
      (z.arrives x).getD (es.filterMap Event.wire) := by
  cases h : z.arrives x with
  | none => rw [outgoing_of_none z h, Option.getD_none]
  | some bs =>
    rw [outgoing_of_some z h, List.filterMap_append, wire_silent, wire_writeBytes,
      List.nil_append, Option.getD_some]

/-- The receiver reads all that arrives and waits again. -/
theorem reaches_fed {T : TimedParty Byte Event (TxSite υ) Status} (hwire : T.wire = Event.wire)
    (rcbs : RxCallbacks υ') {es es' : List Event} {bs : List Byte} {n : Next (TxSite υ) Status}
    {s t : RxState υ'} (hes : es.filterMap Event.wire = bs)
    (hfed : feed (receiveStep P crc rcbs) (.wait s) bs = ⟨es', .wait t⟩) (tl : List Byte)
    (ll rl : List Event) :
    Timed.Reaches T (timedRx P crc rcbs) (fresh ⟨es, n⟩ ⟨[], .wait s⟩ tl ll rl)
      (fresh ⟨[], n⟩ ⟨[], .wait t⟩ (tl ++ es'.filterMap Event.wire) (ll ++ es) (rl ++ es')) := by
  have hflush : Duplex.Reaches T.toParty (timedRx P crc rcbs).toParty
      ⟨⟨es, n⟩, ⟨[], .wait s⟩, [], tl, ll, rl⟩ ⟨⟨[], n⟩, ⟨[], .wait s⟩, bs ++ [], tl, ll ++ es, rl⟩ := by
    have h := Duplex.flushLeft (P := T.toParty) (Q := (timedRx P crc rcbs).toParty) es n
      ⟨[], .wait s⟩ [] tl ll rl
    rwa [hwire, hes, List.nil_append, ← List.append_nil bs] at h
  exact Timed.reaches_of_lines (hflush.trans (Duplex.feedRight _ [] tl _ rl hfed))

theorem reaches_readLeft {T : TimedParty Byte Event (TxSite υ) Status} (rcbs : RxCallbacks υ')
    (x : TxSite υ) (r : RxOut υ') (b : Byte) (tl : List Byte) (ll rl : List Event) :
    Timed.Reaches T (timedRx P crc rcbs) (fresh ⟨[], .wait x⟩ r (b :: tl) ll rl)
      (fresh (T.resume x (.ok b)) r tl ll rl) :=
  Timed.reaches_of_lines (Duplex.readsLeft x r b [] tl ll rl)

/-- Garbled bytes while the transmitter waits for a reply: the receiver asks again. -/
theorem reaches_again {T : TimedParty Byte Event (TxSite υ) Status} (hwire : T.wire = Event.wire)
    (rcbs : RxCallbacks υ') {es : List Event} {x : TxSite υ} (hx : T.waits x = packetTimeoutMs)
    (hes : Garbled crc (es.filterMap Event.wire)) {v w : RxLocals υ'} {b : Byte}
    (hask : afterPurge v = ⟨sendByte b, .wait ⟨.header, w⟩⟩) (ll rl : List Event) :
    Timed.Reaches T (timedRx P crc rcbs)
      (fresh ⟨es, .wait x⟩ ⟨[], .wait ⟨.header, v⟩⟩ [] ll rl)
      (fresh (T.resume x (.ok b)) ⟨[], .wait ⟨.header, w⟩⟩ [] (ll ++ es) (rl ++ sendByte b)) := by
  obtain ⟨site, hinside, hfed⟩ := feed_garbled P crc rcbs v hes
  have hread := reaches_fed crc hwire rcbs rfl hfed [] ll rl (n := .wait x)
  have houtlasts : Outlasts T ⟨[], .wait x⟩ (2 * byteTimeoutMs + purgeTimeoutMs) := by
    refine ⟨rfl, fun y hy => ?_⟩
    cases hy
    rw [hx]
    decide
  obtain ⟨a, hrejected⟩ := reaches_rejected P crc rcbs v (ll ++ es) rl hinside houtlasts
  rw [hask] at hrejected
  -- the request goes out and is read, which starts a new read on the left
  have hask' : Timed.Reaches T (timedRx P crc rcbs)
      (quiet ⟨[], .wait x⟩ (ll ++ es) rl a ⟨sendByte b, .wait ⟨.header, w⟩⟩)
      (fresh (T.resume x (.ok b)) ⟨[], .wait ⟨.header, w⟩⟩ [] (ll ++ es) (rl ++ sendByte b)) :=
    (Timed.reaches_live (m := .emitRight) (by simp [Move.Live])
      (Duplex.move_emitRight.mpr ⟨_, _, _, rfl, rfl⟩)).trans
    (Timed.reaches_live (m := .readLeft) (by simp [Move.Live])
      (Duplex.move_readLeft.mpr ⟨x, b, [], rfl, rfl, rfl⟩))
  rw [List.filterMap_nil, List.append_nil, List.append_nil] at hread
  exact hread.trans (hrejected.trans hask')

end Transfer

end ZephyrModem.Ymodem
