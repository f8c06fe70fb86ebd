import ZephyrModem.Reactive.Duplex
import ZephyrModem.Xmodem.File
import ZephyrModem.Xmodem.Frames

/-!
# Transmitter and receiver joined by a line

`xmodem_transmit` and `xmodem_receive` run concurrently over two FIFO channels,
and the line may damage a packet. The view of a state forgets which bytes are
written already: everything sent and not yet read is one stream per direction.
-/

namespace ZephyrModem.Xmodem
open ZephyrModem.Reactive

/-! ### The joined system -/

/-- An action of the joined system: a move of one side, or damage on the line. -/
inductive Action where
  | move (m : Move)
  | damage
  deriving Repr, DecidableEq

/-- `bad` is `p` with payload or check bytes changed in a way the check detects. -/
structure Damaged (crc : CrcService) (crcMode : Bool) (p bad : RawPacket) : Prop where
  header : bad.header = p.header
  blkNum : bad.blkNum = p.blkNum
  blkNumInv : bad.blkNumInv = p.blkNumInv
  payload : bad.payload.length = p.payload.length
  check : bad.check.length = p.check.length
  detected : ¬ bad.Verified crc crcMode

abbrev System (υ : Type) := Duplex Byte Event (TxSite ℕ) Status Event (RxState υ) RxResult

section System

variable {υ : Type} (P : Platform) (crc : CrcService) (cbs : RxCallbacks υ)
  (tcfg rcfg : Config) (file : List Byte)

def transmitter : Party Byte Event (TxSite ℕ) Status := ⟨txStep P crc tcfg file, Event.wire⟩

def receiver : Party Byte Event (RxState υ) RxResult := ⟨receiveStep P crc cbs rcfg, Event.wire⟩

/-- One step. Damage strikes a packet that the transmitter is about to write. -/
inductive Step : System υ → Action → System υ → Prop
  | move {m : Move} {s s' : System υ} :
      Duplex.move (transmitter P crc tcfg file) (receiver P crc cbs rcfg) m s = some s' →
      Step s (.move m) s'
  | damage {s : System υ} {v : TxLocals ℕ} {r : Byte} {payload : List Byte} {bad : RawPacket} :
      s.left = ⟨writeBytes (packet crc v.crcMode v.blockNum payload), .wait (.reply v r payload)⟩ →
      Damaged crc v.crcMode (sentPacket crc v.crcMode v.blockNum payload) bad →
      Step s .damage { s with left := ⟨writeBytes bad.bytes, .wait (.reply v r payload)⟩ }

/-- The check of the packet whose reply the transmitter waits for. -/
def txCheck {τ : Type} : Next (TxSite τ) Status → Option Bool
  | .wait (.reply v _ _) => some v.crcMode
  | _ => none

/-- The check the receiver expects. -/
def rxCheck : Next (RxState υ) RxResult → Option Bool
  | .wait x => some x.locals.crcMode
  | .done _ => none

/-- While the transmitter sends packets, both sides use the same check. -/
def SameCheck (s : System υ) : Prop :=
  txCheck s.left.next = none ∨ rxCheck s.right.next = none ∨
    rxCheck s.right.next = txCheck s.left.next

/-- The states of runs whose steps are all allowed. -/
inductive Reachable (allowed : System υ → Action → Prop) (userData : υ) : System υ → Prop
  | start : Reachable allowed userData (Duplex.init (xmodemTransmit 0) (xmodemReceive rcfg userData))
  | step {s s' : System υ} {a : Action} : Reachable allowed userData s → allowed s a →
      Step P crc cbs tcfg rcfg file s a s' → SameCheck s' → Reachable allowed userData s'

/-- Agreement: when both functions have returned OK, exactly the blocks of the
padded file have been stored, in order. -/
def Agreement (allowed : System υ → Action → Prop) (userData : υ) : Prop :=
  ∀ s t, Reachable P crc cbs tcfg rcfg file allowed userData s →
    s.left = ⟨[], .done .ok⟩ → s.right = ⟨[], .done ⟨.ok, t⟩⟩ →
    delivered s.rightLog = fileBlocks (txBlockSize tcfg) file ∧
    (delivered s.rightLog).flatten = paddedFile (txBlockSize tcfg) file

/-- The receiver reads inside a packet, or drains the line. -/
def Receiving : Next (RxState υ) RxResult → Prop
  | .wait ⟨.header, _⟩ | .wait ⟨.secondCan, _⟩ | .done _ => False
  | .wait _ => True

/-- Inside a packet and while draining, the receiver's read does not time out as
long as the transmitter is writing. -/
def PromptWriter (s : System υ) (a : Action) : Prop :=
  a = .move .failRight → Receiving s.right.next → s.left.events = []

/-- Damage strikes only a packet that meets an idle line. -/
def IdleDamage (s : System υ) (a : Action) : Prop :=
  a = .damage → s.toRight = [] ∧ s.toLeft = [] ∧ s.right.events = []

end System

/-! ### Streams

Both directions of the line, seen as what has been sent and not yet read. -/

/-- The joined system, with the bytes still to be written counted as sent. -/
structure View (υ : Type) where
  tx : Next (TxSite ℕ) Status
  rx : Next (RxState υ) RxResult
  toRx : List Byte
  toTx : List Byte
  stored : List (List Byte)

section View

variable {υ : Type} (P : Platform) (crc : CrcService) (cbs : RxCallbacks υ)
  (tcfg rcfg : Config) (file : List Byte)

def view (s : System υ) : View υ where
  tx := s.left.next
  rx := s.right.next
  toRx := s.toRight ++ s.left.events.filterMap Event.wire
  toTx := s.toLeft ++ s.right.events.filterMap Event.wire
  stored := delivered (s.rightLog ++ s.right.events)

/-- The transmitter after a reaction. -/
def View.afterTx (w : View υ) (o : TxOut ℕ) (toTx : List Byte) : View υ :=
  { w with tx := o.next, toRx := w.toRx ++ o.events.filterMap Event.wire, toTx }

/-- The receiver after a reaction. -/
def View.afterRx (w : View υ) (o : RxOut υ) (toRx : List Byte) : View υ :=
  { w with
    rx := o.next, toRx, toTx := w.toTx ++ o.events.filterMap Event.wire
    stored := w.stored ++ delivered o.events }

/-- What one careful step does to the view. -/
inductive View.Step : View υ → View υ → Prop
  | write (w : View υ) : View.Step w w
  | txRead {w : View υ} {x : TxSite ℕ} {b : Byte} {q : List Byte} :
      w.tx = .wait x → w.toTx = b :: q →
      View.Step w (w.afterTx (txStep P crc tcfg file x (.ok b)) q)
  | txTimeout {w : View υ} {x : TxSite ℕ} : w.tx = .wait x →
      View.Step w (w.afterTx (txStep P crc tcfg file x .timeout) w.toTx)
  | rxRead {w : View υ} {x : RxState υ} {b : Byte} {q : List Byte} :
      w.rx = .wait x → w.toRx = b :: q →
      View.Step w (w.afterRx (receiveStep P crc cbs rcfg x (.ok b)) q)
  | rxTimeout {w : View υ} {x : RxState υ} : w.rx = .wait x → (Receiving w.rx → w.toRx = []) →
      View.Step w (w.afterRx (receiveStep P crc cbs rcfg x .timeout) w.toRx)
  | damage {w : View υ} {v : TxLocals ℕ} {r : Byte} {payload : List Byte} {bad : RawPacket} :
      w.tx = .wait (.reply v r payload) →
      w.toRx = packet crc v.crcMode v.blockNum payload → w.toTx = [] →
      Damaged crc v.crcMode (sentPacket crc v.crcMode v.blockNum payload) bad →
      View.Step w { w with toRx := bad.bytes }

/-- The view of a careful run is a run of the view. -/
theorem view_step {s s' : System υ} {a : Action} (h : Step P crc cbs tcfg rcfg file s a s')
    (hp : PromptWriter s a) (hd : IdleDamage s a) :
    View.Step P crc cbs tcfg rcfg file (view s) (view s') := by
  cases h with
  | @move m _ _ h =>
    cases m with
    | emitLeft =>
      obtain ⟨e, es, n, hl, rfl⟩ := Duplex.move_emitLeft.mp h
      have hv : view { s with
          left := ⟨es, n⟩, toRight := s.toRight ++ (Event.wire e).toList,
          leftLog := s.leftLog ++ [e] } = view s := by
        cases e <;> simp [view, hl, Event.wire]
      exact hv.symm ▸ View.Step.write (view s)
    | emitRight =>
      obtain ⟨e, es, n, hr, rfl⟩ := Duplex.move_emitRight.mp h
      have hv : view { s with
          right := ⟨es, n⟩, toLeft := s.toLeft ++ (Event.wire e).toList,
          rightLog := s.rightLog ++ [e] } = view s := by
        cases e <;> simp [view, hr, Event.wire]
      exact hv.symm ▸ View.Step.write (view s)
    | readLeft =>
      obtain ⟨x, b, q, hl, hq, rfl⟩ := Duplex.move_readLeft.mp h
      have hstep : View.Step P crc cbs tcfg rcfg file (view s) ((view s).afterTx
          (txStep P crc tcfg file x (.ok b)) (q ++ s.right.events.filterMap Event.wire)) :=
        .txRead (by simp [view, hl]) (by simp [view, hq])
      simpa [view, View.afterTx, hl, transmitter] using hstep
    | failLeft =>
      obtain ⟨x, hl, hq, rfl⟩ := Duplex.move_failLeft.mp h
      have hstep : View.Step P crc cbs tcfg rcfg file (view s) ((view s).afterTx
          (txStep P crc tcfg file x .timeout) (view s).toTx) := .txTimeout (by simp [view, hl])
      simpa [view, View.afterTx, hl, transmitter] using hstep
    | readRight =>
      obtain ⟨x, b, q, hr, hq, rfl⟩ := Duplex.move_readRight.mp h
      have hstep : View.Step P crc cbs tcfg rcfg file (view s) ((view s).afterRx
          (receiveStep P crc cbs rcfg x (.ok b)) (q ++ s.left.events.filterMap Event.wire)) :=
        .rxRead (by simp [view, hr]) (by simp [view, hq])
      simpa [view, View.afterRx, hr, receiver] using hstep
    | failRight =>
      obtain ⟨x, hr, hq, rfl⟩ := Duplex.move_failRight.mp h
      have hempty : Receiving (view s).rx → (view s).toRx = [] := by
        intro hrec
        simp [view, hq, hp rfl hrec]
      have hstep : View.Step P crc cbs tcfg rcfg file (view s) ((view s).afterRx
          (receiveStep P crc cbs rcfg x .timeout) (view s).toRx) :=
        .rxTimeout (by simp [view, hr]) hempty
      simpa [view, View.afterRx, hr, receiver] using hstep
  | @damage _ v r payload bad hl hbad =>
    obtain ⟨hright, hleft, hev⟩ := hd rfl
    have htx : (view s).tx = .wait (.reply v r payload) := by simp [view, hl]
    have hstep : View.Step P crc cbs tcfg rcfg file (view s) { view s with toRx := bad.bytes } :=
      .damage htx (by simp [view, hl, hright]) (by simp [view, hleft, hev]) hbad
    simpa [view, hl, hright] using hstep

end View

end ZephyrModem.Xmodem
