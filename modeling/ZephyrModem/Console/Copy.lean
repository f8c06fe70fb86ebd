import ZephyrModem.Console.Monitor
import ZephyrModem.Console.Stores
import ZephyrModem.Console.Transmit
import ZephyrModem.Ymodem.UserData

/-!
# Files copied from console to console

`modem tx y` on one target and `modem rx y` on another one, joined by a line without
loss. However their steps interleave, both return 0 and the file is on the second target,
unless the abort monitor of one of them takes a byte of the transfer for an abort.
-/

namespace ZephyrModem.Console
open ZephyrModem.Storage ZephyrModem.Transfer ZephyrModem.Reactive ZephyrModem.Reactive.Duplex
open ZephyrModem.Ymodem (TxSite RxState transmitStep receiveStep ymodemTransmit ymodemReceive
  txParty rxParty Sendable SameCallbacks batchStream batchReplies)

variable (P : Platform) (crc : CrcService) (rd : ReadAccess UInt8 Path)
  (fs : FileSystem UInt8 Path) (settings : StorageSettings) (input : ConsoleInput) (canCount : ℕ)

/-! ### The two commands -/

/-- `console_modem_tx_ymodem` up to its first read, or its return. -/
def consoleModemTxYmodem (inputFilename : Path) (files : Files UInt8 Path) :
    Out Ymodem.Event (ℕ × TxSite State) ℤ :=
  let opened := openInputFile rd inputFilename ⟨initialCtx (some inputFilename), files⟩
  if opened.1 ≠ 0 then ⟨[], .done (-1)⟩
  else (ymodemTransmit (ymodemTxCallbacks rd) opened.2).map (Prod.mk canCount) (resultCode .ok)

/-- `console_modem_tx_ymodem` as one side of a line: it reads through `console_read_byte`. -/
def txConsole : Party UInt8 Ymodem.Event (ℕ × TxSite State) ℤ :=
  ⟨returning (resultCode .ok) (filtered input.readByte
    (transmitStep P crc (ymodemTxCallbacks rd))), Event.wire⟩

def rxConsole : Party UInt8 Ymodem.Event (ℕ × RxState State) ℤ :=
  ⟨returning (resultCode .ok) (filtered input.readByte
    (receiveStep P crc (ymodemRxCallbacks P fs settings))), Event.wire⟩

def rxStart (outputFilename : Option Path) (files : Files UInt8 Path) :
    Out Ymodem.Event (ℕ × RxState State) ℤ :=
  (ymodemReceive (⟨initialCtx outputFilename, files⟩ : State)).map (Prod.mk canCount) (resultCode .ok)

/-- The files of the receiving side after the calls of its log. -/
def storedFiles (outputFilename : Option Path) (files : Files UInt8 Path)
    (log : List Ymodem.Event) : Files UInt8 Path :=
  (replay (Event.effect (ymodemRxCallbacks P fs settings)) log
    ⟨initialCtx outputFilename, files⟩).files

/-- The receiving side has returned 0 and has stored the batch. -/
def Stored (outputFilename : Option Path) (files : Files UInt8 Path) (batch : List File)
    {ε σ ρ : Type} (t : Duplex UInt8 ε σ ρ Ymodem.Event (ℕ × RxState State) ℤ) : Prop :=
  t.right = ⟨[], .done 0⟩ ∧
    storedFiles P fs settings outputFilename files t.rightLog = batch.foldl (put settings) files

/-! ### What the receiver reports -/

variable {P crc rd fs settings input}

theorem onData_length {υ : Type} {cbs : Ymodem.RxCallbacks υ} {u : υ} {reads : List Xmodem.Read}
    {buf : List UInt8} {len offset : ℕ} {res : ℤ}
    (h : .onData buf len offset res ∈ (Ymodem.received P crc cbs u reads).events) :
    buf.length ≤ asyncSize := by
  rcases List.mem_append.mp h with h | h
  · obtain ⟨b, hb⟩ := writes_sendByte Xmodem.charC _ h
    cases hb
  · obtain ⟨pre, i, post, s, rfl, hpre, hin⟩ := exists_of_mem_events _ h
    have hsizes := Ymodem.sizesOk_visits P crc cbs u (pre ++ i :: post) (s, i)
      (mem_visits _ hpre i post)
    obtain ⟨f, ha, -⟩ := (Ymodem.onData_mem_iff P crc cbs s i buf len offset res).mp hin
    rcases Ymodem.acceptsBlock_length hsizes ha with hlen | hlen
    · rw [hlen]
      decide
    · rw [hlen]
      decide

theorem covers_data {cs : List Call} {offset : ℕ} {contents : List UInt8}
    (h : Covers offset cs contents) {o len : ℕ} {bytes : List UInt8} (hin : .data o len bytes ∈ cs) :
    bytes.length = len := by
  induction cs generalizing offset contents with
  | nil => cases hin
  | cons c cs ih =>
    cases c with
    | fileStart name size => exact absurd h id
    | fileEnd name size ok => exact absurd h id
    | data o' len' bytes' =>
      obtain ⟨-, hlen, rest, -, hrest⟩ := h
      rcases List.mem_cons.mp hin with hin | hin
      · cases hin
        exact hlen
      · exact ih hrest hin

theorem reports_data {batch : List File} {cs : List Call} (h : Reports batch cs) {o len : ℕ}
    {bytes : List UInt8} (hin : .data o len bytes ∈ cs) : bytes.length = len := by
  induction batch generalizing cs with
  | nil =>
    obtain rfl : cs = [] := h
    cases hin
  | cons f batch ih =>
    obtain ⟨chunks, rest, rfl, hcover, hrest⟩ := h
    rw [List.mem_cons, List.mem_append, List.mem_cons] at hin
    rcases hin with hin | hin | hin | hin
    · cases hin
    · exact covers_data hcover hin
    · cases hin
    · exact ih hrest hin

/-- The data a receiver reports fits the buffer of the asynchronous writer. -/
theorem chunked_received {υ : Type} {cbs : Ymodem.RxCallbacks υ} {u : υ} {reads : List Xmodem.Read}
    {batch : List File}
    (h : Reports batch ((Ymodem.received P crc cbs u reads).events.filterMap (Event.call .ok))) :
    Chunked ((Ymodem.received P crc cbs u reads).events.filterMap (Event.call .ok)) := by
  intro offset len bytes hin
  have hlen := reports_data h hin
  obtain ⟨e, he, hcall⟩ := List.mem_filterMap.mp hin
  cases e with
  | onData buf l o res =>
    cases hcall
    have hbuf := onData_length he
    rw [List.length_take] at hlen
    omega
  | write b => cases hcall
  | onFileStart info res => cases hcall
  | onFileEnd info status => cases hcall
  | getFileInfo idx => cases hcall
  | readData idx offset len data res => cases hcall

/-! ### A batch from any transmitter -/

/-- What a receiver without pending events has reported of a batch, in the calls it was
made in. -/
theorem chunked_reached {υ : Type} {tcbs : TxCallbacks υ} {l : Out Ymodem.Event (TxSite υ) Ymodem.Status}
    {u : State} {t : Duplex UInt8 Ymodem.Event (TxSite υ) Ymodem.Status Ymodem.Event (RxState State)
      Ymodem.Status} {batch : List File}
    (h : Reaches (txParty P crc tcbs) (rxParty P crc (ymodemRxCallbacks P fs settings))
      (Duplex.init l (ymodemReceive u)) t) (hflushed : t.right.events = [])
    (hreports : Reports batch (t.rightLog.filterMap (Event.call .ok))) :
    Chunked (t.rightLog.filterMap (Event.call .ok)) := by
  obtain ⟨reads, hside⟩ := h.rightSide
  have hlog : t.rightLog ++ t.right.events = (Ymodem.received P crc
      (ymodemRxCallbacks P fs settings) u reads).events := congrArg Out.events hside
  rw [hflushed, List.append_nil] at hlog
  rw [hlog] at hreports ⊢
  exact chunked_received hreports

/-- One run of a serving transmitter and the console's receiver to its end. -/
theorem reaches_reported (crc : CrcService) {υ : Type} {tcbs : TxCallbacks υ} {batch : List File}
    (hs : Serves P.sizeMod tcbs batch) (hbatch : ∀ f ∈ batch, Sendable P f)
    (hwidth : P.sizeBits ≤ P.ulongBits) (fs : FileSystem UInt8 Path) (settings : StorageSettings)
    (name : Option Path) (files : Files UInt8 Path) (u : υ) :
    ∃ ll rl, Reaches (txParty P crc tcbs) (rxParty P crc (ymodemRxCallbacks P fs settings))
        (Duplex.init (ymodemTransmit tcbs u) (ymodemReceive ⟨initialCtx name, files⟩))
        ⟨⟨[], .done .ok⟩, ⟨[], .done .ok⟩, [], [], ll, rl⟩ ∧
      Reports batch (rl.filterMap (Event.call .ok)) ∧
      Chunked (rl.filterMap (Event.call Ymodem.Status.ok)) ∧
      ll.filterMap Event.wire = batchStream crc batch ∧
      rl.filterMap Event.wire = batchReplies batch := by
  have hstart : Reaches (txParty P crc tcbs) (rxParty P crc (ymodemRxCallbacks P fs settings))
      (Ymodem.start tcbs u ⟨initialCtx name, files⟩)
      (Ymodem.between tcbs 0 u ⟨initialCtx name, files⟩ [.getFileInfo 0] [.write Xmodem.charC]) :=
    (flushLeft [Event.getFileInfo 0] _ _ [] [] [] []).trans
      (flushRight _ [Event.write Xmodem.charC] _ [] [] [Event.getFileInfo 0] [])
  obtain ⟨sent, es, hreports, hsent, hreplies, hrun⟩ := Ymodem.reaches_batch crc
    (ymodemOnFileStart fs settings) (ymodemOnFileData P fs settings) ymodemOnFileEnd hs hbatch hwidth
    batch 0 (Nat.zero_le _) rfl u ⟨initialCtx name, files⟩ [.getFileInfo 0] [.write Xmodem.charC]
  have hall : Reaches (txParty P crc tcbs) (rxParty P crc (ymodemRxCallbacks P fs settings))
      (Ymodem.start tcbs u ⟨initialCtx name, files⟩)
      ⟨⟨[], .done .ok⟩, ⟨[], .done .ok⟩, [], [], .getFileInfo 0 :: sent, .write Xmodem.charC :: es⟩ :=
    hstart.trans hrun
  have hlogged : Reports batch
      ((Event.write Xmodem.charC :: es : List Ymodem.Event).filterMap (Event.call .ok)) := hreports
  exact ⟨.getFileInfo 0 :: sent, .write Xmodem.charC :: es, hall, hlogged,
    chunked_reached hall rfl hlogged, hsent, congrArg (List.cons Xmodem.charC) hreplies⟩

theorem reaches_stored (crc : CrcService) {υ : Type} {tcbs : TxCallbacks υ} {batch : List File}
    (hs : Serves P.sizeMod tcbs batch) (hbatch : ∀ f ∈ batch, Sendable P f)
    (hwidth : P.sizeBits ≤ P.ulongBits) (hfs : Reliable fs) {files : Files UInt8 Path}
    (hstorable : Storable settings files batch) (name : Option Path) (u : υ) :
    ∃ ll rl, Reaches (txParty P crc tcbs) (rxParty P crc (ymodemRxCallbacks P fs settings))
        (Duplex.init (ymodemTransmit tcbs u) (ymodemReceive ⟨initialCtx name, files⟩))
        ⟨⟨[], .done .ok⟩, ⟨[], .done .ok⟩, [], [], ll, rl⟩ ∧
      storedFiles P fs settings name files rl = batch.foldl (put settings) files ∧
      ll.filterMap Event.wire = batchStream crc batch ∧
      rl.filterMap Event.wire = batchReplies batch := by
  obtain ⟨ll, rl, hrun, hreports, hchunk, hsent, hreplies⟩ := reaches_reported crc hs hbatch hwidth fs
    settings name files u
  refine ⟨ll, rl, hrun, ?_, hsent, hreplies⟩
  rw [storedFiles, replay_eq_store]
  exact replay_reports hfs hreports (fun f hf => (hbatch f hf).name_ne_nil) hchunk rfl hstorable

theorem sameParty_rxConsole : SameParty id (resultCode .ok)
    ((rxParty P crc (ymodemRxCallbacks P fs settings)).filtered input.readByte)
    (rxConsole P crc fs settings input) :=
  ⟨mimics_returning _ _, rfl⟩

theorem map_start {υ : Type} (l : Out Ymodem.Event (TxSite υ) Ymodem.Status) (canCount : ℕ)
    (name : Option Path) (files : Files UInt8 Path) :
    ((Duplex.init l (ymodemReceive (⟨initialCtx name, files⟩ : State)) : Duplex UInt8 _ _ _ _ _ _).lift
      canCount).map id id id (resultCode .ok) = Duplex.init l (rxStart canCount name files) := by
  rw [map_lift_init, Out.map_id]
  rfl

/-- Two files, one of them empty. -/
def twoFiles : List File := [⟨[0x66], [9]⟩, ⟨[0x67], []⟩]

theorem sendable_twoFiles : ∀ f ∈ twoFiles, Sendable platform32 f := by
  intro f hf
  rw [twoFiles, List.mem_cons, List.mem_singleton] at hf
  rcases hf with rfl | rfl
  · exact ⟨by decide, by decide, by decide, by decide⟩
  · exact ⟨by decide, by decide, by decide, by decide⟩

/-- Their packets hold neither the default abort key nor CAN. -/
theorem quiet_twoFiles : ConsoleInput.Quiet ⟨false, true, 0x03⟩ (batchStream referenceCrc twoFiles) := by
  refine quiet_of_forall ?_
  have hdata : Ymodem.blockPackets referenceCrc [9] (Ymodem.blocksFor 1) 0 1 =
      Ymodem.packet referenceCrc 1 (Ymodem.blockAt [9] 0) ++ [] := rfl
  have hempty : Ymodem.blockPackets referenceCrc [] (Ymodem.blocksFor 0) 0 1 = [] := rfl
  simp only [twoFiles, batchStream, Ymodem.fileStream, List.flatMap_cons, List.flatMap_nil,
    List.length_singleton, List.length_nil, hdata, hempty, Ymodem.packet, modemCrc16_reference]
  decide +kernel

/-- The callbacks of the console on a context whose file stays open. -/
def sendingCallbacks (rd : ReadAccess UInt8 Path) (path contents : List UInt8) :
    TxCallbacks {s : State // Sending path contents s} where
  getFileInfo i s := ((getFileInfo i s.1).1, (getFileInfo i s.1).2.1, s)
  readData _ offset len s := ((readFileData rd offset len s.1).1, (readFileData rd offset len s.1).2.1,
    ⟨(readFileData rd offset len s.1).2.2, s.2.readFileData offset len⟩)
  readData_length _ offset len s := length_readFileData rd offset len s.1
  readData_result _ offset len s := readFileData_le rd offset len s.1

theorem sameCallbacks_sending (rd : ReadAccess UInt8 Path) (path contents : List UInt8) :
    SameCallbacks Subtype.val (sendingCallbacks rd path contents) (ymodemTxCallbacks rd) where
  info i s := Prod.ext rfl (Prod.ext rfl (getFileInfo_state i s.1))
  data _ _ _ _ := rfl

/-- The file at `path` as it is announced. -/
def sentFile (path contents : List UInt8) : File := ⟨baseName path, contents⟩

theorem serves_sending (hrd : rd.Reliable) {path contents : List UInt8}
    (hname : (baseName path).length ≤ 100) :
    Serves P.sizeMod (sendingCallbacks rd path contents) [sentFile path contents] where
  count := Nat.lt_of_lt_of_le (by decide : 1 < 65536) P.sizeMod_ge
  info i f s hf := by
    cases i with
    | succ i => cases hf
    | zero =>
      cases hf
      have hshort : (baseName path).take (filenameSize - 1) = baseName path :=
        List.take_of_length_le (by rw [filenameSize]; omega)
      simp only [sendingCallbacks, getFileInfo, if_neg (Nat.lt_irrefl 0), s.2.target, hshort,
        s.2.fileSize]
      exact ⟨trivial, rfl⟩
  noMore s := by
    rintro ⟨hzero, -⟩
    cases hzero
  contents i f offset len s hf hlen := by
    cases i with
    | succ i => cases hf
    | zero =>
      cases hf
      exact s.2.readFileData_bytes hrd (Nat.le_trans (Nat.le_add_right _ _) hlen) len

/-- A file of the console and its name, as a transmit command finds them. -/
structure Transmittable (P : Platform) (files : Files UInt8 Path) (path contents : List UInt8) :
    Prop where
  there : files path = some contents
  fits : path.length < pathSize
  sendable : Sendable P (sentFile path contents)

theorem sameParty_txConsole (path contents : List UInt8) :
    SameParty (Prod.map id (TxSite.map Subtype.val)) (resultCode .ok)
      ((txParty P crc (sendingCallbacks rd path contents)).filtered input.readByte)
      (txConsole P crc rd input) :=
  ⟨((Ymodem.mimics_transmitStep P crc (sameCallbacks_sending rd path contents)).filtered
    input.readByte).returning _, rfl⟩

theorem consoleModemTxYmodem_eq (hrd : rd.Reliable) {files : Files UInt8 Path}
    {path contents : List UInt8} (h : Transmittable P files path contents) :
    ∃ s : {s : State // Sending path contents s}, ∀ canCount,
      consoleModemTxYmodem rd canCount path files =
        (ymodemTransmit (sendingCallbacks rd path contents) s).map
          (fun x => (canCount, x.map Subtype.val)) (resultCode .ok) := by
  have htarget : (initialCtx (some path)).targetPath = path :=
    List.take_of_length_le (Nat.le_pred_of_lt h.fits)
  obtain ⟨hopen, hsending⟩ := openInputFile_sending (s := ⟨initialCtx (some path), files⟩) hrd
    h.there htarget
  refine ⟨⟨_, hsending⟩, fun canCount => ?_⟩
  have hmap := Ymodem.nextFile_map (sameCallbacks_sending rd path contents) 0 ⟨_, hsending⟩
  simp only [consoleModemTxYmodem, if_neg (not_not.mpr hopen), ymodemTransmit]
  rw [hmap]
  rfl

/-- A file sent by one console is stored by another one, if the monitors let the packets and
the replies pass: both commands return 0. -/
theorem file_copied (hrd : rd.Reliable) (hfs : Reliable fs) (hwidth : P.sizeBits ≤ P.ulongBits)
    {source files : Files UInt8 Path} {path contents : List UInt8}
    (h : Transmittable P source path contents) (name : Option Path)
    (hstorable : Storable settings files [sentFile path contents]) {txInput rxInput : ConsoleInput}
    (hreplies : txInput.Quiet (batchReplies [sentFile path contents]))
    (hstream : rxInput.Quiet (batchStream crc [sentFile path contents])) (txCount rxCount : ℕ) :
    Settles (txConsole P crc rd txInput) (rxConsole P crc fs settings rxInput)
      (Duplex.init (consoleModemTxYmodem rd txCount path source) (rxStart rxCount name files))
      fun t => t.left = ⟨[], .done 0⟩ ∧
        Stored P fs settings name files [sentFile path contents] t := by
  obtain ⟨s, hs⟩ := consoleModemTxYmodem_eq hrd h
  have hsend : ∀ f ∈ [sentFile path contents], Sendable P f := by
    intro f hf
    rw [List.mem_singleton.mp hf]
    exact h.sendable
  obtain ⟨ll, rl, hrun, hstored, hsent, hanswered⟩ := reaches_stored crc
    (serves_sending hrd h.sendable.name_length) hsend hwidth hfs hstorable name s
  rw [← hsent] at hstream
  rw [← hanswered] at hreplies
  obtain ⟨j, j', hfiltered⟩ := hrun.filtered (passing_init (hreplies.passes txCount))
    (passing_init (hstream.passes rxCount))
  rw [hs, rxStart, ← map_liftBoth_init]
  exact hfiltered.settles_map (sameParty_txConsole path contents) sameParty_rxConsole
    ⟨⟨.ok, rfl⟩, .ok, rfl⟩ ⟨rfl, rfl, hstored⟩

end ZephyrModem.Console
