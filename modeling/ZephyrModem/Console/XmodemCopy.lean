import ZephyrModem.Console.Monitor
import ZephyrModem.Console.Stores
import ZephyrModem.Console.Transmit
import ZephyrModem.Xmodem.CleanLine
import ZephyrModem.Xmodem.UserData

/-!
# A file copied from console to console by XMODEM

`modem tx x` on one target and `modem rx x` on another one, joined by a line without loss.
XMODEM transfers no length: what is stored is the file padded to whole blocks, and one
block of padding for an empty file. The packets and the replies go through the abort
monitors of the two consoles.
-/

namespace ZephyrModem.Console
open ZephyrModem.Storage ZephyrModem.Transfer ZephyrModem.Reactive ZephyrModem.Reactive.Duplex
open ZephyrModem.Xmodem (TxSite RxState RxResult transmitStep receiveStep xmodemTransmit
  xmodemReceive transmitter receiver delivered)

variable (P : Platform) (crc : CrcService) (rd : ReadAccess UInt8 Path)
  (fs : FileSystem UInt8 Path) (settings : StorageSettings) (maxRetries : UInt8)
  (input : ConsoleInput) (canCount : ℕ)

/-! ### The two commands -/

/-- The context of `console_modem_tx_xmodem` after `open_input_file`. -/
def txOpened (inputFilename : Path) (files : Files UInt8 Path) : ℤ × State :=
  openInputFile rd inputFilename ⟨initialCtx (some inputFilename), files⟩

/-- `console_modem_tx_xmodem` up to its first read, or its return. -/
def consoleModemTxXmodem (inputFilename : Path) (files : Files UInt8 Path) :
    Out Xmodem.Event (ℕ × TxSite State) ℤ :=
  let opened := txOpened rd inputFilename files
  if opened.1 ≠ 0 then ⟨[], .done (-1)⟩
  else (xmodemTransmit opened.2).map (Prod.mk canCount) (resultCode .ok)

/-- `console_modem_tx_xmodem` as one side of a line: it reads through `console_read_byte`. -/
def txXmodemConsole (inputFilename : Path) (files : Files UInt8 Path) :
    Party UInt8 Xmodem.Event (ℕ × TxSite State) ℤ :=
  ⟨returning (resultCode .ok) (filtered input.readByte (transmitStep P crc (xmodemTxCallbacks P rd)
    (xmodemConfig maxRetries) (txOpened rd inputFilename files).2.ctx.fileSize)), Xmodem.Event.wire⟩

def rxOpened (outputFilename : Path) (files : Files UInt8 Path) : ℤ × State :=
  openOutputFile fs settings outputFilename ⟨initialCtx (some outputFilename), files⟩

def xmodemResult (r : RxResult) : ℤ := resultCode .ok r.status

/-- `console_modem_rx_xmodem` as one side of a line. -/
def rxXmodemConsole : Party UInt8 Xmodem.Event (ℕ × RxState State) ℤ :=
  ⟨returning xmodemResult (filtered input.readByte
    (receiveStep P crc (xmodemRxCallbacks P fs settings) (xmodemConfig maxRetries))), Xmodem.Event.wire⟩

def rxXmodemStart (outputFilename : Path) (files : Files UInt8 Path) :
    Out Xmodem.Event (ℕ × RxState State) ℤ :=
  let opened := rxOpened fs settings outputFilename files
  if opened.1 ≠ 0 then ⟨[], .done (-1)⟩
  else (xmodemReceive (xmodemConfig maxRetries) opened.2).map (Prod.mk canCount) xmodemResult

/-- The files of the receiving side after the calls of its log. -/
def xmodemStored (outputFilename : Path) (files : Files UInt8 Path) (log : List Xmodem.Event) :
    Files UInt8 Path :=
  (replay (Xmodem.Event.effect (xmodemRxCallbacks P fs settings)) log
    (rxOpened fs settings outputFilename files).2).files

variable {P rd fs settings input} {path contents : List UInt8} {s : State}

/-! ### The file that is read -/

/-- The file of the context is open, and as much of it as `bytes_transferred` says is read. -/
structure SendingFrom (path contents : List UInt8) (s : State) : Prop
    extends Sending path contents s where
  offset : s.ctx.bytesTransferred ≤ contents.length

theorem Sending.readFileData_result (hrd : rd.Reliable) (h : Sending path contents s) {offset : ℕ}
    (hoffset : offset ≤ contents.length) (len : ℕ) :
    (Console.readFileData rd offset len s).1 = ((contents.drop offset).take len).length := by
  have hthere : s.files (fsSeek rd s.files s.ctx.zfile offset).2.path ≠ none := by
    rw [fsSeek_path, h.zfilePath, h.file]
    exact Option.some_ne_none contents
  have hbytes := h.readFileData_bytes hrd hoffset len
  have hres := hrd.fsRead_eq hthere len
  simp only [Console.readFileData, if_neg (not_not.mpr h.zfileOpen)] at hbytes ⊢
  rw [hbytes] at hres
  rw [hres, if_pos (Int.natCast_nonneg _)]

theorem readFileData_bytesTransferred (rd : ReadAccess UInt8 Path) (offset len : ℕ) (s : State) :
    (readFileData rd offset len s).2.2.ctx.bytesTransferred = s.ctx.bytesTransferred := by
  unfold readFileData
  split <;> rfl

theorem SendingFrom.moved (h : Sending path contents s) {n : ℕ} (hn : n ≤ contents.length) :
    SendingFrom path contents { s with ctx := { s.ctx with bytesTransferred := n } } :=
  ⟨⟨h.zfileOpen, h.zfilePath, h.file, h.fileSize, h.target⟩, hn⟩

/-- `xmodem_tx_data_cb` on an open file: the next bytes of it, and the place behind them. -/
theorem SendingFrom.dataCb (hrd : rd.Reliable) (hsize : contents.length < P.sizeMod)
    (h : SendingFrom path contents s) (n : UInt8) (buf : List UInt8) :
    (xmodemTxDataCb P rd n buf s).1 = 0 ∧
      (xmodemTxDataCb P rd n buf s).2.1 =
        (contents.drop s.ctx.bytesTransferred).take buf.length ++
          buf.drop ((contents.drop s.ctx.bytesTransferred).take buf.length).length ∧
      (xmodemTxDataCb P rd n buf s).2.2.ctx.bytesTransferred = s.ctx.bytesTransferred +
        ((contents.drop s.ctx.bytesTransferred).take buf.length).length ∧
      SendingFrom path contents (xmodemTxDataCb P rd n buf s).2.2 := by
  have hres := h.readFileData_result hrd h.offset buf.length
  have hbytes := h.readFileData_bytes hrd h.offset buf.length
  have hkept := readFileData_bytesTransferred rd s.ctx.bytesTransferred buf.length s
  have hsending : Sending path contents (readFileData rd s.ctx.bytesTransferred buf.length s).2.2 :=
    h.toSending.readFileData s.ctx.bytesTransferred buf.length
  have hend : s.ctx.bytesTransferred +
      ((contents.drop s.ctx.bytesTransferred).take buf.length).length ≤ contents.length := by
    have hoffset := h.offset
    rw [List.length_take, List.length_drop]
    omega
  have hfits : P.toSize (s.ctx.bytesTransferred +
      ((contents.drop s.ctx.bytesTransferred).take buf.length).length) = s.ctx.bytesTransferred +
        ((contents.drop s.ctx.bytesTransferred).take buf.length).length :=
    P.toSize_of_lt (Nat.lt_of_le_of_lt hend hsize)
  simp only [xmodemTxDataCb, hres, hbytes, hkept, Int.toNat_natCast, hfits,
    if_pos (Int.natCast_nonneg _), true_and]
  by_cases hsome : (((contents.drop s.ctx.bytesTransferred).take buf.length).length : ℤ) > 0
  · rw [if_pos hsome]
    exact ⟨rfl, SendingFrom.moved hsending hend⟩
  · rw [if_neg hsome]
    have hoffset := h.offset
    exact ⟨by omega, hsending, by omega⟩

/-- The callback of the console on a context whose file stays open. -/
def xmodemSendingCallbacks (hrd : rd.Reliable) (hsize : contents.length < P.sizeMod) (path : Path) :
    Xmodem.TxCallbacks {s : State // SendingFrom path contents s} where
  dataCb n buf s := ((xmodemTxDataCb P rd n buf s.1).1, (xmodemTxDataCb P rd n buf s.1).2.1,
    ⟨(xmodemTxDataCb P rd n buf s.1).2.2, (s.2.dataCb hrd hsize n buf).2.2.2⟩)
  dataCb_length n buf s := (xmodemTxCallbacks P rd).dataCb_length n buf s.1

def place (s : {s : State // SendingFrom path contents s}) : ℕ := s.1.ctx.bytesTransferred

theorem sameCallbacks_state (hrd : rd.Reliable) (hsize : contents.length < P.sizeMod) (path : Path) :
    Xmodem.SameCallbacks Subtype.val (xmodemSendingCallbacks hrd hsize path)
      (xmodemTxCallbacks P rd) := ⟨fun _ _ _ => rfl⟩

theorem sameCallbacks_place (hrd : rd.Reliable) (hsize : contents.length < P.sizeMod) (path : Path) :
    Xmodem.SameCallbacks place (xmodemSendingCallbacks hrd hsize path)
      (Xmodem.fileCallbacks contents) where
  data n buf s := by
    obtain ⟨hres, hbytes, hplace, -⟩ := s.2.dataCb hrd hsize n buf
    exact Prod.ext hres.symm (Prod.ext hbytes.symm hplace.symm)

theorem txOpened_sendingFrom (hrd : rd.Reliable) {source : Files UInt8 Path}
    (hthere : source path = some contents) (hfits : path.length < pathSize) :
    (txOpened rd path source).1 = 0 ∧ SendingFrom path contents (txOpened rd path source).2 ∧
      (txOpened rd path source).2.ctx.bytesTransferred = 0 := by
  have htarget : (initialCtx (some path)).targetPath = path :=
    List.take_of_length_le (Nat.le_pred_of_lt hfits)
  obtain ⟨hopen, hsending⟩ := openInputFile_sending (s := ⟨initialCtx (some path), source⟩) hrd
    hthere htarget
  have hzero : (txOpened rd path source).2.ctx.bytesTransferred = 0 := by
    unfold txOpened openInputFile
    dsimp only
    split <;> rfl
  refine ⟨hopen, ⟨hsending, ?_⟩, hzero⟩
  rw [hzero]
  exact Nat.zero_le _

/-! ### The file that is stored -/

theorem writeFileData_zfileOpen (buf : List UInt8) (len : ℕ) (s : State) :
    (writeFileData P fs settings buf len s).2.ctx.zfileOpen = s.ctx.zfileOpen := by
  unfold writeFileData
  dsimp only
  split_ifs <;> rfl

theorem takes_xmodemRxCallbacks (hfs : Reliable fs) :
    Xmodem.Takes (xmodemRxCallbacks P fs settings) fun s => s.ctx.zfileOpen = true := by
  intro n buf s hopen hlen
  exact ⟨writeFileData_reliable hfs hopen rfl hlen,
    (writeFileData_zfileOpen buf buf.length s).trans hopen⟩

theorem replay_delivered (hfs : Reliable fs) {old written : List UInt8} {log : List Xmodem.Event}
    (hlen : ∀ b ∈ delivered log, b.length ≤ asyncSize) (hs : Storing path old written s) :
    Storing path old (written ++ (delivered log).flatten)
      (replay (Xmodem.Event.effect (xmodemRxCallbacks P fs settings)) log s) := by
  induction log generalizing written s with
  | nil =>
    rw [Xmodem.delivered_nil, List.flatten_nil, List.append_nil]
    exact hs
  | cons e log ih =>
    cases e with
    | write b => exact ih hlen hs
    | dataCb n buf res =>
      rw [Xmodem.delivered_dataCb, List.forall_mem_cons] at hlen
      have hok : (writeFileData P fs settings buf buf.length s).1 = 0 :=
        writeFileData_reliable hfs hs.zfileOpen rfl hlen.1
      have hstored := writeFileData_storing hs hok
      rw [List.take_length] at hstored
      rw [Xmodem.delivered_dataCb, List.flatten_cons, ← List.append_assoc]
      exact ih hlen.2 hstored

theorem xmodemStored_eq (hfs : Reliable fs) {name : Path} {files : Files UInt8 Path}
    (hmode : settings.overwriteMode = .always ∨ files (fullPath settings name) = none)
    {log : List Xmodem.Event} (hlen : ∀ b ∈ delivered log, b.length ≤ asyncSize) :
    xmodemStored P fs settings name files log =
      put settings files ⟨name, (delivered log).flatten⟩ := by
  have hopened := openOutputFile_storing (s := ⟨initialCtx (some name), files⟩)
    (openOutputFile_reliable hfs hmode)
  have hstored : Storing (fullPath settings name) ((files (fullPath settings name)).getD [])
      ([] ++ (delivered log).flatten) (replay (Xmodem.Event.effect (xmodemRxCallbacks P fs settings))
        log (rxOpened fs settings name files).2) := replay_delivered hfs hlen hopened
  have hother : Spares (· ≠ fullPath settings name) files (initialCtx (some name)).targetPath
      ⟨initialCtx (some name), files⟩ := by
    refine ⟨fun _ _ => rfl, ?_, rfl⟩
    intro hclosed
    cases hclosed
  have hspared : Spares (· ≠ fullPath settings name) files (initialCtx (some name)).targetPath
      (rxOpened fs settings name files).2 := hother.openOutputFile (.inl fun hne => hne rfl)
  funext p
  by_cases hp : p = fullPath settings name
  · subst hp
    have hcontents := hstored.overwritten.contents
    rw [hstored.zfilePath, List.nil_append] at hcontents
    rw [put, Function.update_self]
    exact hcontents
  · rw [put, Function.update_of_ne hp]
    exact (hspared.replay_xmodem log).kept p hp

/-! ### The copy -/

variable {crc maxRetries}

/-- What the sending console does, with the proof that its file stays open. -/
def sendingParty (crc : CrcService) (maxRetries : UInt8) (hrd : rd.Reliable)
    (hsize : contents.length < P.sizeMod) (path : Path) :
    Party UInt8 Xmodem.Event (TxSite {s : State // SendingFrom path contents s}) Xmodem.Status :=
  ⟨transmitStep P crc (xmodemSendingCallbacks hrd hsize path) (xmodemConfig maxRetries)
    contents.length, Xmodem.Event.wire⟩

theorem sameParty_transmitter (hrd : rd.Reliable) (hsize : contents.length < P.sizeMod) (path : Path) :
    SameParty (TxSite.map place) id (sendingParty crc maxRetries hrd hsize path)
      (transmitter P crc (xmodemConfig maxRetries) contents) :=
  ⟨Xmodem.mimics_transmitStep P crc _ _ (sameCallbacks_place hrd hsize path), rfl⟩

theorem sameParty_txXmodemConsole (hrd : rd.Reliable) (hsize : contents.length < P.sizeMod)
    {source : Files UInt8 Path} (hlen : (txOpened rd path source).2.ctx.fileSize = contents.length) :
    SameParty (Prod.map id (TxSite.map Subtype.val)) (resultCode .ok)
      ((sendingParty crc maxRetries hrd hsize path).filtered input.readByte)
      (txXmodemConsole P crc rd maxRetries input path source) := by
  unfold txXmodemConsole
  rw [hlen]
  exact ⟨((Xmodem.mimics_transmitStep P crc _ _ (sameCallbacks_state hrd hsize path)).filtered
    input.readByte).returning _, rfl⟩

theorem sameParty_rxXmodemConsole : SameParty id xmodemResult
    ((receiver P crc (xmodemRxCallbacks P fs settings) (xmodemConfig maxRetries)).filtered
      input.readByte)
    (rxXmodemConsole P crc fs settings maxRetries input) :=
  ⟨mimics_returning _ _, rfl⟩

/-- A run of the transmitter on the file is one of the console with its file open. -/
theorem reaches_lifted {υ : Type} {cbs : Xmodem.RxCallbacks υ} {rcfg : Xmodem.Config} (hrd : rd.Reliable)
    (hsize : contents.length < P.sizeMod) {s : {s : State // SendingFrom path contents s}}
    (hs : place s = 0) {u : υ} {t : Xmodem.System υ}
    (h : Reaches (transmitter P crc (xmodemConfig maxRetries) contents) (receiver P crc cbs rcfg)
      (Duplex.init (xmodemTransmit 0) (xmodemReceive rcfg u)) t) :
    ∃ t', Reaches (sendingParty crc maxRetries hrd hsize path) (receiver P crc cbs rcfg)
        (Duplex.init (xmodemTransmit s) (xmodemReceive rcfg u)) t' ∧
      t = t'.map (TxSite.map place) id id id := by
  have hstart : (Duplex.init (xmodemTransmit 0) (xmodemReceive rcfg u) : Xmodem.System υ) =
      (Duplex.init (xmodemTransmit s) (xmodemReceive rcfg u)).map (TxSite.map place) id id id := by
    rw [map_init, Out.map_id, ← hs]
    rfl
  rw [hstart] at h
  exact h.lift (sameParty_transmitter hrd hsize path) (SameParty.refl _)

/-- The two consoles at their start, as the functions they run behind their monitors. -/
theorem copy_starts (rxRetries : UInt8) {source files : Files UInt8 Path}
    {path name contents : List UInt8} (hrd : rd.Reliable) (hfs : Reliable fs)
    (hthere : source path = some contents) (hfits : path.length < pathSize)
    (hmode : settings.overwriteMode = .always ∨ files (fullPath settings name) = none) :
    ∃ s : {s : State // SendingFrom path contents s}, place s = 0 ∧
      (rxOpened fs settings name files).2.ctx.zfileOpen = true ∧
      ∀ txCount rxCount, Duplex.init (consoleModemTxXmodem rd txCount path source)
          (rxXmodemStart fs settings rxRetries rxCount name files) =
        ((Duplex.init (xmodemTransmit s)
          (xmodemReceive (xmodemConfig rxRetries) (rxOpened fs settings name files).2) :
            Duplex UInt8 _ _ _ _ _ _).liftBoth txCount rxCount).map
          (Prod.map id (TxSite.map Subtype.val)) (resultCode .ok) id xmodemResult := by
  obtain ⟨hopen, hsending, hzero⟩ := txOpened_sendingFrom hrd hthere hfits
  have hrx : (rxOpened fs settings name files).1 = 0 := openOutputFile_reliable hfs hmode
  have hstoring : Storing (fullPath settings name) ((files (fullPath settings name)).getD []) []
      (rxOpened fs settings name files).2 := openOutputFile_storing hrx
  refine ⟨⟨_, hsending⟩, hzero, hstoring.zfileOpen, fun txCount rxCount => ?_⟩
  have htx : consoleModemTxXmodem rd txCount path source =
      (xmodemTransmit (⟨_, hsending⟩ : {s : State // SendingFrom path contents s})).map
        (fun x => (txCount, x.map Subtype.val)) (resultCode .ok) := if_neg (not_not.mpr hopen)
  have hstart : rxXmodemStart fs settings rxRetries rxCount name files =
      (xmodemReceive (xmodemConfig rxRetries) (rxOpened fs settings name files).2).map
        (Prod.mk rxCount) xmodemResult := if_neg (not_not.mpr hrx)
  rw [map_liftBoth_init, htx, hstart]

/-- The run of the functions of two consoles to its end. -/
theorem reaches_copied (crc : CrcService) {υ : Type} {cbs : Xmodem.RxCallbacks υ} {Inv : υ → Prop}
    (htakes : Xmodem.Takes cbs Inv) (rcfg : Xmodem.Config) (hrd : rd.Reliable)
    (hsize : contents.length < P.sizeMod)
    (hfit : Xmodem.blockCount Xmodem.blockSize1024 contents * Xmodem.blockSize1024 < P.sizeMod)
    (hmax : 0 < maxRetries) {s : {s : State // SendingFrom path contents s}} (hs : place s = 0) {u : υ}
    (hu : Inv u) :
    ∃ n ll rl, delivered rl = (List.range (Xmodem.sentCount Xmodem.blockSize1024 contents)).map
        (Xmodem.fileBlock Xmodem.blockSize1024 contents) ∧
      ll.filterMap Xmodem.Event.wire =
        Xmodem.fileStream crc (xmodemConfig maxRetries) contents (rcfg.mode ≠ .standard) ∧
      rl.filterMap Xmodem.Event.wire = Xmodem.fileReplies rcfg Xmodem.blockSize1024 contents ∧
      Reaches (sendingParty crc maxRetries hrd hsize path) (receiver P crc cbs rcfg)
        (Duplex.init (xmodemTransmit s) (xmodemReceive rcfg u))
        ⟨⟨[], .done .ok⟩, ⟨[], .done ⟨.ok, some n⟩⟩, [], [], ll, rl⟩ := by
  obtain ⟨n, ll, rl, hdelivered, hsent, hreplies, hrun⟩ := Xmodem.reaches_sent P crc cbs
    (xmodemConfig maxRetries) rcfg contents htakes hmax hfit hu
  obtain ⟨⟨l, r, tr, tl, ll', rl'⟩, hlift, ht⟩ := reaches_lifted hrd hsize hs hrun
  rw [Duplex.map, Out.map_id, Duplex.mk.injEq] at ht
  obtain ⟨hl, rfl, rfl, rfl, rfl, rfl⟩ := ht
  obtain ⟨q, hq, rfl⟩ := Out.map_eq_done hl.symm
  obtain rfl : l = _ := hq
  exact ⟨n, _, _, hdelivered, hsent, hreplies, hlift⟩

/-- The blocks of a file that fits fit. -/
theorem blocks_fit {P : Platform} {contents : List UInt8}
    (hsize : (Xmodem.sentFile Xmodem.blockSize1024 contents).length < P.sizeMod) :
    Xmodem.blockCount Xmodem.blockSize1024 contents * Xmodem.blockSize1024 < P.sizeMod ∧
      contents.length < P.sizeMod := by
  rw [Xmodem.sentFile_length] at hsize
  have hblocks : Xmodem.blockCount Xmodem.blockSize1024 contents * Xmodem.blockSize1024 < P.sizeMod :=
    Nat.lt_of_le_of_lt (Nat.mul_le_mul_right _ (Nat.le_max_right 1 _)) hsize
  exact ⟨hblocks, Nat.lt_of_le_of_lt (Xmodem.blockCount_mul_ge (by decide) contents) hblocks⟩

/-- A log that delivers the first blocks stores them. -/
theorem xmodemStored_blocks (hfs : Reliable fs) {name contents : List UInt8} {files : Files UInt8 Path}
    (hmode : settings.overwriteMode = .always ∨ files (fullPath settings name) = none)
    {log : List Xmodem.Event} {n : ℕ}
    (hlog : delivered log = (List.range n).map (Xmodem.fileBlock Xmodem.blockSize1024 contents)) :
    xmodemStored P fs settings name files log = put settings files
      ⟨name, ((List.range n).map (Xmodem.fileBlock Xmodem.blockSize1024 contents)).flatten⟩ := by
  have hlong : ∀ b ∈ delivered log, b.length ≤ asyncSize := by
    intro b hb
    rw [hlog] at hb
    obtain ⟨i, -, rfl⟩ := List.mem_map.mp hb
    rw [Xmodem.fileBlock_length]
    exact Nat.le_refl _
  rw [xmodemStored_eq hfs hmode hlong, hlog]

/-- However the steps of the two consoles interleave, both commands return 0 and the padded
file is stored, if the monitors let the packets and the replies pass. -/
theorem xmodem_copied (P : Platform) (crc : CrcService) (rd : ReadAccess UInt8 Path)
    (fs : FileSystem UInt8 Path) (settings : StorageSettings) (txRetries rxRetries : UInt8)
    (txInput rxInput : ConsoleInput) (txCount rxCount : ℕ)
    (source files : Files UInt8 Path) (path name contents : List UInt8) (hrd : rd.Reliable)
    (hfs : Reliable fs) (hthere : source path = some contents) (hfits : path.length < pathSize)
    (hsize : (Xmodem.sentFile Xmodem.blockSize1024 contents).length < P.sizeMod)
    (hretries : 0 < txRetries)
    (hmode : settings.overwriteMode = .always ∨ files (fullPath settings name) = none)
    (hreplies : txInput.Quiet
      (Xmodem.fileReplies (xmodemConfig rxRetries) Xmodem.blockSize1024 contents))
    (hstream : rxInput.Quiet (Xmodem.fileStream crc (xmodemConfig txRetries) contents true)) :
    Settles (txXmodemConsole P crc rd txRetries txInput path source)
      (rxXmodemConsole P crc fs settings rxRetries rxInput)
      (Duplex.init (consoleModemTxXmodem rd txCount path source)
        (rxXmodemStart fs settings rxRetries rxCount name files))
      fun t => t.left = ⟨[], .done 0⟩ ∧ t.right = ⟨[], .done 0⟩ ∧
        xmodemStored P fs settings name files t.rightLog =
          put settings files ⟨name, Xmodem.sentFile Xmodem.blockSize1024 contents⟩ := by
  obtain ⟨hblocks, hlen⟩ := blocks_fit hsize
  obtain ⟨s, hplace, hopen, hstarts⟩ := copy_starts rxRetries hrd hfs hthere hfits hmode
  obtain ⟨n, ll, rl, hdelivered, hsent, hanswered, hrun⟩ := reaches_copied crc
    (takes_xmodemRxCallbacks hfs) (xmodemConfig rxRetries) hrd hlen hblocks hretries hplace hopen
  have hsending := (txOpened_sendingFrom hrd hthere hfits).2.1
  rw [← hanswered] at hreplies
  have hquiet : rxInput.Quiet (ll.filterMap Xmodem.Event.wire) := by
    rw [hsent]
    exact hstream
  obtain ⟨i, j, hfiltered⟩ := hrun.filtered (passing_init (hreplies.passes txCount))
    (passing_init (hquiet.passes rxCount))
  rw [hstarts]
  exact hfiltered.settles_map (sameParty_txXmodemConsole hrd hlen hsending.fileSize)
    sameParty_rxXmodemConsole ⟨⟨_, rfl⟩, _, rfl⟩
    ⟨rfl, rfl, xmodemStored_blocks hfs hmode hdelivered⟩

/-- A file of two blocks. -/
def longFile : List UInt8 := List.replicate 1030 0x41

def longSource : Files UInt8 Path := fun path => if path = [0x66] then some longFile else none

theorem sentCount_longFile : Xmodem.sentCount Xmodem.blockSize1024 longFile = 2 := by
  rw [Xmodem.sentCount, Xmodem.blockCount, longFile, List.length_replicate]
  rfl

theorem mem_fileBlock {bs i : ℕ} {file : List UInt8} {b : UInt8} (h : b ∈ Xmodem.fileBlock bs file i) :
    b ∈ file ∨ b = 0x1A := by
  rcases List.mem_append.mp h with h | h
  · exact .inl (List.mem_of_mem_drop (List.mem_of_mem_take h))
  · exact .inr (List.eq_of_mem_replicate h)

/-- Its blocks and their checks hold neither the default abort key nor CAN. -/
theorem quiet_longFile : ConsoleInput.Quiet ⟨false, true, 0x03⟩
    (Xmodem.fileStream referenceCrc (xmodemConfig 10) longFile true) := by
  have hchecks : ∀ i < 2, ∀ b ∈ Xmodem.checkBytes referenceCrc true (Xmodem.fileBlock 1024 longFile i),
      b ≠ 0x03 ∧ b ≠ Xmodem.can := by
    simp only [Xmodem.checkBytes, if_true, modemCrc16_reference]
    decide +kernel
  have hnumbers : ∀ i < 2, ∀ b ∈ [Xmodem.stx, UInt8.ofNat (i + 1), ~~~UInt8.ofNat (i + 1)],
      b ≠ 0x03 ∧ b ≠ Xmodem.can := by decide +kernel
  have hblock : ∀ i, ∀ b ∈ Xmodem.fileBlock 1024 longFile i, b ≠ 0x03 ∧ b ≠ Xmodem.can := by
    intro i b hb
    rcases mem_fileBlock hb with hb | rfl
    · rw [List.eq_of_mem_replicate hb]
      decide
    · decide
  refine quiet_of_forall ?_
  intro b hb
  rcases List.mem_append.mp hb with hb | hb
  · obtain ⟨i, hi, hb⟩ := List.mem_flatMap.mp hb
    have hi : i < 2 := sentCount_longFile ▸ List.mem_range.mp hi
    have hlen : (Xmodem.fileBlock 1024 longFile i).length = Xmodem.blockSize1024 :=
      Xmodem.fileBlock_length _ _ _
    have hb' : b ∈ [Xmodem.stx, UInt8.ofNat (i + 1), ~~~UInt8.ofNat (i + 1)] ++
        (Xmodem.fileBlock 1024 longFile i ++
          Xmodem.checkBytes referenceCrc true (Xmodem.fileBlock 1024 longFile i)) := by
      have hpacket : Xmodem.filePacket referenceCrc (xmodemConfig 10) longFile true i =
          Xmodem.packet referenceCrc true (UInt8.ofNat (i + 1)) (Xmodem.fileBlock 1024 longFile i) := rfl
      rw [hpacket, Xmodem.packet, if_pos hlen] at hb
      exact hb
    rcases List.mem_append.mp hb' with hb | hb
    · exact hnumbers i hi b hb
    · rcases List.mem_append.mp hb with hb | hb
      · exact hblock i b hb
      · exact hchecks i hi b hb
  · rw [List.mem_singleton.mp hb]
    decide

theorem quiet_longReplies : ConsoleInput.Quiet ⟨false, true, 0x03⟩
    (Xmodem.fileReplies (xmodemConfig 10) Xmodem.blockSize1024 longFile) := by
  refine quiet_of_forall ?_
  rw [Xmodem.fileReplies, sentCount_longFile]
  decide +kernel

/-- Two blocks, with the default abort key on both sides. -/
theorem xmodem_copied_longFile : Settles
    (txXmodemConsole platform32 referenceCrc reliableRead 10 ⟨false, true, 0x03⟩ [0x66] longSource)
    (rxXmodemConsole platform32 referenceCrc reliableFs alwaysOverwrite 10 ⟨false, true, 0x03⟩)
    (Duplex.init (consoleModemTxXmodem reliableRead 0 [0x66] longSource)
      (rxXmodemStart reliableFs alwaysOverwrite 10 1 [0x67] threeBytes.files))
    fun t => t.left = ⟨[], .done 0⟩ ∧ t.right = ⟨[], .done 0⟩ ∧
      xmodemStored platform32 reliableFs alwaysOverwrite [0x67] threeBytes.files t.rightLog =
        put alwaysOverwrite threeBytes.files ⟨[0x67], Xmodem.sentFile Xmodem.blockSize1024 longFile⟩ :=
  xmodem_copied platform32 referenceCrc reliableRead reliableFs alwaysOverwrite 10 10 _ _ 0 1
    longSource threeBytes.files [0x66] [0x67] longFile reliable_reliableRead reliable_reliableFs rfl
    (by decide)
    (by
      rw [Xmodem.sentFile_length, sentCount_longFile]
      decide)
    (by decide) (.inl rfl) quiet_longReplies quiet_longFile

end ZephyrModem.Console
