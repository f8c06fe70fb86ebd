import ZephyrModem.CString
import ZephyrModem.Transfer.Callbacks
import ZephyrModem.Xmodem.Model

/-!
# YMODEM receiver and transmitter (`src/ymodem.c`)

As for XMODEM, both functions are cut at their calls of `read_byte`. The control
characters are those of `modem/xmodem.h`.
-/

namespace ZephyrModem.Ymodem
open ZephyrModem.Reactive ZephyrModem.Transfer
open ZephyrModem.Xmodem (Byte Read soh stx eot ack nak can charC)

def maxRetries : Byte := 10

inductive Status where
  | ok
  | error
  | errorTimeout
  | errorCancel
  | errorSequence
  | errorCrc
  | errorIo
  deriving Repr, DecidableEq

abbrev Event := Transfer.Event Status

abbrev RxCallbacks (υ : Type) := Transfer.RxCallbacks Status υ

/-! ### Block 0 -/

/-- `parse_block0` (lines 42-71). -/
def parseBlock0 (P : Platform) (payload : List Byte) (len : ℕ) : FileInfo :=
  let payload := payload.take len
  if payload.head? = some 0 then ⟨[], 0⟩
  else
    let nameLen := (cstr payload).length
    let nameLen := if nameLen ≥ filenameSize then filenameSize - 1 else nameLen
    let pos := nameLen + 1
    let size :=
      if pos < len ∧ payload.getD pos 0 ≠ 0 then
        let num := cstr (payload.drop pos)
        let num := if num.length ≥ 32 then num.take 31 else num
        P.toSize (strtoul P (num ++ [0]))
      else 0
    ⟨payload.take nameLen, size⟩

/-- The Block 0 payload of a file (lines 315-324). -/
def block0Payload (info : FileInfo) : List Byte :=
  let nlen := min info.filename.length 100
  let text := (decimal info.size).take (128 - (nlen + 1) - 1)
  info.filename.take nlen ++ 0 :: text ++ List.replicate (128 - (nlen + 1) - text.length) 0

/-! ### Receiver -/

/-- Locals of the transfer of one file (step 2). -/
structure FileLocals where
  info : FileInfo
  expectedBlk : Byte
  fileOffset : ℕ
  deriving Repr, DecidableEq

/-- Which loop of `ymodem_receive` runs: step 1, or step 2 of a file. -/
inductive Phase where
  | block0
  | data (f : FileLocals)
  deriving Repr, DecidableEq

/-- Locals of `ymodem_receive` that live across reads. -/
structure RxLocals (υ : Type) where
  retries : Byte
  phase : Phase
  userData : υ
  deriving Repr, DecidableEq

/-- The reads of `ymodem_receive`; the packet reads of step 1 and of step 2 have
the same shape. -/
inductive RxSite where
  | header                                                        -- lines 89, 182
  | secondEot                                                     -- line 209
  | blkNum (blockSize : ℕ)                                        -- lines 114, 241
  | blkNumInv (blockSize : ℕ) (blkNum : Byte)                     -- lines 115, 242
  | payload (blockSize : ℕ) (blkNum : Byte) (buf : List Byte)     -- lines 124, 250
  | crcHi (blkNum : Byte) (buf : List Byte) (ioErr : Bool)        -- lines 130, 256
  | crcLo (blkNum : Byte) (buf : List Byte) (ioErr : Bool) (hi : Byte)  -- lines 131, 257
  | purge                                                         -- line 35
  deriving Repr, DecidableEq

structure RxState (υ : Type) where
  site : RxSite
  locals : RxLocals υ
  deriving Repr, DecidableEq

abbrev RxOut (υ : Type) := Out Event (RxState υ) Status

section Receive

variable {υ : Type} (P : Platform) (crc : CrcService) (cbs : RxCallbacks υ)

def rxAt (site : RxSite) (v : RxLocals υ) : RxOut υ := ⟨[], .wait ⟨site, v⟩⟩

/-- The end of step 2 with an error: bytes, `on_file_end`, return. -/
def fileFails (es : List Event) (f : FileLocals) (status : Status) (u : υ) : RxOut υ :=
  ⟨es ++ (callFileEnd cbs f.info status u).1, .done status⟩

/-- Step 1: the request for Block 0. -/
def requestBlock0 (u : υ) : RxOut υ := ⟨sendByte charC, .wait ⟨.header, ⟨0, .block0, u⟩⟩⟩

/-- `retries++`, a further request, and the loop condition of line 88. -/
def requestAgain (v : RxLocals υ) : RxOut υ :=
  let retries := v.retries + 1
  if retries < maxRetries then ⟨sendByte charC, .wait ⟨.header, { v with retries }⟩⟩
  else ⟨sendByte charC ++ sendByte can, .done .errorTimeout⟩

def afterPurge (v : RxLocals υ) : RxOut υ :=
  match v.phase with
  | .block0 => requestAgain v
  | .data _ => ⟨sendByte nak, .wait ⟨.header, v⟩⟩

def headerTimeout (v : RxLocals υ) : RxOut υ :=
  match v.phase with
  | .block0 => requestAgain v
  | .data f =>
    let retries := v.retries + 1
    if retries > maxRetries then fileFails cbs (sendByte can) f .errorTimeout v.userData
    else ⟨sendByte nak, .wait ⟨.header, { v with retries }⟩⟩

def headerCancel (v : RxLocals υ) : RxOut υ :=
  match v.phase with
  | .block0 => ⟨sendByte can ++ sendByte can, .done .errorCancel⟩
  | .data f => fileFails cbs (sendByte can ++ sendByte can) f .errorCancel v.userData

/-- A header byte that opens a packet, or that opens nothing. -/
def openPacket (v : RxLocals υ) (header : Byte) : RxOut υ :=
  if header ≠ soh ∧ header ≠ stx then rxAt .purge v
  else rxAt (.blkNum (if header = stx then 1024 else 128)) v

def headerByte (v : RxLocals υ) (header : Byte) : RxOut υ :=
  match v.phase with
  | .block0 =>
    if header = can then ⟨[], .done .errorCancel⟩ else openPacket v header
  | .data f =>
    if header = eot then ⟨sendByte nak, .wait ⟨.secondEot, v⟩⟩
    else if header = can then fileFails cbs [] f .errorCancel v.userData
    else openPacket v header

/-- Lines 209 to 223: both branches acknowledge and end the file; the loop of
line 79 goes on. -/
def endFile (v : RxLocals υ) (_eot2 : Read) : RxOut υ :=
  match v.phase with
  | .block0 => rxAt .secondEot v
  | .data f =>
    let (called, u) := callFileEnd cbs f.info .ok v.userData
    (requestBlock0 u).after (sendByte ack ++ called)

/-- Step 1 with a verified Block 0 (lines 158 to 178). -/
def acceptBlock0 (v : RxLocals υ) (payload : List Byte) : RxOut υ :=
  let info := parseBlock0 P payload 128
  if info.filename = [] then ⟨sendByte ack, .done .ok⟩
  else
    let (called, userData) := callFileStart cbs info v.userData
    ⟨sendByte ack ++ sendByte charC ++ called,
      .wait ⟨.header, { v with phase := .data ⟨info, 1, 0⟩, userData }⟩⟩

/-- `write_len` (lines 277 to 280). -/
def writeLen (f : FileLocals) (blkSize : ℕ) : ℕ :=
  if f.info.size > 0 ∧ P.toSize (f.fileOffset + blkSize) > f.info.size then
    P.subSize f.info.size f.fileOffset
  else blkSize

/-- Step 2 with a verified block (lines 276 to 298). -/
def acceptBlock (v : RxLocals υ) (f : FileLocals) (bnum : Byte) (payload : List Byte) : RxOut υ :=
  if bnum = f.expectedBlk then
    let (called, userData) :=
      callData cbs payload (writeLen P f payload.length) f.fileOffset v.userData
    ⟨called ++ sendByte ack, .wait ⟨.header,
      { retries := 0, userData
        phase := .data { f with
          fileOffset := P.toSize (f.fileOffset + payload.length)
          expectedBlk := f.expectedBlk + 1 } }⟩⟩
  else if bnum = f.expectedBlk - 1 then
    ⟨sendByte ack, .wait ⟨.header, v⟩⟩
  else
    fileFails cbs (sendByte can) f .errorSequence v.userData

/-- The end of a packet: the CRC comparison (lines 135 to 144 and 261 to 274). -/
def checkPacket (v : RxLocals υ) (blkNum : Byte) (buf : List Byte) (ioErr : Bool) (hi lo : Byte) :
    RxOut υ :=
  if ioErr then rxAt .purge v
  else match v.phase with
    | .block0 =>
      if be16 hi lo ≠ modemCrc16 crc buf ∨ blkNum ≠ 0 then rxAt .purge v
      else acceptBlock0 P cbs v buf
    | .data f =>
      if modemCrc16 crc buf ≠ be16 hi lo then rxAt .purge v
      else acceptBlock P cbs v f blkNum buf

/-- `ymodem_receive`, from one read to the next. After a failed payload read the
CRC bytes are still read. -/
def receiveStep : Resume Read Event (RxState υ) Status := fun s r =>
  match s.site with
  | .header =>
    match r with
    | .cancel => headerCancel cbs s.locals
    | .timeout => headerTimeout cbs s.locals
    | .ok header => headerByte cbs s.locals header
  | .secondEot => endFile cbs s.locals r
  | .blkNum blockSize =>
    match r with
    | .ok blkNum => rxAt (.blkNumInv blockSize blkNum) s.locals
    | _ => rxAt .purge s.locals
  | .blkNumInv blockSize blkNum =>
    match r with
    | .ok _ => rxAt (.payload blockSize blkNum []) s.locals
    | _ => rxAt .purge s.locals
  | .payload blockSize blkNum buf =>
    match r with
    | .ok b =>
      if (buf ++ [b]).length < blockSize then rxAt (.payload blockSize blkNum (buf ++ [b])) s.locals
      else rxAt (.crcHi blkNum (buf ++ [b]) false) s.locals
    | _ => rxAt (.crcHi blkNum buf true) s.locals
  | .crcHi blkNum buf ioErr =>
    match r with
    | .ok hi => rxAt (.crcLo blkNum buf ioErr hi) s.locals
    | _ => rxAt .purge s.locals
  | .crcLo blkNum buf ioErr hi =>
    match r with
    | .ok lo => checkPacket P crc cbs s.locals blkNum buf ioErr hi lo
    | _ => rxAt .purge s.locals
  | .purge =>
    match r with
    | .ok _ => rxAt .purge s.locals
    | _ => afterPurge s.locals

/-- `ymodem_receive` up to its first read. -/
def ymodemReceive (userData : υ) : RxOut υ := requestBlock0 userData

/-- The log of a run and where it stands. -/
def received (userData : υ) (reads : List Read) : RxOut υ :=
  (run (receiveStep P crc cbs) (ymodemReceive userData).next reads).after
    (ymodemReceive userData).events

end Receive

/-! ### Transmitter -/

/-- Locals of `ymodem_transmit` that live across the reads for one file. -/
structure TxLocals (υ : Type) where
  fileIdx : ℕ
  hasFile : ℤ
  info : FileInfo
  userData : υ
  deriving Repr, DecidableEq

structure TxBlock where
  fileOffset : ℕ
  blockNum : Byte
  readBytes : ℕ
  payload : List Byte
  deriving Repr, DecidableEq

/-- The reads of `ymodem_transmit`. -/
inductive TxSite (υ : Type) where
  | startC (v : TxLocals υ) (retries : Byte)                  -- line 332
  | ackBlock0 (v : TxLocals υ)                                -- line 358
  | secondC (v : TxLocals υ)                                  -- line 367
  | reply (v : TxLocals υ) (b : TxBlock) (retries : Byte)     -- line 399
  | eotReply (v : TxLocals υ)                                 -- line 422
  | secondEotReply (v : TxLocals υ)                           -- line 424
  deriving Repr, DecidableEq

abbrev TxOut (υ : Type) := Out Event (TxSite υ) Status

section Transmit

variable {υ : Type} (P : Platform) (crc : CrcService) (cbs : TxCallbacks υ)

/-- One packet with its CRC (lines 348 to 354 and 388 to 396). -/
def packet (blockNum : Byte) (payload : List Byte) : List Byte :=
  (if payload.length = 1024 then stx else soh) :: blockNum :: ~~~blockNum ::
    (payload ++ [crcHi (modemCrc16 crc payload), crcLo (modemCrc16 crc payload)])

def TxLocals.HasFile (v : TxLocals υ) : Prop := v.hasFile = 0 ∧ v.info.filename ≠ []

instance (v : TxLocals υ) : Decidable v.HasFile := inferInstanceAs (Decidable (_ ∧ _))

/-- Block 0: the file, or zeros at the end of the batch. -/
def TxLocals.block0 (v : TxLocals υ) : List Byte :=
  if v.HasFile then block0Payload v.info else List.replicate 128 0

/-- The outer loop (line 311) up to its first read. -/
def nextFile (fileIdx : ℕ) (u : υ) : TxOut υ :=
  let (hasFile, info, userData) := cbs.getFileInfo fileIdx u
  ⟨[.getFileInfo fileIdx], .wait (.startC ⟨fileIdx, hasFile, info, userData⟩ 0)⟩

/-- The retransmission loop (line 387) at its condition. -/
def sendBlock (v : TxLocals υ) (b : TxBlock) (retries : Byte) : TxOut υ :=
  if retries < maxRetries then
    ⟨writeBytes (packet crc b.blockNum b.payload), .wait (.reply v b retries)⟩
  else ⟨[], .done .errorTimeout⟩

def txBlockSize (remaining : ℕ) : ℕ := if remaining > 128 then 1024 else 128

/-- The blocks for `n` bytes. -/
def blocksFor (n : ℕ) : ℕ := (n + 1023) / 1024

theorem blocksFor_succ {n : ℕ} (hn : 0 < n) :
    blocksFor n = blocksFor (n - min n (txBlockSize n)) + 1 := by
  unfold blocksFor txBlockSize
  split <;> omega

/-- The block loop (line 376) at its condition. -/
def nextBlock (v : TxLocals υ) (fileOffset : ℕ) (blockNum : Byte) : TxOut υ :=
  if fileOffset < v.info.size then
    let remaining := P.subSize v.info.size fileOffset
    let blockSize := txBlockSize remaining
    let readBytes := if remaining > blockSize then blockSize else remaining
    let (res, data, userData) := cbs.readData v.fileIdx fileOffset readBytes v.userData
    let payload := data ++ (List.replicate blockSize 0x1A).drop data.length
    (sendBlock crc { v with userData } ⟨fileOffset, blockNum, readBytes, payload⟩ 0).after
      [.readData v.fileIdx fileOffset readBytes data res]
  else
    ⟨sendByte eot, .wait (.eotReply v)⟩

/-- `ymodem_transmit`, from one read to the next. -/
def transmitStep : Resume Read Event (TxSite υ) Status := fun s r =>
  match s with
  | .startC v retries =>
    if r = .ok charC then
      ⟨writeBytes (packet crc 0 v.block0), .wait (.ackBlock0 v)⟩
    else if r = .ok can then ⟨[], .done .errorCancel⟩
    else if retries + 1 < maxRetries then ⟨[], .wait (.startC v (retries + 1))⟩
    else ⟨[], .done .errorTimeout⟩
  | .ackBlock0 v =>
    if r ≠ .ok ack then ⟨[], .done .errorTimeout⟩
    else if v.HasFile then ⟨[], .wait (.secondC v)⟩
    else ⟨[], .done .ok⟩
  | .secondC v =>
    if r ≠ .ok charC then ⟨[], .done .errorTimeout⟩
    else nextBlock P crc cbs v 0 1
  | .reply v b retries =>
    if r = .ok ack then
      nextBlock P crc cbs v (P.toSize (b.fileOffset + b.readBytes)) (b.blockNum + 1)
    else if r = .ok can then ⟨[], .done .errorCancel⟩
    else sendBlock crc v b (retries + 1)
  | .eotReply v =>
    if r = .ok nak then ⟨sendByte eot, .wait (.secondEotReply v)⟩
    else nextFile cbs (P.toSize (v.fileIdx + 1)) v.userData
  | .secondEotReply v => nextFile cbs (P.toSize (v.fileIdx + 1)) v.userData

/-- `ymodem_transmit` up to its first read. -/
def ymodemTransmit (userData : υ) : TxOut υ := nextFile cbs 0 userData

end Transmit

end ZephyrModem.Ymodem
