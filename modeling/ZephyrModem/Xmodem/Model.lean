import ZephyrModem.Crc
import ZephyrModem.Platform
import ZephyrModem.Reactive.Process

/-!
# XMODEM receiver and transmitter (`src/xmodem.c`)

Both functions are cut at their calls of `read_byte`; a site names the call at
which the function stands and carries the locals that live across it. The
storage callbacks are functions of the opaque `user_data`, which they may change.
-/

namespace ZephyrModem.Xmodem
open ZephyrModem.Reactive

abbrev Byte := UInt8
abbrev Read := ReadResult Byte

/-! ### Control characters and configuration (`modem/xmodem.h`) -/

def soh : Byte := 0x01
def stx : Byte := 0x02
def eot : Byte := 0x04
def ack : Byte := 0x06
def nak : Byte := 0x15
def can : Byte := 0x18
/-- `'C'`. -/
def charC : Byte := 0x43

def blockSize128 : ℕ := 128
def blockSize1024 : ℕ := 1024

inductive Status where
  | ok
  | error
  | errorTimeout
  | errorCancel
  | errorSequence
  | errorCrc
  | errorIo
  deriving Repr, DecidableEq

inductive Mode where
  | standard
  | crc
  | oneK
  deriving Repr, DecidableEq

/-- `xmodem_config_t`; the two time-outs only set how long a read waits. -/
structure Config where
  mode : Mode
  maxRetries : Byte
  deriving Repr, DecidableEq

def configInit : Config := ⟨.oneK, 10⟩

/-- What the functions do: write one byte, or call `data_cb`, with its result. -/
inductive Event where
  | write (b : Byte)
  | dataCb (blockNum : Byte) (buf : List Byte) (res : ℤ)
  deriving Repr, DecidableEq

/-- The byte an event puts on the line. -/
def Event.wire : Event → Option Byte
  | .write b => some b
  | .dataCb .. => none

def delivered (tr : List Event) : List (List Byte) := tr.filterMap fun
  | .dataCb _ buf _ => some buf
  | .write _ => none

def sendByte (b : Byte) : List Event := [.write b]

def writeBytes (buf : List Byte) : List Event := buf.map .write

@[simp] theorem delivered_nil : delivered [] = [] := rfl

@[simp] theorem delivered_append (as bs : List Event) :
    delivered (as ++ bs) = delivered as ++ delivered bs := List.filterMap_append

@[simp] theorem delivered_write (b : Byte) (es : List Event) :
    delivered (.write b :: es) = delivered es := rfl

@[simp] theorem delivered_dataCb (n : Byte) (buf : List Byte) (res : ℤ) (es : List Event) :
    delivered (.dataCb n buf res :: es) = buf :: delivered es := rfl

@[simp] theorem delivered_sendByte (b : Byte) : delivered (sendByte b) = [] := rfl

@[simp] theorem delivered_writeBytes (bs : List Byte) : delivered (writeBytes bs) = [] := by
  simp [delivered, writeBytes]

@[simp] theorem wire_write (b : Byte) (es : List Event) :
    (Event.write b :: es).filterMap Event.wire = b :: es.filterMap Event.wire := rfl

@[simp] theorem wire_dataCb (n : Byte) (buf : List Byte) (res : ℤ) (es : List Event) :
    (Event.dataCb n buf res :: es).filterMap Event.wire = es.filterMap Event.wire := rfl

@[simp] theorem wire_sendByte (b : Byte) : (sendByte b).filterMap Event.wire = [b] := rfl

@[simp] theorem wire_writeBytes (bs : List Byte) : (writeBytes bs).filterMap Event.wire = bs := by
  simp [writeBytes, List.filterMap_map, Function.comp_def, Event.wire]

/-! ### Receiver -/

/-- Receiver callbacks: `data_cb` stores a block and returns 0 on success. -/
structure RxCallbacks (υ : Type) where
  dataCb : Byte → List Byte → υ → ℤ × υ

/-- The `user_data` after an event. -/
def Event.effect {υ : Type} (cbs : RxCallbacks υ) : Event → υ → υ
  | .dataCb n buf _, u => (cbs.dataCb n buf u).2
  | .write _, u => u

def acceptingStorage : RxCallbacks Unit where
  dataCb _ _ u := (0, u)

/-- Locals of `xmodem_receive` that live across its loop. -/
structure RxLocals (υ : Type) where
  expectedBlock : Byte
  totalBytes : ℕ
  retries : Byte
  crcMode : Bool
  req : Byte
  userData : υ
  deriving Repr, DecidableEq

/-- The reads of `xmodem_receive`. -/
inductive RxSite where
  | header                                                    -- line 74
  | secondCan                                                 -- line 110
  | blkNum (blockLen : ℕ)                                     -- line 136
  | blkNumInv (blockLen : ℕ) (r1 : Read)                      -- line 137
  | payload (blockLen : ℕ) (blkNum : Byte) (buf : List Byte)  -- line 160
  | crcHi (blkNum : Byte) (buf : List Byte)                   -- line 182
  | crcLo (blkNum : Byte) (buf : List Byte) (cr1 : Read)      -- line 183
  | cksum (blkNum : Byte) (buf : List Byte)                   -- line 206
  | purge (badHeader : Bool)                                  -- line 39
  deriving Repr, DecidableEq

structure RxState (υ : Type) where
  site : RxSite
  locals : RxLocals υ
  deriving Repr, DecidableEq

/-- Result of `xmodem_receive`: the status and the value stored in `*total_received`. -/
structure RxResult where
  status : Status
  totalReceived : Option ℕ
  deriving Repr, DecidableEq

abbrev RxOut (υ : Type) := Out Event (RxState υ) RxResult

section Receive

variable {υ : Type} (P : Platform) (crc : CrcService) (cbs : RxCallbacks υ) (cfg : Config)

/-- Return with an error status after the given writes. -/
def rxFail (es : List Event) (st : Status) : RxOut υ := ⟨es, .done ⟨st, none⟩⟩

/-- `send_byte(CAN); send_byte(CAN); return XMODEM_ERROR_CANCEL`. -/
def rxCancelled : RxOut υ := rxFail (sendByte can ++ sendByte can) .errorCancel

/-- Continue silently at another read. -/
def rxAt (site : RxSite) (v : RxLocals υ) : RxOut υ := ⟨[], .wait ⟨site, v⟩⟩

/-- Time-out of the header read (step 2a), with the fall-back to checksum mode. -/
def headerTimeout (v : RxLocals υ) : RxOut υ :=
  let retries := v.retries + 1
  if retries > cfg.maxRetries then
    rxFail (sendByte can ++ sendByte can) .errorTimeout
  else
    let fallback := v.totalBytes = 0 ∧ retries > cfg.maxRetries / 2 ∧ v.crcMode ∧ cfg.mode ≠ .crc
    let crcMode := if fallback then false else v.crcMode
    let req := if fallback then nak else v.req
    ⟨sendByte (if v.totalBytes = 0 then req else nak),
      .wait ⟨.header, { v with retries, crcMode, req }⟩⟩

/-- Steps 2b to 2d: the header byte. -/
def headerByte (v : RxLocals υ) (header : Byte) : RxOut υ :=
  if header = eot then
    ⟨sendByte ack, .done ⟨.ok, some v.totalBytes⟩⟩
  else if header = can then
    rxAt .secondCan v
  else if header = soh then
    rxAt (.blkNum blockSize128) v
  else if header = stx then
    rxAt (.blkNum blockSize1024) v
  else
    rxAt (.purge true) v

/-- `purge_rx(callbacks)` on a rejected packet; `retries++` and the NAK follow it. -/
def rejectPacket (v : RxLocals υ) : RxOut υ := rxAt (.purge false) v

/-- What follows `purge_rx`: only the bad-header branch looks at the retry limit. -/
def afterPurge (badHeader : Bool) (v : RxLocals υ) : RxOut υ :=
  let retries := v.retries + 1
  if badHeader ∧ retries > cfg.maxRetries then
    rxFail (sendByte can) .error
  else
    ⟨sendByte nak, .wait ⟨.header, { v with retries }⟩⟩

/-- Step 2e: both number bytes have been read. -/
def checkNumbers (v : RxLocals υ) (blockLen : ℕ) (r1 r2 : Read) : RxOut υ :=
  if r1 = .cancel ∨ r2 = .cancel then rxCancelled
  else match r1, r2 with
    | .ok blkNum, .ok blkNumInv =>
      if blkNum + blkNumInv ≠ 0xFF then rejectPacket v
      else rxAt (.payload blockLen blkNum []) v
    | _, _ => rejectPacket v

/-- Step 2h: a verified packet. -/
def acceptPacket (v : RxLocals υ) (blkNum : Byte) (buf : List Byte) : RxOut υ :=
  if blkNum = v.expectedBlock then
    let (res, userData) := cbs.dataCb v.expectedBlock buf v.userData
    let called := [.dataCb v.expectedBlock buf res]
    if res ≠ 0 then
      rxFail (called ++ sendByte can ++ sendByte can) .errorIo
    else
      ⟨called ++ sendByte ack, .wait ⟨.header, { v with
        expectedBlock := v.expectedBlock + 1
        totalBytes := P.toSize (v.totalBytes + buf.length)
        retries := 0
        req := ack
        userData }⟩⟩
  else if blkNum = v.expectedBlock - 1 then
    ⟨sendByte ack, .wait ⟨.header, v⟩⟩
  else
    rxFail (sendByte can ++ sendByte can) .errorSequence

/-- Step 2g, CRC mode. -/
def checkCrc (v : RxLocals υ) (blkNum : Byte) (buf : List Byte) (cr1 cr2 : Read) : RxOut υ :=
  if cr1 = .cancel ∨ cr2 = .cancel then rxCancelled
  else match cr1, cr2 with
    | .ok crcHi, .ok crcLo =>
      if be16 crcHi crcLo ≠ modemCrc16 crc buf then rejectPacket v
      else acceptPacket P cbs v blkNum buf
    | _, _ => rejectPacket v

/-- Step 2g, checksum mode. -/
def checkCksum (v : RxLocals υ) (blkNum : Byte) (buf : List Byte) : Read → RxOut υ
  | .cancel => rxCancelled
  | .timeout => rejectPacket v
  | .ok cksum =>
    if cksum ≠ modemChecksum8 buf then rejectPacket v
    else acceptPacket P cbs v blkNum buf

/-- Step 2f: one payload byte; after the last one, the check is read. -/
def payloadByte (v : RxLocals υ) (blockLen : ℕ) (blkNum : Byte) (buf : List Byte) : Read → RxOut υ
  | .cancel => rxCancelled
  | .timeout => rejectPacket v
  | .ok b =>
    let buf := buf ++ [b]
    if buf.length < blockLen then rxAt (.payload blockLen blkNum buf) v
    else if v.crcMode then rxAt (.crcHi blkNum buf) v
    else rxAt (.cksum blkNum buf) v

/-- `xmodem_receive`, from one read to the next. -/
def receiveStep : Resume Read Event (RxState υ) RxResult := fun s r =>
  match s.site with
  | .header =>
    match r with
    | .cancel => rxCancelled
    | .timeout => headerTimeout cfg s.locals
    | .ok header => headerByte s.locals header
  | .secondCan => rxFail [] .errorCancel
  | .blkNum blockLen => rxAt (.blkNumInv blockLen r) s.locals
  | .blkNumInv blockLen r1 => checkNumbers s.locals blockLen r1 r
  | .payload blockLen blkNum buf => payloadByte s.locals blockLen blkNum buf r
  | .crcHi blkNum buf => rxAt (.crcLo blkNum buf r) s.locals
  | .crcLo blkNum buf cr1 => checkCrc P crc cbs s.locals blkNum buf cr1 r
  | .cksum blkNum buf => checkCksum P cbs s.locals blkNum buf r
  | .purge badHeader =>
    match r with
    | .ok _ => rxAt (.purge badHeader) s.locals
    | _ => afterPurge cfg badHeader s.locals

/-- A time-out of the header read fails, or asks again; before the first block it
may also fall back to checksum mode. -/
theorem headerTimeout_cases (v : RxLocals υ) :
    headerTimeout cfg v = rxFail (sendByte can ++ sendByte can) .errorTimeout ∨
    ∃ c q, (c = v.crcMode ∧ q = v.req ∨ c = false ∧ q = nak ∧ v.totalBytes = 0) ∧
      headerTimeout cfg v = ⟨sendByte (if v.totalBytes = 0 then q else nak),
        .wait ⟨.header, { v with retries := v.retries + 1, crcMode := c, req := q }⟩⟩ := by
  by_cases hr : v.retries + 1 > cfg.maxRetries
  · exact .inl (if_pos hr)
  · right
    by_cases hf : v.totalBytes = 0 ∧ v.retries + 1 > cfg.maxRetries / 2 ∧ v.crcMode ∧ cfg.mode ≠ .crc
    · refine ⟨false, nak, .inr ⟨rfl, rfl, hf.1⟩, ?_⟩
      simp only [headerTimeout, if_neg hr, if_pos hf]
    · refine ⟨v.crcMode, v.req, .inl ⟨rfl, rfl⟩, ?_⟩
      simp only [headerTimeout, if_neg hr, if_neg hf]

theorem afterPurge_cases (bad : Bool) (v : RxLocals υ) :
    afterPurge cfg bad v = rxFail (sendByte can) .error ∨
    afterPurge cfg bad v = ⟨sendByte nak, .wait ⟨.header, { v with retries := v.retries + 1 }⟩⟩ := by
  simp only [afterPurge]
  split
  · exact .inl rfl
  · exact .inr rfl

theorem acceptPacket_stored (v : RxLocals υ) (buf : List Byte)
    (hres : (cbs.dataCb v.expectedBlock buf v.userData).1 = 0) :
    acceptPacket P cbs v v.expectedBlock buf =
      ⟨.dataCb v.expectedBlock buf 0 :: sendByte ack, .wait ⟨.header, { v with
        expectedBlock := v.expectedBlock + 1
        totalBytes := P.toSize (v.totalBytes + buf.length)
        retries := 0
        req := ack
        userData := (cbs.dataCb v.expectedBlock buf v.userData).2 }⟩⟩ := by
  simp only [acceptPacket, if_true, hres, ne_eq, not_true_eq_false, if_false]
  rfl

theorem acceptPacket_refused (v : RxLocals υ) (buf : List Byte)
    (hres : (cbs.dataCb v.expectedBlock buf v.userData).1 ≠ 0) :
    acceptPacket P cbs v v.expectedBlock buf =
      rxFail (.dataCb v.expectedBlock buf (cbs.dataCb v.expectedBlock buf v.userData).1 ::
        (sendByte can ++ sendByte can)) .errorIo := by
  simp only [acceptPacket, if_true, ne_eq, hres, not_false_eq_true]
  rfl

theorem acceptPacket_duplicate {v : RxLocals υ} {n : Byte} (buf : List Byte)
    (hn : n ≠ v.expectedBlock) (hd : n = v.expectedBlock - 1) :
    acceptPacket P cbs v n buf = ⟨sendByte ack, .wait ⟨.header, v⟩⟩ := by
  simp only [acceptPacket, if_neg hn, if_pos hd]

theorem acceptPacket_sequence {v : RxLocals υ} {n : Byte} (buf : List Byte)
    (hn : n ≠ v.expectedBlock) (hd : n ≠ v.expectedBlock - 1) :
    acceptPacket P cbs v n buf = rxFail (sendByte can ++ sendByte can) .errorSequence := by
  simp only [acceptPacket, if_neg hn, if_neg hd]

theorem acceptPacket_cases (v : RxLocals υ) (n : Byte) (buf : List Byte) :
    (n = v.expectedBlock ∧ (cbs.dataCb n buf v.userData).1 = 0 ∧
      acceptPacket P cbs v n buf = ⟨.dataCb n buf 0 :: sendByte ack, .wait ⟨.header, { v with
        expectedBlock := v.expectedBlock + 1
        totalBytes := P.toSize (v.totalBytes + buf.length)
        retries := 0
        req := ack
        userData := (cbs.dataCb n buf v.userData).2 }⟩⟩) ∨
    (n ≠ v.expectedBlock ∧ n = v.expectedBlock - 1 ∧
      acceptPacket P cbs v n buf = ⟨sendByte ack, .wait ⟨.header, v⟩⟩) ∨
    ∃ es st, (st = .errorIo ∨ st = .errorSequence) ∧ acceptPacket P cbs v n buf = rxFail es st := by
  by_cases hn : n = v.expectedBlock
  · subst hn
    by_cases hres : (cbs.dataCb v.expectedBlock buf v.userData).1 = 0
    · exact .inl ⟨rfl, hres, acceptPacket_stored P cbs v buf hres⟩
    · exact .inr (.inr ⟨_, .errorIo, .inl rfl, acceptPacket_refused P cbs v buf hres⟩)
  · by_cases hd : n = v.expectedBlock - 1
    · exact .inr (.inl ⟨hn, hd, acceptPacket_duplicate P cbs buf hn hd⟩)
    · exact .inr (.inr ⟨_, .errorSequence, .inr rfl, acceptPacket_sequence P cbs buf hn hd⟩)

theorem length_full {buf : List Byte} {b : Byte} {len : ℕ} (hlt : buf.length < len)
    (hend : ¬ (buf ++ [b]).length < len) : (buf ++ [b]).length = len := by
  rw [List.length_append, List.length_singleton] at hend ⊢
  omega

/-- The reads that follow one another without an answer. -/
inductive RxSite.ReadsOn (crcMode : Bool) : RxSite → Read → RxSite → Prop where
  | second : ReadsOn crcMode .header (.ok can) .secondCan
  | block128 : ReadsOn crcMode .header (.ok soh) (.blkNum blockSize128)
  | block1024 : ReadsOn crcMode .header (.ok stx) (.blkNum blockSize1024)
  | number (len : ℕ) (r1 : Read) : ReadsOn crcMode (.blkNum len) r1 (.blkNumInv len r1)
  | numbers (len : ℕ) {n inv : Byte} (h : n + inv = 0xFF) :
      ReadsOn crcMode (.blkNumInv len (.ok n)) (.ok inv) (.payload len n [])
  | byte {len : ℕ} (n : Byte) {buf : List Byte} {b : Byte} (h : (buf ++ [b]).length < len) :
      ReadsOn crcMode (.payload len n buf) (.ok b) (.payload len n (buf ++ [b]))
  | lastCrc {len : ℕ} (n : Byte) {buf : List Byte} {b : Byte} (h : ¬ (buf ++ [b]).length < len)
      (mode : crcMode = true) : ReadsOn crcMode (.payload len n buf) (.ok b) (.crcHi n (buf ++ [b]))
  | lastSum {len : ℕ} (n : Byte) {buf : List Byte} {b : Byte} (h : ¬ (buf ++ [b]).length < len)
      (mode : crcMode = false) : ReadsOn crcMode (.payload len n buf) (.ok b) (.cksum n (buf ++ [b]))
  | check (n : Byte) (buf : List Byte) (cr1 : Read) :
      ReadsOn crcMode (.crcHi n buf) cr1 (.crcLo n buf cr1)
  | rejected (site : RxSite) (r : Read) (bad : Bool) : ReadsOn crcMode site r (.purge bad)

/-- The reads that end the session as cancelled. -/
def RxSite.Cancels (site : RxSite) (r : Read) : Prop :=
  site = .secondCan ∨ r = .cancel ∨ (∃ len, site = .blkNumInv len .cancel) ∨
    ∃ n buf, site = .crcLo n buf .cancel

/-- The last read of a packet that passes the tests. -/
inductive RxSite.Completes (crc : CrcService) : RxSite → Read → Byte → List Byte → Prop where
  | crc16 (n : Byte) {buf : List Byte} {hi lo : Byte} (h : be16 hi lo = modemCrc16 crc buf) :
      Completes crc (.crcLo n buf (.ok hi)) (.ok lo) n buf
  | checksum (n : Byte) {buf : List Byte} {b : Byte} (h : b = modemChecksum8 buf) :
      Completes crc (.cksum n buf) (.ok b) n buf

/-- What one read can lead to: another read with the locals unchanged, cancellation,
the end at EOT, a time-out of the header read, the NAK after a drained line, or
step 2h on a packet that passed the tests. -/
inductive Outcome (s : RxState υ) (r : Read) : Prop where
  | readsOn (site : RxSite) (hnext : s.site.ReadsOn s.locals.crcMode r site)
      (hstep : receiveStep P crc cbs cfg s r = rxAt site s.locals)
  | cancels (es : List Event) (hcancels : s.site.Cancels r)
      (hes : es = [] ∨ es = sendByte can ++ sendByte can)
      (hstep : receiveStep P crc cbs cfg s r = rxFail es .errorCancel)
  | ends (hsite : s.site = .header) (hread : r = .ok eot)
      (hstep : receiveStep P crc cbs cfg s r =
        ⟨sendByte ack, .done ⟨.ok, some s.locals.totalBytes⟩⟩)
  | timesOut (hsite : s.site = .header) (hread : r = .timeout)
      (hstep : receiveStep P crc cbs cfg s r = headerTimeout cfg s.locals)
  | drained (bad : Bool) (hsite : s.site = .purge bad)
      (hstep : receiveStep P crc cbs cfg s r = afterPurge cfg bad s.locals)
  | takesPacket (n : Byte) (buf : List Byte) (hlast : s.site.Completes crc r n buf)
      (hstep : receiveStep P crc cbs cfg s r = acceptPacket P cbs s.locals n buf)

theorem outcome_of_reject {s : RxState υ} {r : Read}
    (hstep : receiveStep P crc cbs cfg s r = rejectPacket s.locals) :
    Outcome P crc cbs cfg s r := .readsOn _ (.rejected _ _ false) hstep

theorem outcome_of_cancel {s : RxState υ} {r : Read} (hcancels : s.site.Cancels r)
    (hstep : receiveStep P crc cbs cfg s r = rxCancelled) : Outcome P crc cbs cfg s r :=
  .cancels _ hcancels (.inr rfl) hstep

theorem outcome_header (v : RxLocals υ) (b : Byte) :
    Outcome P crc cbs cfg ⟨.header, v⟩ (.ok b) := by
  have hstep : receiveStep P crc cbs cfg ⟨.header, v⟩ (.ok b) = headerByte v b := rfl
  unfold headerByte at hstep
  split_ifs at hstep with heot hcan hsoh hstx
  · exact .ends rfl (by rw [heot]) hstep
  · exact .readsOn _ (hcan ▸ .second) hstep
  · exact .readsOn _ (hsoh ▸ .block128) hstep
  · exact .readsOn _ (hstx ▸ .block1024) hstep
  · exact .readsOn _ (.rejected _ _ true) hstep

theorem outcome_blkNumInv (v : RxLocals υ) (len : ℕ) (r1 r : Read) :
    Outcome P crc cbs cfg ⟨.blkNumInv len r1, v⟩ r := by
  have hstep : receiveStep P crc cbs cfg ⟨.blkNumInv len r1, v⟩ r = checkNumbers v len r1 r := rfl
  unfold checkNumbers at hstep
  split at hstep
  · rename_i hcancel
    apply outcome_of_cancel P crc cbs cfg _ hstep
    rcases hcancel with rfl | rfl
    · exact .inr (.inr (.inl ⟨len, rfl⟩))
    · exact .inr (.inl rfl)
  · split at hstep
    · split_ifs at hstep with hn
      · exact outcome_of_reject P crc cbs cfg hstep
      · exact .readsOn _ (.numbers len (not_not.mp hn)) hstep
    · exact outcome_of_reject P crc cbs cfg hstep

theorem outcome_payload (v : RxLocals υ) (len : ℕ) (n : Byte) (buf : List Byte) (b : Byte) :
    Outcome P crc cbs cfg ⟨.payload len n buf, v⟩ (.ok b) := by
  have hstep : receiveStep P crc cbs cfg ⟨.payload len n buf, v⟩ (.ok b) =
      payloadByte v len n buf (.ok b) := rfl
  simp only [payloadByte] at hstep
  by_cases hmore : (buf ++ [b]).length < len
  · exact .readsOn _ (.byte n hmore) (hstep.trans (if_pos hmore))
  · rw [if_neg hmore] at hstep
    cases hmode : v.crcMode with
    | true => exact .readsOn _ (.lastCrc n hmore hmode) (by rw [hstep, hmode]; rfl)
    | false => exact .readsOn _ (.lastSum n hmore hmode) (by rw [hstep, hmode]; rfl)

theorem outcome_crcLo (v : RxLocals υ) (n : Byte) (buf : List Byte) (cr1 r : Read) :
    Outcome P crc cbs cfg ⟨.crcLo n buf cr1, v⟩ r := by
  have hstep : receiveStep P crc cbs cfg ⟨.crcLo n buf cr1, v⟩ r =
      checkCrc P crc cbs v n buf cr1 r := rfl
  unfold checkCrc at hstep
  split at hstep
  · rename_i hcancel
    apply outcome_of_cancel P crc cbs cfg _ hstep
    rcases hcancel with rfl | rfl
    · exact .inr (.inr (.inr ⟨n, buf, rfl⟩))
    · exact .inr (.inl rfl)
  · split at hstep
    · split_ifs at hstep with hcrc
      · exact outcome_of_reject P crc cbs cfg hstep
      · exact .takesPacket n buf (.crc16 n (not_not.mp hcrc)) hstep
    · exact outcome_of_reject P crc cbs cfg hstep

theorem outcome_cksum (v : RxLocals υ) (n : Byte) (buf : List Byte) (b : Byte) :
    Outcome P crc cbs cfg ⟨.cksum n buf, v⟩ (.ok b) := by
  have hstep : receiveStep P crc cbs cfg ⟨.cksum n buf, v⟩ (.ok b) =
      checkCksum P cbs v n buf (.ok b) := rfl
  simp only [checkCksum] at hstep
  split_ifs at hstep with hsum
  · exact outcome_of_reject P crc cbs cfg hstep
  · exact .takesPacket n buf (.checksum n (not_not.mp hsum)) hstep

theorem receiveStep_cases (s : RxState υ) (r : Read) : Outcome P crc cbs cfg s r := by
  obtain ⟨site, v⟩ := s
  cases site with
  | header =>
    cases r with
    | ok b => exact outcome_header P crc cbs cfg v b
    | timeout => exact .timesOut rfl rfl rfl
    | cancel => exact outcome_of_cancel P crc cbs cfg (.inr (.inl rfl)) rfl
  | secondCan => exact .cancels _ (.inl rfl) (.inl rfl) rfl
  | blkNum len => exact .readsOn _ (.number len r) rfl
  | blkNumInv len r1 => exact outcome_blkNumInv P crc cbs cfg v len r1 r
  | payload len n buf =>
    cases r with
    | ok b => exact outcome_payload P crc cbs cfg v len n buf b
    | timeout => exact outcome_of_reject P crc cbs cfg rfl
    | cancel => exact outcome_of_cancel P crc cbs cfg (.inr (.inl rfl)) rfl
  | crcHi n buf => exact .readsOn _ (.check n buf r) rfl
  | crcLo n buf cr1 => exact outcome_crcLo P crc cbs cfg v n buf cr1 r
  | cksum n buf =>
    cases r with
    | ok b => exact outcome_cksum P crc cbs cfg v n buf b
    | timeout => exact outcome_of_reject P crc cbs cfg rfl
    | cancel => exact outcome_of_cancel P crc cbs cfg (.inr (.inl rfl)) rfl
  | purge bad =>
    cases r with
    | ok b => exact .readsOn _ (.rejected _ _ bad) rfl
    | timeout | cancel => exact .drained bad rfl rfl

theorem receiveStep_wait {s t : RxState υ} {r : Read}
    (h : (receiveStep P crc cbs cfg s r).next = .wait t) :
    t.site = .header ∨ s.site.ReadsOn s.locals.crcMode r t.site ∧ t.locals = s.locals := by
  rcases receiveStep_cases P crc cbs cfg s r with ⟨site, hnext, he⟩ | ⟨es, -, -, he⟩ |
    ⟨-, -, he⟩ | ⟨-, -, he⟩ | ⟨bad, -, he⟩ | ⟨n, buf, -, he⟩ <;> rw [he] at h
  · cases h
    exact .inr ⟨hnext, rfl⟩
  · cases h
  · cases h
  · rcases headerTimeout_cases cfg s.locals with ht | ⟨c, q, -, ht⟩ <;> rw [ht] at h <;> cases h
    exact .inl rfl
  · rcases afterPurge_cases cfg bad s.locals with hp | hp <;> rw [hp] at h <;> cases h
    exact .inl rfl
  · rcases acceptPacket_cases P cbs s.locals n buf with ⟨-, -, ha⟩ | ⟨-, -, ha⟩ | ⟨es, st, -, ha⟩ <;>
      rw [ha] at h <;> cases h <;> exact .inl rfl

theorem receiveStep_done {s : RxState υ} {r : Read} {res : RxResult}
    (h : (receiveStep P crc cbs cfg s r).next = .done res) :
    s.site.Cancels r ∧ res.status = .errorCancel ∨
    receiveStep P crc cbs cfg s r = ⟨sendByte ack, .done ⟨.ok, some s.locals.totalBytes⟩⟩ ∨
    res.status ≠ .ok ∧ res.status ≠ .errorCancel := by
  rcases receiveStep_cases P crc cbs cfg s r with ⟨site, -, he⟩ | ⟨es, hcancels, -, he⟩ |
    ⟨-, -, he⟩ | ⟨-, -, he⟩ | ⟨bad, -, he⟩ | ⟨n, buf, -, he⟩ <;> rw [he] at h
  · cases h
  · cases h
    exact .inl ⟨hcancels, rfl⟩
  · exact .inr (.inl he)
  · rcases headerTimeout_cases cfg s.locals with ht | ⟨c, q, -, ht⟩ <;> rw [ht] at h <;> cases h
    exact .inr (.inr (by decide))
  · rcases afterPurge_cases cfg bad s.locals with hp | hp <;> rw [hp] at h <;> cases h
    exact .inr (.inr (by decide))
  · rcases acceptPacket_cases P cbs s.locals n buf with ⟨-, -, ha⟩ | ⟨-, -, ha⟩ | ⟨es, st, hst, ha⟩ <;>
      rw [ha] at h <;> cases h
    rcases hst with rfl | rfl <;> exact .inr (.inr (by decide))

/-- Locals on entry of the loop. -/
def rxInit (userData : υ) : RxLocals υ where
  expectedBlock := 1
  totalBytes := 0
  retries := 0
  crcMode := cfg.mode ≠ .standard
  req := if cfg.mode ≠ .standard then charC else nak
  userData := userData

/-- `xmodem_receive` up to its first read: the handshake byte. -/
def xmodemReceive (userData : υ) : RxOut υ :=
  ⟨sendByte (rxInit cfg userData).req, .wait ⟨.header, rxInit cfg userData⟩⟩

end Receive

/-! ### Transmitter -/

/-- Transmitter callbacks: `data_cb` fills the block buffer, keeping its length. -/
structure TxCallbacks (υ : Type) where
  dataCb : Byte → List Byte → υ → ℤ × List Byte × υ
  dataCb_length : ∀ n buf u, (dataCb n buf u).2.1.length = buf.length

structure TxLocals (υ : Type) where
  crcMode : Bool
  blockNum : Byte
  bytesSent : ℕ
  userData : υ
  deriving Repr, DecidableEq

/-- The reads of `xmodem_transmit`. -/
inductive TxSite (υ : Type) where
  | start (retries : Byte) (userData : υ)                               -- line 271
  | reply (v : TxLocals υ) (retries : Byte) (payload : List Byte)       -- line 331
  | eotReply (retries : Byte)                                           -- line 363
  deriving Repr, DecidableEq

abbrev TxOut (υ : Type) := Out Event (TxSite υ) Status

section Transmit

variable {υ : Type} (P : Platform) (crc : CrcService) (cbs : TxCallbacks υ) (cfg : Config)
  (totalLen : ℕ)

/-- `block_size` of line 294. -/
def txBlockSize : ℕ := if cfg.mode = .oneK then blockSize1024 else blockSize128

/-- The check bytes of a payload (lines 321-328). -/
def checkBytes (crcMode : Bool) (payload : List Byte) : List Byte :=
  if crcMode then [crcHi (modemCrc16 crc payload), crcLo (modemCrc16 crc payload)]
  else [modemChecksum8 payload]

/-- One packet (lines 315-328). -/
def packet (crcMode : Bool) (blockNum : Byte) (payload : List Byte) : List Byte :=
  (if payload.length = blockSize1024 then stx else soh) :: blockNum :: ~~~blockNum ::
    (payload ++ checkBytes crc crcMode payload)

/-- The loop of step 3 at its condition. -/
def sendEot (retries : Byte) : TxOut υ :=
  if retries < cfg.maxRetries then ⟨sendByte eot, .wait (.eotReply retries)⟩
  else ⟨[], .done .errorTimeout⟩

/-- The retransmission loop (line 314) at its condition. -/
def sendPacket (v : TxLocals υ) (retries : Byte) (payload : List Byte) : TxOut υ :=
  if retries < cfg.maxRetries then
    ⟨writeBytes (packet crc v.crcMode v.blockNum payload), .wait (.reply v retries payload)⟩
  else
    ⟨sendByte can, .done .errorTimeout⟩

/-- Line 295 to 297 change nothing: the block size is already 128 there. -/
def blockSizeAt (bytesSent : ℕ) : ℕ :=
  if totalLen > 0 ∧ P.subSize totalLen bytesSent < txBlockSize cfg ∧ cfg.mode ≠ .oneK then
    blockSize128
  else txBlockSize cfg

/-- The outer loop (line 293) at its condition. -/
def nextBlock (v : TxLocals υ) : TxOut υ :=
  if totalLen = 0 ∨ v.bytesSent < totalLen then
    let blockSize := blockSizeAt P cfg totalLen v.bytesSent
    let (res, payload, userData) :=
      cbs.dataCb v.blockNum (List.replicate blockSize 0x1A) v.userData
    let called := [.dataCb v.blockNum payload res]
    if res < 0 then
      ⟨called ++ sendByte can, .done .errorIo⟩
    else if res = 0 ∧ totalLen = 0 ∧ v.bytesSent > 0 then
      (sendEot cfg 0).after called
    else
      (sendPacket crc cfg { v with userData } 0 payload).after called
  else
    sendEot cfg 0

/-- Another round of the wait for the start byte, or its time-out. -/
def startAgain (retries : Byte) (userData : υ) : TxOut υ :=
  let retries := retries + 1
  if retries > cfg.maxRetries then ⟨[], .done .errorTimeout⟩
  else ⟨[], .wait (.start retries userData)⟩

/-- `xmodem_transmit`, from one read to the next. -/
def transmitStep : Resume Read Event (TxSite υ) Status := fun s r =>
  match s with
  | .start retries userData =>
    match r with
    | .ok b =>
      if b = charC then nextBlock P crc cbs cfg totalLen ⟨true, 1, 0, userData⟩
      else if b = nak then nextBlock P crc cbs cfg totalLen ⟨false, 1, 0, userData⟩
      else if b = can then ⟨[], .done .errorCancel⟩
      else startAgain cfg retries userData
    | _ => startAgain cfg retries userData
  | .reply v retries payload =>
    match r with
    | .cancel => ⟨sendByte can ++ sendByte can, .done .errorCancel⟩
    | .timeout => sendPacket crc cfg v (retries + 1) payload
    | .ok b =>
      if b = ack then
        nextBlock P crc cbs cfg totalLen { v with
          blockNum := v.blockNum + 1
          bytesSent := P.toSize (v.bytesSent + payload.length) }
      else if b = can then ⟨[], .done .errorCancel⟩
      else sendPacket crc cfg v (retries + 1) payload
  | .eotReply retries =>
    if r = .ok ack then ⟨[], .done .ok⟩ else sendEot cfg (retries + 1)

theorem sendPacket_cases (v : TxLocals υ) (retries : Byte) (payload : List Byte) :
    (retries < cfg.maxRetries ∧ sendPacket crc cfg v retries payload =
      ⟨writeBytes (packet crc v.crcMode v.blockNum payload), .wait (.reply v retries payload)⟩) ∨
    (¬ retries < cfg.maxRetries ∧
      sendPacket crc cfg v retries payload = ⟨sendByte can, .done .errorTimeout⟩) := by
  by_cases h : retries < cfg.maxRetries
  · exact .inl ⟨h, if_pos h⟩
  · exact .inr ⟨h, if_neg h⟩

theorem sendEot_cases (retries : Byte) :
    sendEot cfg retries = (⟨sendByte eot, .wait (.eotReply retries)⟩ : TxOut υ) ∨
    sendEot cfg retries = (⟨[], .done .errorTimeout⟩ : TxOut υ) := by
  by_cases h : retries < cfg.maxRetries
  · exact .inl (if_pos h)
  · exact .inr (if_neg h)

/-- At the start byte the transmission begins, is cancelled, or waits once more. -/
theorem transmitStep_start (retries : Byte) (u : υ) (r : Read) :
    (∃ b, r = .ok b ∧ (b = charC ∨ b = nak) ∧
      transmitStep P crc cbs cfg totalLen (.start retries u) r =
        nextBlock P crc cbs cfg totalLen ⟨b = charC, 1, 0, u⟩) ∨
    (r = .ok can ∧
      transmitStep P crc cbs cfg totalLen (.start retries u) r = ⟨[], .done .errorCancel⟩) ∨
    ((∀ b, r = .ok b → ¬ (b = charC ∨ b = nak ∨ b = can)) ∧
      transmitStep P crc cbs cfg totalLen (.start retries u) r = startAgain cfg retries u) := by
  cases r with
  | ok b =>
    by_cases hc : b = charC
    · subst hc
      exact .inl ⟨charC, rfl, .inl rfl, rfl⟩
    · by_cases hnak : b = nak
      · subst hnak
        exact .inl ⟨nak, rfl, .inr rfl, rfl⟩
      · by_cases hcan : b = can
        · subst hcan
          exact .inr (.inl ⟨rfl, rfl⟩)
        · refine .inr (.inr ⟨?_, ?_⟩)
          · rintro b' hb (rfl | rfl | rfl) <;> cases hb <;> contradiction
          · simp only [transmitStep, if_neg hc, if_neg hnak, if_neg hcan]
  | timeout => exact .inr (.inr ⟨by simp, rfl⟩)
  | cancel => exact .inr (.inr ⟨by simp, rfl⟩)

theorem transmitStep_reply (v : TxLocals υ) (retries : Byte) (payload : List Byte) (r : Read) :
    (r = .ok ack ∧ transmitStep P crc cbs cfg totalLen (.reply v retries payload) r =
      nextBlock P crc cbs cfg totalLen { v with
        blockNum := v.blockNum + 1
        bytesSent := P.toSize (v.bytesSent + payload.length) }) ∨
    (∃ es, (es = [] ∨ es = sendByte can ++ sendByte can) ∧
      transmitStep P crc cbs cfg totalLen (.reply v retries payload) r =
        ⟨es, .done .errorCancel⟩) ∨
    (r ≠ .ok ack ∧ transmitStep P crc cbs cfg totalLen (.reply v retries payload) r =
      sendPacket crc cfg v (retries + 1) payload) := by
  cases r with
  | ok b =>
    by_cases hack : b = ack
    · subst hack
      exact .inl ⟨rfl, rfl⟩
    · right
      by_cases hcan : b = can
      · subst hcan
        exact .inl ⟨[], .inl rfl, rfl⟩
      · refine .inr ⟨by simpa using hack, ?_⟩
        simp only [transmitStep, if_neg hack, if_neg hcan]
  | timeout => exact .inr (.inr ⟨by simp, rfl⟩)
  | cancel => exact .inr (.inl ⟨_, .inr rfl, rfl⟩)

/-- `xmodem_transmit` up to its first read. -/
def xmodemTransmit (userData : υ) : TxOut υ := ⟨[], .wait (.start 0 userData)⟩

end Transmit

end ZephyrModem.Xmodem
