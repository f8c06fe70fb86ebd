import Mathlib.Data.Int.Notation
import ZephyrModem.Memory.Ring
import ZephyrModem.Platform

/-!
# The NFC transport adapter

`src/nfc_transport.c`: two rings of 1024 bytes, the NDEF records that carry the bytes
over the field, and the statistics.
-/

namespace ZephyrModem.Transport

open Memory

def nfcRingBufSize : ℕ := 1024

/-- `NFC_MIME_TYPE`, "application/x-modem". -/
def nfcMimeType : List UInt8 :=
  [0x61, 0x70, 0x70, 0x6C, 0x69, 0x63, 0x61, 0x74, 0x69, 0x6F, 0x6E, 0x2F,
    0x78, 0x2D, 0x6D, 0x6F, 0x64, 0x65, 0x6D]

def nfcMimeTypeLen : ℕ := 19

def nfcTransportNdefMaxSize : ℕ := 512

def tempPayloadSize : ℕ := 255

/-- `nfc_transport_config_t`; `rawTxCb` tells whether there is a callback. -/
structure NfcConfig where
  rxRingSize : ℕ
  txRingSize : ℕ
  rxBufferSize : ℕ
  txBufferSize : ℕ
  fieldTimeoutMs : UInt32
  autoNdefFraming : Bool
  rawTxCb : Bool
  deriving Repr, DecidableEq

structure NfcStats where
  rxBytes : ℕ
  txBytes : ℕ
  ndefRecordsRx : UInt32
  ndefRecordsTx : UInt32
  fieldLossCount : UInt32
  overflowCount : UInt32
  t4tEventsHandled : UInt32
  deriving Repr, DecidableEq

def NfcStats.zero : NfcStats := ⟨0, 0, 0, 0, 0, 0, 0⟩

/-- The static variables of the file. -/
structure Nfc where
  rx : Ring UInt8 nfcRingBufSize
  tx : Ring UInt8 nfcRingBufSize
  fieldActive : Bool
  emulationRunning : Bool
  config : NfcConfig
  stats : NfcStats

namespace Nfc

/-- The variables before the first call. -/
def boot : Nfc where
  rx := Ring.zeroed 0 (by decide)
  tx := Ring.zeroed 0 (by decide)
  fieldActive := false
  emulationRunning := false
  config := ⟨0, 0, 0, 0, 0, false, false⟩
  stats := .zero

def defaultConfig : NfcConfig where
  rxRingSize := nfcRingBufSize
  txRingSize := nfcRingBufSize
  rxBufferSize := 0
  txBufferSize := 0
  fieldTimeoutMs := 1000
  autoNdefFraming := true
  rawTxCb := false

/-- `nfc_transport_init`; the configuration may be NULL. -/
def init (s : Nfc) (config : Option NfcConfig) : ℤ × Nfc :=
  (0, { rx := s.rx.reset
        tx := s.tx.reset
        fieldActive := false
        emulationRunning := false
        config := config.getD defaultConfig
        stats := .zero })

/-- `nfc_transport_start` in a build without the vendor's T4T library. -/
def start (s : Nfc) : ℤ × Nfc := (0, { s with fieldActive := true, emulationRunning := true })

def setFieldActive (s : Nfc) (active : Bool) : Nfc :=
  let lost := if s.fieldActive && !active then 1 else 0
  { s with
    fieldActive := active
    stats := { s.stats with fieldLossCount := s.stats.fieldLossCount + lost } }

/-! ### NDEF records -/

/-- The bytes that `nfc_transport_encode_ndef_record` stores. -/
def ndefRecord (payload : List UInt8) : List UInt8 :=
  0xD2 :: UInt8.ofNat nfcMimeTypeLen :: UInt8.ofNat payload.length :: (nfcMimeType ++ payload)

/-- `nfc_transport_encode_ndef_record`: the result and the record stored. `ndefBuf` and
`ndefLen` are false for a NULL pointer. -/
def encodeNdefRecord (s : Nfc) (payload : Option (List UInt8)) (ndefBuf : Bool) (bufCapacity : ℕ)
    (ndefLen : Bool) : ℤ × Option (List UInt8) × Nfc :=
  match payload with
  | none => (-1, none, s)
  | some payload =>
    if ndefBuf = false ∨ ndefLen = false ∨ payload.length > 255 then (-1, none, s)
    else if bufCapacity < 3 + nfcMimeTypeLen + payload.length then (-1, none, s)
    else (0, some (ndefRecord payload),
      { s with stats := { s.stats with ndefRecordsTx := s.stats.ndefRecordsTx + 1 } })

/-- The payload that `nfc_transport_rx_callback` finds in a record; `none` for other data. -/
def ndefPayload (data : List UInt8) : Option (List UInt8) :=
  if data.length > 3 + nfcMimeTypeLen ∧ data.getD 0 0 = 0xD2 then
    let typeLen := (data.getD 1 0).toNat
    let payLen := (data.getD 2 0).toNat
    if typeLen = nfcMimeTypeLen ∧ 3 + typeLen + payLen ≤ data.length then
      if (data.drop 3).take nfcMimeTypeLen = nfcMimeType then
        some ((data.drop (3 + nfcMimeTypeLen)).take payLen)
      else none
    else none
  else none

section Counters

variable (P : Platform)

/-! ### Receiving -/

/-- One round of the loop of `nfc_transport_rx_callback`. -/
def rxByte (s : Nfc) (b : UInt8) : Nfc :=
  if s.rx.count < nfcRingBufSize then
    { s with
      rx := s.rx.push b
      stats := { s.stats with rxBytes := P.toSize (s.stats.rxBytes + 1) } }
  else { s with stats := { s.stats with overflowCount := s.stats.overflowCount + 1 } }

/-- `nfc_transport_rx_callback`; the data may be NULL. -/
def rxCallback (s : Nfc) (data : Option (List UInt8)) : Nfc :=
  match data with
  | none => s
  | some data =>
    if data.length = 0 then s
    else match ndefPayload data with
      | none => data.foldl (rxByte P) s
      | some payload =>
        payload.foldl (rxByte P)
          { s with stats := { s.stats with ndefRecordsRx := s.stats.ndefRecordsRx + 1 } }

/-- `nfc_transport_t4t_event_handler`; the data may be NULL. -/
def t4tEventHandler (s : Nfc) (event : ℤ) (data : Option (List UInt8)) : Nfc :=
  let s := { s with stats := { s.stats with t4tEventsHandled := s.stats.t4tEventsHandled + 1 } }
  if event = 0 then s.setFieldActive true
  else if event = 1 then s.setFieldActive false
  else if event = 3 ∨ event = 4 then rxCallback P s data
  else s

/-- One round of the loop of `nfc_transport_read_byte`: what the clock says, and the data
that comes in while the loop sleeps. -/
structure Round where
  uptime : ℤ
  arriving : List (Option (List UInt8))
  deriving Repr, DecidableEq

/-- The loop of `nfc_transport_read_byte`: the result and the byte stored, or `none` while
it still waits. -/
def readLoop (start waitLimit : ℤ) : List Round → Nfc → Option (ℤ × Option UInt8) × Nfc
  | [], s => (none, s)
  | round :: rounds, s =>
    if round.uptime - start ≤ waitLimit then
      if s.fieldActive = false then (some (-2, none), s)
      else if h : 0 < s.rx.count then
        (some (0, some (s.rx.shift h).1), { s with rx := (s.rx.shift h).2 })
      else readLoop start waitLimit rounds (round.arriving.foldl (rxCallback P) s)
    else (some (-1, none), s)

def waitLimit (timeoutMs : UInt32) : UInt32 := if timeoutMs = 0 then 1 else timeoutMs

/-- `nfc_transport_read_byte`, called at `start`; `byte` is false for a NULL pointer. -/
def readByte (s : Nfc) (byte : Bool) (timeoutMs : UInt32) (start : ℤ) (rounds : List Round) :
    Option (ℤ × Option UInt8) × Nfc :=
  if byte = false then (some (-1, none), s)
  else readLoop P start (waitLimit timeoutMs).toNat rounds s

/-! ### Transmitting -/

/-- `nfc_transport_flush_tx_ndef`: the result and the record stored. `outBuf` and `outLen`
are false for a NULL pointer. -/
def flushTxNdef (s : Nfc) (outBuf : Bool) (outCapacity : ℕ) (outLen : Bool) :
    ℤ × Option (List UInt8) × Nfc :=
  if outBuf = false ∨ outLen = false ∨ s.tx.count = 0 then (-1, none, s)
  else
    let extractLen := if s.tx.count < tempPayloadSize then s.tx.count else tempPayloadSize
    let extracted := Ring.shiftUpTo extractLen s.tx
    encodeNdefRecord { s with tx := extracted.2 } (some extracted.1) outBuf outCapacity outLen

/-- One round of the loop of `nfc_transport_write_bytes`. -/
def txByte (s : Nfc) (b : UInt8) : Nfc :=
  if s.tx.count < nfcRingBufSize then
    { s with
      tx := s.tx.push b
      stats := { s.stats with txBytes := P.toSize (s.stats.txBytes + 1) } }
  else s

/-- `nfc_transport_write_bytes`: the result and what `raw_tx_cb` is called with. The buffer
may be NULL. -/
def writeBytes (s : Nfc) (buf : Option (List UInt8)) : ℤ × Option (List UInt8) × Nfc :=
  match buf with
  | none => (-1, none, s)
  | some buf =>
    if buf.length = 0 then (-1, none, s)
    else if s.fieldActive = false then (-2, none, s)
    else
      let s := buf.foldl (txByte P) s
      if s.config.autoNdefFraming && s.config.rawTxCb then
        let flushed := flushTxNdef s true nfcTransportNdefMaxSize true
        if flushed.1 = 0 then (0, flushed.2.1, flushed.2.2) else (0, none, flushed.2.2)
      else (0, none, s)

end Counters

/-! ### Records -/

theorem length_nfcMimeType : nfcMimeType.length = nfcMimeTypeLen := rfl

theorem length_ndefRecord (payload : List UInt8) :
    (ndefRecord payload).length = 3 + nfcMimeTypeLen + payload.length := by
  simp only [ndefRecord, List.length_cons, List.length_append, length_nfcMimeType]
  omega

theorem drop_ndefRecord (payload : List UInt8) :
    (ndefRecord payload).drop (3 + nfcMimeTypeLen) = payload := rfl

theorem length_field {payload : List UInt8} (hle : payload.length ≤ 255) :
    ((ndefRecord payload).getD 2 0).toNat = payload.length := by
  show (UInt8.ofNat payload.length).toNat = payload.length
  rw [UInt8.toNat_ofNat', Nat.mod_eq_of_lt (by omega)]

theorem ndefPayload_ndefRecord {payload : List UInt8} (hpos : 1 ≤ payload.length)
    (hle : payload.length ≤ 255) : ndefPayload (ndefRecord payload) = some payload := by
  have hlen := length_ndefRecord payload
  have htype : ((ndefRecord payload).getD 1 0).toNat = nfcMimeTypeLen := rfl
  have hmime : ((ndefRecord payload).drop 3).take nfcMimeTypeLen = nfcMimeType := rfl
  have hlong : (ndefRecord payload).length > 3 + nfcMimeTypeLen := by omega
  have hfits : 3 + nfcMimeTypeLen + payload.length ≤ (ndefRecord payload).length := by omega
  simp only [ndefPayload]
  rw [if_pos ⟨hlong, rfl⟩, length_field hle, htype, if_pos ⟨rfl, hfits⟩, if_pos hmime, drop_ndefRecord,
    List.take_length]

/-- A record is made of 1 to 255 bytes exactly if it fits the buffer. -/
theorem encodeNdefRecord_eq (s : Nfc) {payload : List UInt8} (hle : payload.length ≤ 255)
    (capacity : ℕ) : s.encodeNdefRecord (some payload) true capacity true =
      if 3 + nfcMimeTypeLen + payload.length ≤ capacity then
        (0, some (ndefRecord payload),
          { s with stats := { s.stats with ndefRecordsTx := s.stats.ndefRecordsTx + 1 } })
      else (-1, none, s) := by
  have hpointers : ¬ (true = false ∨ true = false ∨ payload.length > 255) := by
    rintro (h | h | h)
    · cases h
    · cases h
    · omega
  unfold encodeNdefRecord
  simp only [if_neg hpointers]
  by_cases hfits : 3 + nfcMimeTypeLen + payload.length ≤ capacity
  · rw [if_pos hfits, if_neg (Nat.not_lt.mpr hfits)]
  · rw [if_neg hfits, if_pos (Nat.lt_of_not_le hfits)]

/-! ### Bytes into the rings -/

section Counters

variable (P : Platform)

theorem rx_rxByte (s : Nfc) (b : UInt8) : (rxByte P s b).rx = s.rx.push b := by
  by_cases h : s.rx.count < nfcRingBufSize
  · rw [rxByte, if_pos h]
  · rw [rxByte, if_neg h, Ring.push, dif_neg h]

theorem rx_foldl_rxByte (bs : List UInt8) (s : Nfc) :
    (bs.foldl (rxByte P) s).rx = s.rx.pushAll bs := by
  induction bs generalizing s with
  | nil => rfl
  | cons b bs ih =>
    rw [List.foldl_cons, ih, rx_rxByte]
    rfl

theorem tx_txByte (s : Nfc) (b : UInt8) : (txByte P s b).tx = s.tx.push b := by
  by_cases h : s.tx.count < nfcRingBufSize
  · rw [txByte, if_pos h]
  · rw [txByte, if_neg h, Ring.push, dif_neg h]

end Counters

/-- The adapter after `nfc_transport_init`, the field being there. -/
inductive Ready (config : Option NfcConfig) : Nfc → Prop where
  | fieldOn (s : Nfc) : Ready config ((s.init config).2.setFieldActive true)
  | started (s : Nfc) : Ready config (s.init config).2.start.2

namespace Ready

variable {config : Option NfcConfig} {s : Nfc}

theorem fieldActive (h : Ready config s) : s.fieldActive = true := by cases h <;> rfl

theorem contents_rx (h : Ready config s) : s.rx.contents = [] := by cases h <;> rfl

theorem contents_tx (h : Ready config s) : s.tx.contents = [] := by cases h <;> rfl

theorem config_eq (h : Ready config s) : s.config = config.getD defaultConfig := by
  cases h <;> rfl

end Ready

end Nfc

end ZephyrModem.Transport
