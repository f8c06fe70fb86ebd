import ZephyrModem.Memory.Pacing
import ZephyrModem.Transport.Nfc

/-!
# Transmitting over NFC

A write queues its bytes as far as the ring has room and then publishes one record of
at most 255 of them. A flush takes the bytes out of the ring before it knows whether the
record fits.
-/

namespace ZephyrModem.Transport.Nfc

open Memory

/-! ### One flush -/

def flushedLen (s : Nfc) : ℕ := min s.tx.count tempPayloadSize

/-- The ring after a flush that got as far as the encoder. -/
def flushedTx (s : Nfc) : Ring UInt8 nfcRingBufSize := (Ring.shiftUpTo s.flushedLen s.tx).2

theorem contents_flushedTx (s : Nfc) :
    s.flushedTx.contents = s.tx.contents.drop tempPayloadSize := by
  rw [flushedTx, (Ring.shiftUpTo_spec _ _).2, flushedLen, ← Ring.length_contents]
  by_cases h : s.tx.contents.length ≤ tempPayloadSize
  · rw [Nat.min_eq_left h, List.drop_length, List.drop_of_length_le h]
  · rw [Nat.min_eq_right (Nat.le_of_not_le h)]

theorem extracted_eq (s : Nfc) :
    (Ring.shiftUpTo s.flushedLen s.tx).1 = s.tx.contents.take tempPayloadSize := by
  rw [(Ring.shiftUpTo_spec _ _).1, flushedLen, ← Ring.length_contents]
  by_cases h : s.tx.contents.length ≤ tempPayloadSize
  · rw [Nat.min_eq_left h, List.take_length, List.take_of_length_le h]
  · rw [Nat.min_eq_right (Nat.le_of_not_le h)]

theorem length_extracted (s : Nfc) : (s.tx.contents.take tempPayloadSize).length = s.flushedLen := by
  rw [List.length_take, Ring.length_contents, Nat.min_comm, flushedLen]

/-- The adapter after a flush that stored its record. -/
def flushed (s : Nfc) : Nfc :=
  { s with
    tx := s.flushedTx
    stats := { s.stats with ndefRecordsTx := s.stats.ndefRecordsTx + 1 } }

theorem flushTxNdef_eq (s : Nfc) (outCapacity : ℕ) (hcount : s.tx.count ≠ 0) :
    s.flushTxNdef true outCapacity true =
      if outCapacity < 3 + nfcMimeTypeLen + s.flushedLen then
        (-1, none, { s with tx := s.flushedTx })
      else (0, some (ndefRecord (s.tx.contents.take tempPayloadSize)), s.flushed) := by
  have hlen : (if s.tx.count < tempPayloadSize then s.tx.count else tempPayloadSize) =
      s.flushedLen := by
    unfold flushedLen
    split <;> omega
  have hshort : ¬ (s.tx.contents.take tempPayloadSize).length > 255 :=
    Nat.not_lt.mpr (List.length_take_le _ _)
  unfold flushTxNdef encodeNdefRecord
  rw [if_neg (by simpa using hcount)]
  simp only [hlen, extracted_eq]
  rw [if_neg (by simpa using hshort), length_extracted]
  rfl

theorem flushedTx_ne (s : Nfc) (hcount : s.tx.count ≠ 0) : s.flushedTx ≠ s.tx := by
  intro h
  have hlen := congrArg List.length (contents_flushedTx s)
  rw [h, List.length_drop, Ring.length_contents, tempPayloadSize] at hlen
  omega

theorem flushTxNdef_early (s : Nfc) {outBuf outLen : Bool} (outCapacity : ℕ)
    (h : outBuf = false ∨ outLen = false ∨ s.tx.count = 0) :
    s.flushTxNdef outBuf outCapacity outLen = (-1, none, s) := by
  rw [flushTxNdef, if_pos h]

/-- A flush that fails leaves the adapter as it was exactly when it fails before it takes
bytes out of the ring. -/
theorem flush_failure_keeps_iff (s : Nfc) (outBuf : Bool) (outCapacity : ℕ) (outLen : Bool) :
    ((s.flushTxNdef outBuf outCapacity outLen).1 ≠ 0 →
        (s.flushTxNdef outBuf outCapacity outLen).2.2 = s) ↔
      outBuf = false ∨ outLen = false ∨ s.tx.count = 0 ∨
        3 + nfcMimeTypeLen + min s.tx.count tempPayloadSize ≤ outCapacity := by
  by_cases hearly : outBuf = false ∨ outLen = false ∨ s.tx.count = 0
  · rw [flushTxNdef_early s outCapacity hearly]
    constructor
    · intro _
      tauto
    · intro _ _
      rfl
  · have hcount : s.tx.count ≠ 0 := fun h => hearly (.inr (.inr h))
    have hbuf : outBuf = true := by
      cases outBuf with
      | false => exact absurd (.inl rfl) hearly
      | true => rfl
    have hlen : outLen = true := by
      cases outLen with
      | false => exact absurd (.inr (.inl rfl)) hearly
      | true => rfl
    rw [hbuf, hlen, flushTxNdef_eq s outCapacity hcount, flushedLen]
    by_cases hfits : outCapacity < 3 + nfcMimeTypeLen + min s.tx.count tempPayloadSize
    · rw [if_pos hfits]
      constructor
      · intro hkeeps
        have heq := hkeeps (show (-1 : ℤ) ≠ 0 by decide)
        exact absurd (congrArg Nfc.tx heq) (s.flushedTx_ne hcount)
      · intro h
        have := Nat.not_le.mpr hfits
        tauto
    · rw [if_neg hfits]
      constructor
      · intro _
        exact .inr (.inr (.inr (Nat.le_of_not_lt hfits)))
      · intro _ hne
        exact absurd rfl hne

theorem not_flush_failure_keeps_no_room :
    ¬ (((writeBytes platform32 (boot.init none).2.start.2 (some [0x41])).2.2.flushTxNdef
            true 0 true).1 ≠ 0 →
        ((writeBytes platform32 (boot.init none).2.start.2 (some [0x41])).2.2.flushTxNdef
            true 0 true).2.2 =
          (writeBytes platform32 (boot.init none).2.start.2 (some [0x41])).2.2) := by
  intro h
  have hcount := congrArg (fun s : Nfc => s.tx.count) (h (by decide))
  revert hcount
  decide

/-! ### Sequences of writes -/

section Writes

variable (P : Platform)

def writeCodes (s : Nfc) (ws : List (Option (List UInt8))) : List ℤ :=
  Fifo.gather (fun s w => (writeBytes P s w).2.2) (fun s w => [(writeBytes P s w).1]) s ws

/-- The records that `raw_tx_cb` is called with. -/
def publishedRecords (s : Nfc) (ws : List (Option (List UInt8))) : List (List UInt8) :=
  Fifo.gather (fun s w => (writeBytes P s w).2.2) (fun s w => (writeBytes P s w).2.1.toList) s ws

/-- The payload of a record, by its length field. -/
def recordPayload (record : List UInt8) : List UInt8 :=
  (record.drop (3 + nfcMimeTypeLen)).take (record.getD 2 0).toNat

theorem recordPayload_ndefRecord {payload : List UInt8} (hle : payload.length ≤ 255) :
    recordPayload (ndefRecord payload) = payload := by
  have hpay : ((ndefRecord payload).getD 2 0).toNat = payload.length := length_field hle
  rw [recordPayload, hpay, drop_ndefRecord, List.take_length]

structure Publishing (s : Nfc) : Prop where
  fieldActive : s.fieldActive = true
  framing : s.config.autoNdefFraming = true
  callback : s.config.rawTxCb = true

theorem Publishing.txByte {s : Nfc} (h : Publishing s) (b : UInt8) :
    Publishing (Nfc.txByte P s b) := by
  unfold Nfc.txByte
  split
  · exact ⟨h.fieldActive, h.framing, h.callback⟩
  · exact h

theorem Publishing.foldl_txByte {s : Nfc} (h : Publishing s) (bs : List UInt8) :
    Publishing (bs.foldl (Nfc.txByte P) s) ∧
      (bs.foldl (Nfc.txByte P) s).tx = s.tx.pushAll bs := by
  induction bs generalizing s with
  | nil => exact ⟨h, rfl⟩
  | cons b bs ih =>
    obtain ⟨hpublishing, htx⟩ := ih (h.txByte P b)
    refine ⟨hpublishing, ?_⟩
    rw [List.foldl_cons, htx, tx_txByte]
    rfl

/-- A write that is accepted publishes one record with the oldest bytes of the queue. -/
theorem Publishing.writeBytes {s : Nfc} (h : Publishing s) {buf : List UInt8} (hbuf : buf ≠ []) :
    ∃ s', Nfc.writeBytes P s (some buf) =
        (0, some (ndefRecord ((Fifo.offer nfcRingBufSize s.tx.contents buf).take tempPayloadSize)),
          s') ∧
      Publishing s' ∧
      s'.tx.contents = (Fifo.offer nfcRingBufSize s.tx.contents buf).drop tempPayloadSize := by
  obtain ⟨⟨hfield, hframing, hcallback⟩, htx⟩ := h.foldl_txByte P buf
  have hcontents : (buf.foldl (Nfc.txByte P) s).tx.contents =
      Fifo.offer nfcRingBufSize s.tx.contents buf := by
    rw [htx, Ring.contents_pushAll]
  have hcount : (buf.foldl (Nfc.txByte P) s).tx.count ≠ 0 := by
    intro hzero
    rw [← Ring.contents_eq_nil_iff, hcontents] at hzero
    exact Fifo.offer_ne_nil (by decide) s.tx.contents hbuf hzero
  have hfits : ¬ nfcTransportNdefMaxSize <
      3 + nfcMimeTypeLen + (buf.foldl (Nfc.txByte P) s).flushedLen := by
    rw [nfcTransportNdefMaxSize, nfcMimeTypeLen, flushedLen, tempPayloadSize]
    omega
  have hlen : ¬ buf.length = 0 := fun hzero => hbuf (List.length_eq_zero_iff.mp hzero)
  have hflush := flushTxNdef_eq (buf.foldl (Nfc.txByte P) s) nfcTransportNdefMaxSize hcount
  rw [hcontents, if_neg hfits] at hflush
  have hactive : ¬ s.fieldActive = false := by
    rw [h.fieldActive]
    decide
  refine ⟨(buf.foldl (Nfc.txByte P) s).flushed, ?_, ⟨hfield, hframing, hcallback⟩, ?_⟩
  · unfold Nfc.writeBytes
    simp only
    rw [if_neg hlen, if_neg hactive, hframing, hcallback, Bool.and_self, if_pos rfl, hflush,
      if_pos rfl]
  · show (buf.foldl (Nfc.txByte P) s).flushedTx.contents = _
    rw [contents_flushedTx, hcontents]

/-- Writes that bring something are all accepted. -/
theorem Publishing.writeCodes {s : Nfc} (h : Publishing s) {ws : List (Option (List UInt8))}
    (hws : ∀ w ∈ ws, ∃ buf ≠ [], w = some buf) : ∀ code ∈ writeCodes P s ws, code = 0 := by
  induction ws generalizing s with
  | nil => exact fun code hcode => absurd hcode List.not_mem_nil
  | cons w ws ih =>
    obtain ⟨buf, hbuf, rfl⟩ := hws w (List.mem_cons_self ..)
    obtain ⟨s', heq, hpublishing, -⟩ := h.writeBytes P hbuf
    intro code hcode
    have hcode : code ∈ (Nfc.writeBytes P s (some buf)).1 ::
        Nfc.writeCodes P (Nfc.writeBytes P s (some buf)).2.2 ws := hcode
    rw [heq, List.mem_cons] at hcode
    rcases hcode with rfl | hcode
    · rfl
    · exact ih hpublishing (fun w hw => hws w (List.mem_cons_of_mem _ hw)) code hcode

/-- The payloads published, in order: what drains from a bounded queue. -/
theorem flatMap_publishedRecords {s : Nfc} (h : Publishing s) (ws : List (Option (List UInt8)))
    (hret : ∀ code ∈ writeCodes P s ws, code = 0) :
    (publishedRecords P s ws).flatMap recordPayload =
      Fifo.drained nfcRingBufSize tempPayloadSize s.tx.contents (ws.map (·.getD [])) := by
  induction ws generalizing s with
  | nil => rfl
  | cons w ws ih =>
    have hcode : (Nfc.writeBytes P s w).1 = 0 := hret _ (List.mem_cons_self ..)
    cases w with
    | none => cases hcode
    | some buf =>
      have hbuf : buf ≠ [] := by
        intro hnil
        rw [hnil] at hcode
        cases hcode
      obtain ⟨s', heq, hpublishing, htx⟩ := h.writeBytes P hbuf
      have hrest := ih hpublishing (fun code hmem => hret code (by
        show code ∈ (Nfc.writeBytes P s (some buf)).1 ::
          writeCodes P (Nfc.writeBytes P s (some buf)).2.2 ws
        rw [heq]
        exact List.mem_cons_of_mem _ hmem))
      show (List.flatMap recordPayload ((Nfc.writeBytes P s (some buf)).2.1.toList ++
        publishedRecords P (Nfc.writeBytes P s (some buf)).2.2 ws)) = _
      rw [heq, List.flatMap_append, hrest, htx]
      simp only [Option.toList_some, List.flatMap_singleton, List.map_cons, Option.getD_some,
        Fifo.drained]
      rw [recordPayload_ndefRecord (List.length_take_le tempPayloadSize _)]

theorem Ready.publishing {config : NfcConfig} {s : Nfc} (h : Ready (some config) s)
    (hframing : config.autoNdefFraming = true) (hcallback : config.rawTxCb = true) :
    Publishing s := by
  have hconfig : s.config = config := h.config_eq
  refine ⟨h.fieldActive, ?_, ?_⟩
  · rw [hconfig]
    exact hframing
  · rw [hconfig]
    exact hcallback

/-- Transmitting loses nothing exactly when the writes are paced. -/
theorem transmit_lossless_iff {config : NfcConfig} {s : Nfc} (h : Ready (some config) s)
    (hframing : config.autoNdefFraming = true) (hcallback : config.rawTxCb = true)
    (ws : List (Option (List UInt8))) (hret : ∀ code ∈ writeCodes P s ws, code = 0) :
    (publishedRecords P s ws).flatMap recordPayload = ws.flatMap (·.getD []) ↔
      Fifo.Paced nfcRingBufSize tempPayloadSize (ws.map (fun w => (w.getD []).length)) := by
  rw [flatMap_publishedRecords P (h.publishing hframing hcallback) ws hret, h.contents_tx,
    List.flatMap_def, Fifo.drained_eq_flatten_iff, List.map_map]
  rfl

def publishingConfig : NfcConfig := { defaultConfig with rawTxCb := true }

/-- A write of 300 bytes leaves 45 behind; the next one is short enough to make up for it. -/
theorem transmit_lossless_made_up :
    (publishedRecords platform32 (boot.init (some publishingConfig)).2.start.2
      [some (List.replicate 300 0x41), some [0x42], some [0x43, 0x44]]).flatMap recordPayload =
        List.replicate 300 0x41 ++ [0x42, 0x43, 0x44] := by
  have hpublishing : Publishing (boot.init (some publishingConfig)).2.start.2 :=
    (Ready.started boot).publishing rfl rfl
  have hret : ∀ code ∈ writeCodes platform32 (boot.init (some publishingConfig)).2.start.2
      [some (List.replicate 300 0x41), some [0x42], some [0x43, 0x44]], code = 0 := by
    refine hpublishing.writeCodes platform32 fun w hw => ?_
    simp only [List.mem_cons, List.not_mem_nil, or_false] at hw
    rcases hw with rfl | rfl | rfl
    · exact ⟨_, List.cons_ne_nil _ _, rfl⟩
    · exact ⟨_, List.cons_ne_nil _ _, rfl⟩
    · exact ⟨_, List.cons_ne_nil _ _, rfl⟩
  apply (transmit_lossless_iff platform32 (.started boot) rfl rfl _ hret).mpr
  rw [List.map_cons, Option.getD_some, List.length_replicate]
  decide

/-- One write of 256 bytes succeeds and leaves a byte behind. -/
theorem not_transmit_lossless_256 :
    ¬ ∀ ws : List (Option (List UInt8)),
      (∀ code ∈ writeCodes platform32 (boot.init (some publishingConfig)).2.start.2 ws, code = 0) →
      (publishedRecords platform32 (boot.init (some publishingConfig)).2.start.2 ws).flatMap
          recordPayload = ws.flatMap (·.getD []) := by
  intro h
  have hpublishing : Publishing (boot.init (some publishingConfig)).2.start.2 :=
    (Ready.started boot).publishing rfl rfl
  have hret : ∀ code ∈ writeCodes platform32 (boot.init (some publishingConfig)).2.start.2
      [some (List.replicate 256 0x41)], code = 0 :=
    hpublishing.writeCodes platform32 fun w hw =>
      ⟨_, List.cons_ne_nil _ _, List.mem_singleton.mp hw⟩
  have hlen := congrArg List.length (h _ hret)
  rw [flatMap_publishedRecords platform32 hpublishing _ hret, Ready.contents_tx (.started boot)]
    at hlen
  simp only [Fifo.drained, Fifo.offer, List.map_cons, List.map_nil, Option.getD_some,
    List.nil_append, List.append_nil, List.length_take, List.length_replicate, List.flatMap_cons,
    List.flatMap_nil, List.length_nil] at hlen
  revert hlen
  decide

end Writes

end ZephyrModem.Transport.Nfc
