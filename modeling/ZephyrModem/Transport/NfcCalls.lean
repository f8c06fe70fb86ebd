import ZephyrModem.Memory.Relay
import ZephyrModem.Transport.NfcTransmit
import ZephyrModem.Transport.Receive

/-!
# What each call of the NFC adapter does

The sending calls leave the receiving half of the adapter alone and the other way round,
and each call is described by what it does to the ring of its half.
-/

namespace ZephyrModem.Transport

open Memory

namespace Nfc

/-- `nfc_transport_stop` in a build without the vendor's T4T library. -/
def stop (s : Nfc) : ℤ × Nfc := (0, { s with fieldActive := false, emulationRunning := false })

/-! ### The half that a call leaves alone -/

structure SameTx (s s' : Nfc) : Prop where
  tx : s'.tx = s.tx
  txBytes : s'.stats.txBytes = s.stats.txBytes

structure SameRx (s s' : Nfc) : Prop where
  rx : s'.rx = s.rx
  rxBytes : s'.stats.rxBytes = s.stats.rxBytes
  overflowCount : s'.stats.overflowCount = s.stats.overflowCount

theorem SameTx.refl (s : Nfc) : SameTx s s := ⟨rfl, rfl⟩

theorem SameTx.trans {s s' s'' : Nfc} (h : SameTx s s') (h' : SameTx s' s'') : SameTx s s'' :=
  ⟨h'.tx.trans h.tx, h'.txBytes.trans h.txBytes⟩

theorem SameRx.refl (s : Nfc) : SameRx s s := ⟨rfl, rfl, rfl⟩

theorem SameRx.trans {s s' s'' : Nfc} (h : SameRx s s') (h' : SameRx s' s'') : SameRx s s'' :=
  ⟨h'.rx.trans h.rx, h'.rxBytes.trans h.rxBytes, h'.overflowCount.trans h.overflowCount⟩

/-- What changes the field and nothing in the rings. -/
inductive FieldChange (P : Platform) : Nfc → Nfc → Prop where
  | setFieldActive (s : Nfc) (active : Bool) : FieldChange P s (s.setFieldActive active)
  | start (s : Nfc) : FieldChange P s s.start.2
  | stop (s : Nfc) : FieldChange P s s.stop.2
  | t4tEvent (s : Nfc) (event : ℤ) : FieldChange P s (t4tEventHandler P s event none)

/-- A record comes in, through the receive callback or one of the two data events. -/
inductive Receives (P : Platform) (record : List UInt8) : Nfc → Nfc → Prop where
  | callback (s : Nfc) : Receives P record s (rxCallback P s (some record))
  | t4tEvent (s : Nfc) {event : ℤ} (h : event = 3 ∨ event = 4) :
    Receives P record s (t4tEventHandler P s event (some record))

section Counters

variable {P : Platform}

theorem sameTx_rxByte (s : Nfc) (b : UInt8) : SameTx s (rxByte P s b) := by
  unfold rxByte
  split <;> exact ⟨rfl, rfl⟩

theorem sameTx_foldl_rxByte (bs : List UInt8) (s : Nfc) : SameTx s (bs.foldl (rxByte P) s) := by
  induction bs generalizing s with
  | nil => exact .refl s
  | cons b bs ih => exact (sameTx_rxByte s b).trans (ih _)

theorem sameTx_rxCallback (s : Nfc) (data : Option (List UInt8)) :
    SameTx s (rxCallback P s data) := by
  unfold rxCallback
  split
  · exact .refl s
  · split
    · exact .refl s
    · split
      · exact sameTx_foldl_rxByte _ s
      · rename_i payload _
        obtain ⟨htx, htxBytes⟩ := sameTx_foldl_rxByte (P := P) payload
          { s with stats := { s.stats with ndefRecordsRx := s.stats.ndefRecordsRx + 1 } }
        exact ⟨htx, htxBytes⟩

theorem sameTx_rxCallbacks (datas : List (Option (List UInt8))) (s : Nfc) :
    SameTx s (datas.foldl (rxCallback P) s) := by
  induction datas generalizing s with
  | nil => exact .refl s
  | cons data datas ih => exact (sameTx_rxCallback s data).trans (ih _)

theorem sameTx_readLoop (start waitLimit : ℤ) (rounds : List Round) (s : Nfc) :
    SameTx s (readLoop P start waitLimit rounds s).2 := by
  induction rounds generalizing s with
  | nil => exact .refl s
  | cons round rounds ih =>
    unfold readLoop
    split
    · split
      · exact .refl s
      · split
        · exact ⟨rfl, rfl⟩
        · exact (sameTx_rxCallbacks _ s).trans (ih _)
    · exact .refl s

theorem FieldChange.same {s s' : Nfc} (h : FieldChange P s s') : SameTx s s' ∧ SameRx s s' := by
  cases h with
  | setFieldActive active => exact ⟨⟨rfl, rfl⟩, ⟨rfl, rfl, rfl⟩⟩
  | start => exact ⟨⟨rfl, rfl⟩, ⟨rfl, rfl, rfl⟩⟩
  | stop => exact ⟨⟨rfl, rfl⟩, ⟨rfl, rfl, rfl⟩⟩
  | t4tEvent event =>
    unfold t4tEventHandler
    simp only
    split
    · exact ⟨⟨rfl, rfl⟩, ⟨rfl, rfl, rfl⟩⟩
    · split
      · exact ⟨⟨rfl, rfl⟩, ⟨rfl, rfl, rfl⟩⟩
      · split <;> exact ⟨⟨rfl, rfl⟩, ⟨rfl, rfl, rfl⟩⟩

theorem Receives.sameTx {record : List UInt8} {s s' : Nfc} (h : Receives P record s s') :
    SameTx s s' := by
  cases h with
  | callback => exact sameTx_rxCallback s _
  | @t4tEvent event h =>
    unfold t4tEventHandler
    rw [if_neg (by omega), if_neg (by omega), if_pos h]
    obtain ⟨htx, htxBytes⟩ := sameTx_rxCallback (P := P)
      { s with stats := { s.stats with t4tEventsHandled := s.stats.t4tEventsHandled + 1 } }
      (some record)
    exact ⟨htx, htxBytes⟩

theorem Receives.does {record : List UInt8} {s s' : Nfc} (h : Receives P record s s') :
    Does (P := P) [.offer (rxPayload (some record))] s s' := by
  cases h with
  | callback => exact .of_takes (takes_rxCallback s _)
  | t4tEvent h => exact .of_takes (takes_t4tEventHandler s h _)

theorem sameRx_txByte (s : Nfc) (b : UInt8) : SameRx s (txByte P s b) := by
  unfold txByte
  split <;> exact ⟨rfl, rfl, rfl⟩

theorem sameRx_foldl_txByte (bs : List UInt8) (s : Nfc) : SameRx s (bs.foldl (txByte P) s) := by
  induction bs generalizing s with
  | nil => exact .refl s
  | cons b bs ih => exact (sameRx_txByte s b).trans (ih _)

/-! ### A flush -/

/-- What a flush does: nothing, or the oldest bytes leave the ring, published or not. -/
inductive Flushes (s : Nfc) (outCapacity : ℕ) : ℤ → Option (List UInt8) → Nfc → Prop where
  | early : Flushes s outCapacity (-1) none s
  | spilled {s' : Nfc} (hsmall : outCapacity < 3 + nfcMimeTypeLen + tempPayloadSize)
    (hrx : SameRx s s') (htxBytes : s'.stats.txBytes = s.stats.txBytes)
    (htx : s'.tx.contents = s.tx.contents.drop tempPayloadSize) : Flushes s outCapacity (-1) none s'
  | published {s' : Nfc} (hne : s.tx.contents ≠ []) (hrx : SameRx s s')
    (htxBytes : s'.stats.txBytes = s.stats.txBytes)
    (htx : s'.tx.contents = s.tx.contents.drop tempPayloadSize) :
    Flushes s outCapacity 0 (some (ndefRecord (s.tx.contents.take tempPayloadSize))) s'

theorem flushes_flushTxNdef (s : Nfc) (outBuf : Bool) (outCapacity : ℕ) (outLen : Bool) :
    Flushes s outCapacity (s.flushTxNdef outBuf outCapacity outLen).1
      (s.flushTxNdef outBuf outCapacity outLen).2.1
      (s.flushTxNdef outBuf outCapacity outLen).2.2 := by
  by_cases hearly : outBuf = false ∨ outLen = false ∨ s.tx.count = 0
  · rw [flushTxNdef_early s outCapacity hearly]
    exact .early
  · rw [not_or, not_or, Bool.not_eq_false, Bool.not_eq_false] at hearly
    obtain ⟨rfl, rfl, hcount⟩ := hearly
    have hne : s.tx.contents ≠ [] := fun hnil => hcount (Ring.contents_eq_nil_iff _ |>.mp hnil)
    rw [flushTxNdef_eq s outCapacity hcount]
    by_cases hfits : outCapacity < 3 + nfcMimeTypeLen + s.flushedLen
    · have hshort : s.flushedLen ≤ tempPayloadSize := Nat.min_le_right _ _
      rw [if_pos hfits]
      exact .spilled (by omega) ⟨rfl, rfl, rfl⟩ rfl s.contents_flushedTx
    · rw [if_neg hfits]
      exact .published hne ⟨rfl, rfl, rfl⟩ rfl s.contents_flushedTx

/-! ### A write -/

/-- The statistics have counted `n` bytes out. -/
def Sent (P : Platform) (n : ℕ) (s : Nfc) : Prop := s.stats.txBytes = P.toSize n

theorem sent_ready {config : Option NfcConfig} {s : Nfc} (h : Ready config s) : Sent P 0 s := by
  have hzero : P.toSize 0 = 0 := P.toSize_of_lt P.sizeMod_pos
  cases h with
  | fieldOn s => exact hzero.symm
  | started s => exact hzero.symm

theorem tx_foldl_txByte (bs : List UInt8) (s : Nfc) :
    (bs.foldl (txByte P) s).tx = s.tx.pushAll bs := by
  induction bs generalizing s with
  | nil => rfl
  | cons b bs ih =>
    rw [List.foldl_cons, ih, tx_txByte]
    rfl

theorem Sent.txByte {n : ℕ} {s : Nfc} (h : Sent P n s) (b : UInt8) :
    if s.tx.count < nfcRingBufSize then Sent P (n + 1) (txByte P s b) else txByte P s b = s := by
  unfold Nfc.txByte
  by_cases hroom : s.tx.count < nfcRingBufSize
  · rw [if_pos hroom, if_pos hroom]
    show P.toSize (s.stats.txBytes + 1) = P.toSize (n + 1)
    rw [h]
    exact Nat.mod_add_mod n P.sizeMod 1
  · rw [if_neg hroom, if_neg hroom]

theorem Sent.foldl_txByte {n : ℕ} {s : Nfc} (h : Sent P n s) (bs : List UInt8) :
    Sent P (n + (bs.take (nfcRingBufSize - s.tx.count)).length) (bs.foldl (Nfc.txByte P) s) := by
  induction bs generalizing n s with
  | nil =>
    rw [List.take_nil]
    exact h
  | cons b bs ih =>
    have hb := h.txByte b
    by_cases hroom : s.tx.count < nfcRingBufSize
    · have hcount : (Nfc.txByte P s b).tx.count = s.tx.count + 1 := by
        rw [← Ring.length_contents, tx_txByte, Ring.contents_push, if_pos hroom, List.length_append,
          Ring.length_contents]
        rfl
      rw [if_pos hroom] at hb
      have hrest := ih hb
      have hsucc : nfcRingBufSize - s.tx.count = nfcRingBufSize - (s.tx.count + 1) + 1 := by omega
      rw [hcount] at hrest
      rw [hsucc, List.take_succ_cons, List.length_cons, Nat.add_comm _ 1, ← Nat.add_assoc]
      exact hrest
    · rw [if_neg hroom] at hb
      have hrest := ih h
      have hzero : nfcRingBufSize - s.tx.count = 0 := by omega
      rw [hzero, List.take_zero] at hrest
      rw [List.foldl_cons, hb, hzero, List.take_zero]
      exact hrest

/-- The bytes queued by an accepted write. -/
structure Queues (P : Platform) (bs : List UInt8) (s s' : Nfc) : Prop where
  contents : s'.tx.contents = Fifo.offer nfcRingBufSize s.tx.contents bs
  sent : ∀ n, Sent P n s → Sent P (n + (bs.take (nfcRingBufSize - s.tx.contents.length)).length) s'
  rx : SameRx s s'

theorem queues_foldl_txByte (bs : List UInt8) (s : Nfc) :
    Queues P bs s (bs.foldl (txByte P) s) where
  contents := by
    rw [tx_foldl_txByte, Ring.contents_pushAll]
  sent n h := by
    rw [Ring.length_contents]
    exact h.foldl_txByte bs
  rx := sameRx_foldl_txByte bs s

/-- A write is refused and changes nothing, or queues its bytes and then may flush. -/
inductive Writes (P : Platform) (s : Nfc) : ℤ → List UInt8 → Option (List UInt8) → Nfc → Prop where
  | refused {code : ℤ} (bs : List UInt8) (h : code ≠ 0) : Writes P s code bs none s
  | queued {s' : Nfc} {bs : List UInt8} (h : Queues P bs s s') : Writes P s 0 bs none s'
  | flushed {mid s' : Nfc} {bs : List UInt8} {code : ℤ} {record : Option (List UInt8)}
    (h : Queues P bs s mid) (hflush : Flushes mid nfcTransportNdefMaxSize code record s') :
    Writes P s 0 bs record s'

theorem Flushes.record_eq_none {s s' : Nfc} {outCapacity : ℕ} {code : ℤ}
    {record : Option (List UInt8)} (h : Flushes s outCapacity code record s') (hcode : code ≠ 0) :
    record = none := by
  cases h with
  | early => rfl
  | spilled => rfl
  | published => exact absurd rfl hcode

theorem Flushes.sameRx {s s' : Nfc} {outCapacity : ℕ} {code : ℤ} {record : Option (List UInt8)}
    (h : Flushes s outCapacity code record s') : SameRx s s' := by
  cases h with
  | early => exact .refl s
  | spilled _ hrx => exact hrx
  | published _ hrx => exact hrx

theorem Writes.sameRx {s s' : Nfc} {code : ℤ} {bs : List UInt8} {record : Option (List UInt8)}
    (h : Writes P s code bs record s') : SameRx s s' := by
  cases h with
  | refused => exact .refl s
  | queued h => exact h.rx
  | flushed h hflush => exact h.rx.trans hflush.sameRx

theorem writes_writeBytes (s : Nfc) (buf : Option (List UInt8)) :
    Writes P s (writeBytes P s buf).1 (buf.getD []) (writeBytes P s buf).2.1
      (writeBytes P s buf).2.2 := by
  cases buf with
  | none => exact .refused [] (show (-1 : ℤ) ≠ 0 by decide)
  | some bs =>
    unfold writeBytes
    simp only [Option.getD_some]
    split
    · exact .refused bs (show (-1 : ℤ) ≠ 0 by decide)
    · split
      · exact .refused bs (show (-2 : ℤ) ≠ 0 by decide)
      · have hqueues := queues_foldl_txByte (P := P) bs s
        split
        · have hflush := flushes_flushTxNdef (bs.foldl (txByte P) s) true nfcTransportNdefMaxSize true
          split
          · exact .flushed hqueues hflush
          · rename_i hcode
            rw [hflush.record_eq_none hcode] at hflush
            exact .flushed hqueues hflush
        · exact .queued hqueues

theorem Writes.sent {s s' : Nfc} {code : ℤ} {bs : List UInt8} {record : Option (List UInt8)}
    (h : Writes P s code bs record s') (hcode : code = 0) {n : ℕ} (hs : Sent P n s) :
    Sent P (n + (bs.take (nfcRingBufSize - s.tx.contents.length)).length) s' := by
  cases h with
  | refused _ hne => exact absurd hcode hne
  | queued hqueues => exact hqueues.sent n hs
  | flushed hqueues hflush =>
    have hmid := hqueues.sent n hs
    cases hflush with
    | early => exact hmid
    | spilled _ _ htxBytes => exact htxBytes.trans hmid
    | published _ _ htxBytes => exact htxBytes.trans hmid

theorem writeBytes_accepted {s : Nfc} {buf : List UInt8} (hbuf : buf ≠ [])
    (hfield : s.fieldActive = true) : (writeBytes P s (some buf)).1 = 0 := by
  unfold writeBytes
  simp only [List.length_eq_zero_iff, hbuf, hfield, if_false, Bool.true_eq_false]
  split
  · split <;> rfl
  · rfl

/-! ### A read -/

/-- The callbacks that run during a read. -/
def heard (P : Platform) (s : Nfc) (byte : Bool) (timeoutMs : UInt32) (start : ℤ)
    (rounds : List Round) : List (Option (List UInt8)) :=
  if byte = false ∨ s.fieldActive = false then []
  else arrivals P start (waitLimit timeoutMs).toNat rounds s

theorem packets_map_offer (datas : List (Option (List UInt8))) (acts : List (Fifo.Act UInt8)) :
    Relay.packets (datas.map (fun data => Fifo.Act.offer (rxPayload data)) ++ acts) =
      datas.map rxPayload ++ Relay.packets acts := by
  induction datas with
  | nil => rfl
  | cons data datas ih =>
    rw [List.map_cons, List.map_cons, List.cons_append, List.cons_append, Relay.packets, ih]

theorem packets_readActs (start waitLimit : ℤ) (rounds : List Round) (s : Nfc) :
    Relay.packets (readActs P start waitLimit rounds s) =
      (arrivals P start waitLimit rounds s).map rxPayload := by
  induction rounds generalizing s with
  | nil => rfl
  | cons round rounds ih =>
    unfold readActs arrivals
    by_cases hlate : round.uptime - start ≤ waitLimit
    · rw [if_pos hlate, if_pos hlate]
      by_cases h : 0 < s.rx.count
      · rw [dif_pos h, if_pos h]
        rfl
      · rw [dif_neg h, if_neg h, List.map_append, ← ih, ← packets_map_offer]
        rfl
    · rw [if_neg hlate, if_neg hlate]
      rfl

theorem sameTx_readByte (s : Nfc) (byte : Bool) (timeoutMs : UInt32) (start : ℤ)
    (rounds : List Round) : SameTx s (readByte P s byte timeoutMs start rounds).2 := by
  unfold readByte
  split
  · exact .refl s
  · exact sameTx_readLoop _ _ _ _

theorem readLoop_inactive {s : Nfc} (hfield : s.fieldActive = false) (start waitLimit : ℤ)
    (rounds : List Round) : ((readLoop P start waitLimit rounds s).1.bind Prod.snd) = none ∧
      (readLoop P start waitLimit rounds s).2 = s := by
  cases rounds with
  | nil => exact ⟨rfl, rfl⟩
  | cons round rounds =>
    unfold readLoop
    rw [if_pos hfield]
    split <;> exact ⟨rfl, rfl⟩

/-- A read acts on the queue and takes in what it hears. -/
theorem does_readByte (s : Nfc) (byte : Bool) (timeoutMs : UInt32) (start : ℤ)
    (rounds : List Round) :
    ∃ acts, Does (P := P) acts s (readByte P s byte timeoutMs start rounds).2 ∧
      Relay.packets acts = (heard P s byte timeoutMs start rounds).map rxPayload ∧
      Fifo.polled acts = ((readByte P s byte timeoutMs start rounds).1.bind Prod.snd).toList := by
  cases byte with
  | false => exact ⟨[], Does.refl s, rfl, rfl⟩
  | true =>
    unfold readByte heard
    rw [if_neg Bool.noConfusion]
    cases hfield : s.fieldActive with
    | false =>
      obtain ⟨hnone, hsame⟩ := readLoop_inactive (P := P) hfield start (waitLimit timeoutMs).toNat rounds
      rw [hnone, hsame, if_pos (.inr rfl)]
      exact ⟨[], Does.refl s, rfl, rfl⟩
    | true =>
      rw [if_neg (by decide)]
      exact ⟨_, does_readLoop start _ rounds s hfield, packets_readActs start _ rounds s,
        polled_readActs start _ rounds s hfield⟩

end Counters

end Nfc

end ZephyrModem.Transport
