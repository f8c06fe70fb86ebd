import ZephyrModem.Transport.BleNus
import ZephyrModem.Transport.Nfc

/-!
# Receiving through the transports

While the field is active the receive ring of the NFC adapter serves as a bounded queue
of 1024 bytes, for callbacks and reads in any order, also callbacks that come in while
a read waits.
-/

namespace ZephyrModem.Transport

open Memory

namespace Nfc

def rxPayload (data : Option (List UInt8)) : List UInt8 :=
  match data with
  | none => []
  | some data => (ndefPayload data).getD data

section Counters

variable (P : Platform)

/-! ### Single calls -/

/-- Counters that have counted `n` bytes in and `d` bytes dropped. -/
structure Counted (n d : ℕ) (s : Nfc) : Prop where
  rxBytes : s.stats.rxBytes = P.toSize n
  overflowCount : s.stats.overflowCount = UInt32.ofNat d

variable {P}

theorem Counted.rxByte {n d : ℕ} {s : Nfc} (h : Counted P n d s) (b : UInt8) :
    if s.rx.count < nfcRingBufSize then Counted P (n + 1) d (rxByte P s b)
    else Counted P n (d + 1) (rxByte P s b) := by
  unfold Nfc.rxByte
  by_cases hroom : s.rx.count < nfcRingBufSize
  · rw [if_pos hroom, if_pos hroom]
    refine ⟨?_, h.overflowCount⟩
    show P.toSize (s.stats.rxBytes + 1) = P.toSize (n + 1)
    rw [h.rxBytes]
    exact Nat.mod_add_mod n P.sizeMod 1
  · rw [if_neg hroom, if_neg hroom]
    refine ⟨h.rxBytes, ?_⟩
    show s.stats.overflowCount + 1 = UInt32.ofNat (d + 1)
    rw [h.overflowCount, UInt32.ofNat_add]
    rfl

theorem Counted.foldl_rxByte {n d : ℕ} {s : Nfc} (h : Counted P n d s) (bs : List UInt8) :
    Counted P (n + (bs.take (nfcRingBufSize - s.rx.count)).length)
      (d + (bs.drop (nfcRingBufSize - s.rx.count)).length) (bs.foldl (Nfc.rxByte P) s) := by
  induction bs generalizing n d s with
  | nil =>
    rw [List.take_nil, List.drop_nil]
    exact h
  | cons b bs ih =>
    have hb := h.rxByte b
    have hcount : (Nfc.rxByte P s b).rx.count =
        if s.rx.count < nfcRingBufSize then s.rx.count + 1 else s.rx.count := by
      rw [← Ring.length_contents, rx_rxByte, Ring.contents_push]
      split
      · rw [List.length_append, Ring.length_contents]
        rfl
      · exact Ring.length_contents _
    by_cases hroom : s.rx.count < nfcRingBufSize
    · rw [if_pos hroom] at hb hcount
      have hrest := ih hb
      have hsucc : nfcRingBufSize - s.rx.count = nfcRingBufSize - (s.rx.count + 1) + 1 := by omega
      rw [hcount] at hrest
      rw [hsucc, List.take_succ_cons, List.drop_succ_cons, List.length_cons, Nat.add_comm _ 1,
        ← Nat.add_assoc]
      exact hrest
    · rw [if_neg hroom] at hb hcount
      have hrest := ih hb
      have hzero : nfcRingBufSize - s.rx.count = 0 := by omega
      rw [hcount, hzero, List.take_zero, List.drop_zero] at hrest
      rw [hzero, List.take_zero, List.drop_zero, List.length_cons, Nat.add_comm _ 1, ← Nat.add_assoc]
      exact hrest

/-- What a callback does to the ring, the field and the counters. -/
structure Takes (bs : List UInt8) (s s' : Nfc) : Prop where
  contents : s'.rx.contents = Fifo.offer nfcRingBufSize s.rx.contents bs
  fieldActive : s'.fieldActive = s.fieldActive
  counted : ∀ n d, Counted P n d s →
    Counted P (n + (bs.take (nfcRingBufSize - s.rx.contents.length)).length)
      (d + (bs.drop (nfcRingBufSize - s.rx.contents.length)).length) s'

theorem fieldActive_foldl_rxByte (bs : List UInt8) (s : Nfc) :
    (bs.foldl (Nfc.rxByte P) s).fieldActive = s.fieldActive := by
  induction bs generalizing s with
  | nil => rfl
  | cons b bs ih =>
    rw [List.foldl_cons, ih, Nfc.rxByte]
    split <;> rfl

theorem takes_foldl_rxByte (bs : List UInt8) (s : Nfc) :
    Takes (P := P) bs s (bs.foldl (Nfc.rxByte P) s) where
  contents := by rw [rx_foldl_rxByte, Ring.contents_pushAll]
  fieldActive := fieldActive_foldl_rxByte bs s
  counted := by
    intro n d h
    rw [Ring.length_contents]
    exact h.foldl_rxByte bs

theorem takes_rxCallback (s : Nfc) (data : Option (List UInt8)) :
    Takes (P := P) (rxPayload data) s (rxCallback P s data) := by
  cases data with
  | none => exact takes_foldl_rxByte [] s
  | some data =>
    unfold rxCallback rxPayload
    by_cases hnil : data.length = 0
    · rw [List.length_eq_zero_iff] at hnil
      subst hnil
      exact takes_foldl_rxByte [] s
    · simp only [if_neg hnil]
      cases hpayload : ndefPayload data with
      | none => exact takes_foldl_rxByte data s
      | some payload =>
        obtain ⟨hcontents, hfield, hcounted⟩ := takes_foldl_rxByte (P := P) payload
          { s with stats := { s.stats with ndefRecordsRx := s.stats.ndefRecordsRx + 1 } }
        exact ⟨hcontents, hfield, fun n d h => hcounted n d ⟨h.rxBytes, h.overflowCount⟩⟩

/-- A record of 1 to 255 bytes brings the longest prefix of its payload that fits. -/
theorem rxCallback_record (s : Nfc) {payload : List UInt8} (hpos : 1 ≤ payload.length)
    (hle : payload.length ≤ 255) :
    (rxCallback P s (some (ndefRecord payload))).rx.contents =
      s.rx.contents ++ payload.take (nfcRingBufSize - s.rx.contents.length) := by
  have h := (takes_rxCallback (P := P) s (some (ndefRecord payload))).contents
  rw [rxPayload, ndefPayload_ndefRecord hpos hle] at h
  exact h

/-- The two data events of the T4T library are receive callbacks. -/
theorem takes_t4tEventHandler (s : Nfc) {event : ℤ} (h : event = 3 ∨ event = 4)
    (data : Option (List UInt8)) :
    Takes (P := P) (rxPayload data) s (t4tEventHandler P s event data) := by
  obtain ⟨hcontents, hfield, hcounted⟩ := takes_rxCallback (P := P)
    { s with stats := { s.stats with t4tEventsHandled := s.stats.t4tEventsHandled + 1 } } data
  unfold t4tEventHandler
  rw [if_neg (by omega), if_neg (by omega), if_pos h]
  exact ⟨hcontents, hfield, fun n d hs => hcounted n d ⟨hs.rxBytes, hs.overflowCount⟩⟩

/-! ### Reads with callbacks while they wait -/

variable (P)

/-- What a read is to the queue: a poll in every round that is in time. -/
def readActs (start waitLimit : ℤ) : List Round → Nfc → List (Fifo.Act UInt8)
  | [], _ => []
  | round :: rounds, s =>
    if round.uptime - start ≤ waitLimit then
      if h : 0 < s.rx.count then [.poll (some (s.rx.shift h).1)]
      else .poll none :: (round.arriving.map (fun data => .offer (rxPayload data)) ++
        readActs start waitLimit rounds (round.arriving.foldl (rxCallback P) s))
    else []

/-- The callbacks that run while a read sleeps. -/
def arrivals (start waitLimit : ℤ) : List Round → Nfc → List (Option (List UInt8))
  | [], _ => []
  | round :: rounds, s =>
    if round.uptime - start ≤ waitLimit then
      if 0 < s.rx.count then []
      else round.arriving ++
        arrivals start waitLimit rounds (round.arriving.foldl (rxCallback P) s)
    else []

variable {P}

/-- What calls do: the acts on the queue, the field, and the counters by the acts. -/
structure Does (acts : List (Fifo.Act UInt8)) (s s' : Nfc) : Prop where
  run : Fifo.Run nfcRingBufSize s.rx.contents acts s'.rx.contents
  fieldActive : s'.fieldActive = s.fieldActive
  counted : ∀ n d, Counted P n d s →
    Counted P (n + (Fifo.enqueued nfcRingBufSize s.rx.contents acts).length)
      (d + (Fifo.dropped nfcRingBufSize s.rx.contents acts).length) s'

namespace Does

variable {s s' s'' : Nfc} {acts more : List (Fifo.Act UInt8)}

theorem refl (s : Nfc) : Does (P := P) [] s s := ⟨.nil _, rfl, fun _ _ h => h⟩

theorem trans (h : Does (P := P) acts s s') (hmore : Does (P := P) more s' s'') :
    Does (P := P) (acts ++ more) s s'' where
  run := h.run.append hmore.run
  fieldActive := hmore.fieldActive.trans h.fieldActive
  counted := by
    intro n d hcounted
    have h'' := hmore.counted _ _ (h.counted n d hcounted)
    rw [h.run.enqueued_append, h.run.dropped_append, List.length_append, List.length_append,
      ← Nat.add_assoc, ← Nat.add_assoc]
    exact h''

theorem of_takes {bs : List UInt8} (h : Takes (P := P) bs s s') :
    Does (P := P) [.offer bs] s s' where
  run := by
    rw [h.contents]
    exact .offer bs (.nil _)
  fieldActive := h.fieldActive
  counted := by
    intro n d hcounted
    have h' := h.counted n d hcounted
    simp only [Fifo.enqueued, Fifo.dropped, List.append_nil]
    exact h'

theorem rxCallbacks (datas : List (Option (List UInt8))) (s : Nfc) :
    Does (P := P) (datas.map (fun data => .offer (rxPayload data))) s
      (datas.foldl (Nfc.rxCallback P) s) := by
  induction datas generalizing s with
  | nil => exact refl s
  | cons data datas ih => exact (of_takes (takes_rxCallback s data)).trans (ih _)

end Does

theorem does_readLoop (start waitLimit : ℤ) (rounds : List Round) (s : Nfc)
    (hfield : s.fieldActive = true) :
    Does (P := P) (readActs P start waitLimit rounds s) s
      (readLoop P start waitLimit rounds s).2 := by
  induction rounds generalizing s with
  | nil => exact Does.refl s
  | cons round rounds ih =>
    unfold readActs readLoop
    by_cases hlate : round.uptime - start ≤ waitLimit
    · rw [if_pos hlate, if_pos hlate, if_neg (by rw [hfield]; decide)]
      by_cases h : 0 < s.rx.count
      · rw [dif_pos h, dif_pos h]
        exact ⟨s.rx.run_shift h, rfl, fun _ _ hcounted => ⟨hcounted.1, hcounted.2⟩⟩
      · rw [dif_neg h, dif_neg h]
        have hempty : Does (P := P) [.poll none] s s :=
          ⟨s.rx.run_empty h, rfl, fun _ _ hcounted => hcounted⟩
        have harrive := Does.rxCallbacks (P := P) round.arriving s
        have hrest := ih _ (harrive.fieldActive.trans hfield)
        exact hempty.trans (harrive.trans hrest)
    · rw [if_neg hlate, if_neg hlate]
      exact Does.refl s

theorem polled_map_offer (datas : List (Option (List UInt8))) :
    Fifo.polled (datas.map (fun data => Fifo.Act.offer (rxPayload data))) = [] := by
  induction datas with
  | nil => rfl
  | cons data datas ih => exact ih

theorem offered_map_offer (datas : List (Option (List UInt8))) :
    Fifo.offered (datas.map (fun data => .offer (rxPayload data))) = datas.flatMap rxPayload := by
  induction datas with
  | nil => rfl
  | cons data datas ih =>
    rw [List.flatMap_cons, ← ih]
    rfl

theorem polled_readActs (start waitLimit : ℤ) (rounds : List Round) (s : Nfc)
    (hfield : s.fieldActive = true) :
    Fifo.polled (readActs P start waitLimit rounds s) =
      ((readLoop P start waitLimit rounds s).1.bind Prod.snd).toList := by
  induction rounds generalizing s with
  | nil => rfl
  | cons round rounds ih =>
    unfold readActs readLoop
    by_cases hlate : round.uptime - start ≤ waitLimit
    · rw [if_pos hlate, if_pos hlate, if_neg (by rw [hfield]; decide)]
      by_cases h : 0 < s.rx.count
      · rw [dif_pos h, dif_pos h]
        rfl
      · rw [dif_neg h, dif_neg h, ← ih]
        · show Fifo.polled (_ ++ _) = _
          rw [Fifo.polled_append, polled_map_offer]
          rfl
        · exact (Does.rxCallbacks (P := P) round.arriving s).fieldActive.trans hfield
    · rw [if_neg hlate, if_neg hlate]
      rfl

theorem offered_readActs (start waitLimit : ℤ) (rounds : List Round) (s : Nfc) :
    Fifo.offered (readActs P start waitLimit rounds s) =
      (arrivals P start waitLimit rounds s).flatMap rxPayload := by
  induction rounds generalizing s with
  | nil => rfl
  | cons round rounds ih =>
    unfold readActs arrivals
    by_cases hlate : round.uptime - start ≤ waitLimit
    · rw [if_pos hlate, if_pos hlate]
      by_cases h : 0 < s.rx.count
      · rw [dif_pos h, if_pos h]
        rfl
      · rw [dif_neg h, if_neg h, List.flatMap_append, ← ih, ← offered_map_offer]
        exact Fifo.offered_append _ _
    · rw [if_neg hlate, if_neg hlate]
      rfl

/-! ### Callbacks and reads in any order -/

inductive Call where
  | rxCallback (data : Option (List UInt8))
  | readByte (byte : Bool) (timeoutMs : UInt32) (start : ℤ) (rounds : List Round)
  deriving Repr, DecidableEq

variable (P)

def step (s : Nfc) : Call → Nfc
  | .rxCallback data => rxCallback P s data
  | .readByte byte timeoutMs start rounds => (readByte P s byte timeoutMs start rounds).2

def returned (s : Nfc) : Call → List UInt8
  | .rxCallback _ => []
  | .readByte byte timeoutMs start rounds =>
    ((readByte P s byte timeoutMs start rounds).1.bind Prod.snd).toList

def delivered (s : Nfc) : Call → List UInt8
  | .rxCallback data => rxPayload data
  | .readByte byte timeoutMs start rounds =>
    if byte = false then []
    else (arrivals P start (waitLimit timeoutMs).toNat rounds s).flatMap rxPayload

def acts (s : Nfc) : Call → List (Fifo.Act UInt8)
  | .rxCallback data => [.offer (rxPayload data)]
  | .readByte byte timeoutMs start rounds =>
    if byte = false then [] else readActs P start (waitLimit timeoutMs).toNat rounds s

variable {P}

theorem does_step (s : Nfc) (c : Call) (hfield : s.fieldActive = true) :
    Does (P := P) (acts P s c) s (step P s c) := by
  cases c with
  | rxCallback data => exact Does.of_takes (takes_rxCallback s data)
  | readByte byte timeoutMs start rounds =>
    cases byte with
    | false => exact Does.refl s
    | true => exact does_readLoop start _ rounds s hfield

theorem offered_acts (s : Nfc) (c : Call) : Fifo.offered (acts P s c) = delivered P s c := by
  cases c with
  | rxCallback data => exact List.append_nil _
  | readByte byte timeoutMs start rounds =>
    cases byte with
    | false => rfl
    | true => exact offered_readActs start _ rounds s

theorem polled_acts (s : Nfc) (c : Call) (hfield : s.fieldActive = true) :
    Fifo.polled (acts P s c) = returned P s c := by
  cases c with
  | rxCallback data => rfl
  | readByte byte timeoutMs start rounds =>
    cases byte with
    | false => rfl
    | true => exact polled_readActs start _ rounds s hfield

variable (P)

def history (s : Nfc) (calls : List Call) : List (Fifo.Act UInt8) :=
  Fifo.gather (step P) (acts P) s calls

def bytesDelivered (s : Nfc) (calls : List Call) : List UInt8 :=
  Fifo.gather (step P) (delivered P) s calls

def bytesReturned (s : Nfc) (calls : List Call) : List UInt8 :=
  Fifo.gather (step P) (returned P) s calls

def after (s : Nfc) (calls : List Call) : Nfc := calls.foldl (step P) s

variable {P}

theorem does_after (s : Nfc) (calls : List Call) (hfield : s.fieldActive = true) :
    Does (P := P) (history P s calls) s (after P s calls) := by
  induction calls generalizing s with
  | nil => exact Does.refl s
  | cons c calls ih =>
    have hstep := does_step (P := P) s c hfield
    exact hstep.trans (ih _ (hstep.fieldActive.trans hfield))

theorem polled_history (s : Nfc) (calls : List Call) (hfield : s.fieldActive = true) :
    Fifo.polled (history P s calls) = bytesReturned P s calls := by
  induction calls generalizing s with
  | nil => rfl
  | cons c calls ih =>
    have hrest := ih _ ((does_step (P := P) s c hfield).fieldActive.trans hfield)
    show Fifo.polled (acts P s c ++ history P (step P s c) calls) = _
    rw [Fifo.polled_append, polled_acts s c hfield, hrest]
    rfl

/-- With the field active the ring serves as a bounded queue of 1024 bytes. -/
theorem serves {config : Option NfcConfig} {s : Nfc} (h : Ready config s) (calls : List Call) :
    Fifo.Serves nfcRingBufSize (history P s calls) (bytesDelivered P s calls)
      (bytesReturned P s calls) (after P s calls).rx.contents where
  run := by
    rw [← h.contents_rx]
    exact (does_after s calls h.fieldActive).run
  offered_eq := Fifo.gather_map (step P) Fifo.offered rfl Fifo.offered_append offered_acts _ _
  polled_eq := polled_history s calls h.fieldActive

theorem counted_ready {config : Option NfcConfig} {s : Nfc} (h : Ready config s) :
    Counted P 0 0 s := by
  have hzero : P.toSize 0 = 0 := P.toSize_of_lt P.sizeMod_pos
  cases h with
  | fieldOn s => exact ⟨hzero.symm, rfl⟩
  | started s => exact ⟨hzero.symm, rfl⟩

/-- The two counters add up to the bytes delivered as long as neither wraps. -/
theorem counters {config : Option NfcConfig} {s : Nfc} (h : Ready config s) (calls : List Call)
    (hrx : (Fifo.enqueued nfcRingBufSize [] (history P s calls)).length < P.sizeMod)
    (hoverflow : (Fifo.dropped nfcRingBufSize [] (history P s calls)).length < 2 ^ 32) :
    (after P s calls).stats.rxBytes + (after P s calls).stats.overflowCount.toNat =
      (bytesDelivered P s calls).length := by
  have hcounted := (does_after (P := P) s calls h.fieldActive).counted 0 0 (counted_ready h)
  rw [h.contents_rx, Nat.zero_add, Nat.zero_add] at hcounted
  rw [hcounted.rxBytes, hcounted.overflowCount, P.toSize_of_lt hrx, UInt32.toNat_ofNat',
    Nat.mod_eq_of_lt hoverflow]
  exact (serves h calls).length_delivered.symm

end Counters

end Nfc

/-! ### Both transports -/

theorem receive_refines_fifo :
    (∀ (s : BleNus) (calls : List BleNus.Call),
      Fifo.Serves bleNusDefaultBufSize (BleNus.history s.init.2 calls)
          (BleNus.bytesDelivered calls) (BleNus.bytesReturned s.init.2 calls)
          (BleNus.after s.init.2 calls).rx.contents ∧
        Fifo.enqueued bleNusDefaultBufSize [] (BleNus.history s.init.2 calls) =
          BleNus.bytesReturned s.init.2 calls ++ (BleNus.after s.init.2 calls).rx.contents) ∧
    ∀ (P : Platform) (config : Option NfcConfig) (s : Nfc), Nfc.Ready config s →
      ∀ calls : List Nfc.Call,
        Fifo.Serves nfcRingBufSize (Nfc.history P s calls) (Nfc.bytesDelivered P s calls)
            (Nfc.bytesReturned P s calls) (Nfc.after P s calls).rx.contents ∧
          Fifo.enqueued nfcRingBufSize [] (Nfc.history P s calls) =
            Nfc.bytesReturned P s calls ++ (Nfc.after P s calls).rx.contents ∧
          (∀ (encoder : Nfc) (payload : List UInt8) (capacity : ℕ),
            1 ≤ payload.length → payload.length ≤ 255 →
            if 3 + nfcMimeTypeLen + payload.length ≤ capacity then
              ∃ record, (encoder.encodeNdefRecord (some payload) true capacity true).1 = 0 ∧
                (encoder.encodeNdefRecord (some payload) true capacity true).2.1 = some record ∧
                record.length = 3 + nfcMimeTypeLen + payload.length ∧
                Nfc.rxPayload (some record) = payload ∧
                (Nfc.rxCallback P (Nfc.after P s calls) (some record)).rx.contents =
                  (Nfc.after P s calls).rx.contents ++
                    payload.take (nfcRingBufSize - (Nfc.after P s calls).rx.contents.length)
            else encoder.encodeNdefRecord (some payload) true capacity true = (-1, none, encoder)) ∧
          ((Fifo.enqueued nfcRingBufSize [] (Nfc.history P s calls)).length < P.sizeMod →
            (Fifo.dropped nfcRingBufSize [] (Nfc.history P s calls)).length < 2 ^ 32 →
            (Nfc.after P s calls).stats.rxBytes +
                (Nfc.after P s calls).stats.overflowCount.toNat =
              (Nfc.bytesDelivered P s calls).length) := by
  constructor
  · intro s calls
    have h := BleNus.serves s calls
    exact ⟨h, h.enqueued_eq⟩
  · intro P config s hready calls
    have h := Nfc.serves (P := P) hready calls
    refine ⟨h, h.enqueued_eq, ?_, Nfc.counters hready calls⟩
    intro encoder payload capacity hpos hle
    have hencode := encoder.encodeNdefRecord_eq hle capacity
    split
    next hfits =>
      rw [if_pos hfits] at hencode
      rw [hencode]
      refine ⟨Nfc.ndefRecord payload, rfl, rfl, Nfc.length_ndefRecord payload, ?_,
        Nfc.rxCallback_record _ hpos hle⟩
      show (Nfc.ndefPayload (Nfc.ndefRecord payload)).getD _ = payload
      rw [Nfc.ndefPayload_ndefRecord hpos hle]
      rfl
    next hshort =>
      rw [if_neg hshort] at hencode
      exact hencode

/-- A record of three bytes comes in and its first byte is read; the next read finds what
came in while it slept, which is no record. -/
def recordCalls : List Nfc.Call :=
  [.rxCallback (some (Nfc.ndefRecord [0xD2, 0x42])), .readByte true 5 0 [⟨0, []⟩],
    .readByte true 5 10 [⟨10, []⟩], .readByte true 9 20 [⟨20, [some [0xD2, 7, 8]]⟩, ⟨25, []⟩]]

def nusCalls : List BleNus.Call :=
  [.rxCallback (some [1, 2, 3]), .readByte true, .rxCallback (some [4]), .readByte true]

/-- One more record behind these calls. -/
theorem receive_refines_fifo_record :
    Fifo.enqueued bleNusDefaultBufSize [] (BleNus.history BleNus.boot.init.2 nusCalls) =
      [1, 2] ++ [3, 4] ∧
    Nfc.bytesReturned platform32 (Nfc.boot.init none).2.start.2 recordCalls = [0xD2, 0x42, 0xD2] ∧
    (∃ record, (Nfc.boot.encodeNdefRecord (some [9]) true 23 true).2.1 = some record ∧
      (Nfc.rxCallback platform32 (Nfc.after platform32 (Nfc.boot.init none).2.start.2 recordCalls)
        (some record)).rx.contents = [7, 8, 9]) ∧
    (Nfc.after platform32 (Nfc.boot.init none).2.start.2 recordCalls).stats.rxBytes +
      (Nfc.after platform32 (Nfc.boot.init none).2.start.2 recordCalls).stats.overflowCount.toNat =
        5 := by
  obtain ⟨-, -, hrecords, hcounters⟩ :=
    receive_refines_fifo.2 platform32 none _ (.started Nfc.boot) recordCalls
  obtain ⟨record, -, hmade, -, -, hdelivered⟩ := hrecords Nfc.boot [9] 23 (by decide) (by decide)
  have hleft : (Nfc.after platform32 (Nfc.boot.init none).2.start.2 recordCalls).rx.contents =
      [7, 8] := by decide
  rw [hleft] at hdelivered
  refine ⟨(receive_refines_fifo.1 BleNus.boot nusCalls).2.trans (by decide), by decide,
    ⟨record, hmade, hdelivered⟩, ?_⟩
  rw [hcounters (by decide) (by decide)]
  decide

end ZephyrModem.Transport
