import ZephyrModem.Reactive.Delay
import ZephyrModem.Ymodem.Bounds
import ZephyrModem.Ymodem.RoundTrip

/-!
# A transmitter that starts late

`ymodem_receive` asks again at every time-out. `ymodem_transmit` takes one request
and then the next byte for the answer to Block 0.
-/

namespace ZephyrModem.Ymodem
open ZephyrModem.Reactive ZephyrModem.Reactive.Duplex ZephyrModem.Transfer
open ZephyrModem.Xmodem (Byte Read soh stx eot ack nak can charC)

section LateStart

variable {υ υ' : Type} {P : Platform} {crc : CrcService} {tcbs : TxCallbacks υ}
  {rcbs : RxCallbacks υ'} {u : υ} {u' : υ'}

/-- After `k` time-outs: the transmitter has not read, and all the requests are on
the line, but for the last one perhaps. -/
structure Requested (tcbs : TxCallbacks υ) (u : υ) (u' : υ') (k : ℕ)
    (s : Duplex Byte Event (TxSite υ) Status Event (RxState υ') Status) : Prop where
  left : s.left.next = (nextFile tcbs 0 u).next
  quiet : s.left.events.filterMap Event.wire = []
  toRight : s.toRight = []
  right : s.right.next = .wait ⟨.header, ⟨UInt8.ofNat k, .block0, u'⟩⟩
  toLeft : s.toLeft ++ s.right.events.filterMap Event.wire = List.replicate (k + 1) charC

theorem Requested.emitLeft {k : ℕ} {s t : Duplex Byte Event (TxSite υ) Status Event (RxState υ') Status}
    (h : Requested tcbs u u' k s)
    (hmove : move (txParty P crc tcbs) (rxParty P crc rcbs) .emitLeft s = some t) :
    Requested tcbs u u' k t := by
  obtain ⟨e, es, n, hl, rfl⟩ := move_emitLeft.mp hmove
  obtain ⟨hleft, hquiet, htoRight, hright, htoLeft⟩ := h
  rw [hl] at hleft hquiet
  have he : Event.wire e = none := by
    cases hw : Event.wire e with
    | none => rfl
    | some b => simp [hw] at hquiet
  have hes : es.filterMap Event.wire = [] := by
    simpa [he] using hquiet
  refine ⟨hleft, hes, ?_, hright, htoLeft⟩
  show s.toRight ++ (Event.wire e).toList = []
  rw [htoRight, he]
  rfl

theorem Requested.emitRight {k : ℕ} {s t : Duplex Byte Event (TxSite υ) Status Event (RxState υ') Status}
    (h : Requested tcbs u u' k s)
    (hmove : move (txParty P crc tcbs) (rxParty P crc rcbs) .emitRight s = some t) :
    Requested tcbs u u' k t := by
  obtain ⟨e, es, n, hr, rfl⟩ := move_emitRight.mp hmove
  obtain ⟨hleft, hquiet, htoRight, hright, htoLeft⟩ := h
  rw [hr] at hright htoLeft
  refine ⟨hleft, hquiet, htoRight, hright, ?_⟩
  show s.toLeft ++ (Event.wire e).toList ++ es.filterMap Event.wire = _
  rw [← htoLeft, sent_emit]

theorem receiveStep_headerTimeout {k : ℕ} (hk : k < 9) :
    receiveStep P crc rcbs ⟨.header, ⟨UInt8.ofNat k, .block0, u'⟩⟩ .timeout =
      ⟨[.write charC], .wait ⟨.header, ⟨UInt8.ofNat (k + 1), .block0, u'⟩⟩⟩ := by
  have hretries : UInt8.ofNat k + 1 = UInt8.ofNat (k + 1) := by
    rw [UInt8.ofNat_add]
    rfl
  have hlt : UInt8.ofNat (k + 1) < maxRetries := by
    interval_cases k <;> decide
  simp only [receiveStep, headerTimeout, requestAgain, hretries, if_pos hlt]
  rfl

theorem Requested.failRight {k : ℕ} {s t : Duplex Byte Event (TxSite υ) Status Event (RxState υ') Status}
    (hk : k < 9) (h : Requested tcbs u u' k s)
    (hmove : move (txParty P crc tcbs) (rxParty P crc rcbs) .failRight s = some t) :
    Requested tcbs u u' (k + 1) t := by
  obtain ⟨x, hr, -, rfl⟩ := move_failRight.mp hmove
  obtain ⟨hleft, hquiet, htoRight, hright, htoLeft⟩ := h
  rw [hr] at hright htoLeft
  obtain rfl := Next.wait.inj hright
  have hstep : receiveStep P crc rcbs ⟨.header, ⟨UInt8.ofNat k, .block0, u'⟩⟩ .timeout =
      ⟨[.write charC], .wait ⟨.header, ⟨UInt8.ofNat (k + 1), .block0, u'⟩⟩⟩ :=
    receiveStep_headerTimeout hk
  refine ⟨hleft, hquiet, htoRight, ?_, ?_⟩
  · show (receiveStep P crc rcbs _ _).next = _
    rw [hstep]
  · show s.toLeft ++ (receiveStep P crc rcbs _ _).events.filterMap Event.wire = _
    rw [hstep, List.replicate_succ', ← htoLeft]
    simp

theorem requested_of_delayed {k : ℕ}
    {s : Duplex Byte Event (TxSite υ) Status Event (RxState υ') Status} (hk : k ≤ 9)
    (h : Delayed (txParty P crc tcbs) (rxParty P crc rcbs) k (start tcbs u u') s) :
    Requested tcbs u u' k s := by
  refine Delayed.invariant (I := Requested tcbs u u') (n := 9) ?_ ?_ ?_ ?_ ?_ hk h
  · exact ⟨rfl, rfl, rfl, rfl, rfl⟩
  · intro k s t hs hmove
    exact hs.emitLeft hmove
  · intro k s t hs hmove
    exact hs.emitRight hmove
  · intro k s t hs hmove
    obtain ⟨x, b, q, -, hq, -⟩ := move_readRight.mp hmove
    rw [hs.toRight] at hq
    cases hq
  · intro k s t hk hs hmove
    exact hs.failRight hk hmove

theorem exists_lateStart (P : Platform) (crc : CrcService) (tcbs : TxCallbacks υ)
    (rcbs : RxCallbacks υ') (u : υ) (u' : υ') {k : ℕ} (hk : k ≤ 9) :
    ∃ s, Delayed (txParty P crc tcbs) (rxParty P crc rcbs) k (start tcbs u u') s := by
  refine exists_delayed ?_ hk
  intro k t hlt ht
  have hreq := requested_of_delayed (Nat.le_of_lt hlt) ht
  exact ⟨⟨_, hreq.right⟩, hreq.toRight⟩

/-! ### The leftover request -/

/-- The transmitter has yet to read the leftover request, or has given up. -/
def Misled (s : Duplex Byte Event (TxSite υ) Status Event (RxState υ') Status) : Prop :=
  (∃ v, s.left.next = .wait (.startC v 0) ∧
      [charC, charC] <+: s.toLeft ++ s.right.events.filterMap Event.wire) ∨
    (∃ v, s.left.next = .wait (.ackBlock0 v) ∧
      [charC] <+: s.toLeft ++ s.right.events.filterMap Event.wire) ∨
    s.left.next = .done .errorTimeout

theorem Requested.misled {k : ℕ} {s : Duplex Byte Event (TxSite υ) Status Event (RxState υ') Status}
    (hk : 1 ≤ k) (h : Requested tcbs u u' k s) : Misled s := by
  refine .inl ⟨_, h.left, ?_⟩
  rw [h.toLeft]
  exact List.prefix_replicate_iff.mpr ⟨by simp; omega, rfl⟩

theorem Misled.mono {s t : Duplex Byte Event (TxSite υ) Status Event (RxState υ') Status}
    (h : Misled s) (hleft : t.left.next = s.left.next)
    (hqueue : s.toLeft ++ s.right.events.filterMap Event.wire <+:
      t.toLeft ++ t.right.events.filterMap Event.wire) : Misled t := by
  rcases h with ⟨v, hv, hq⟩ | ⟨v, hv, hq⟩ | hv
  · exact .inl ⟨v, hleft.trans hv, hq.trans hqueue⟩
  · exact .inr (.inl ⟨v, hleft.trans hv, hq.trans hqueue⟩)
  · exact .inr (.inr (hleft.trans hv))

theorem Misled.readLeft {s t : Duplex Byte Event (TxSite υ) Status Event (RxState υ') Status}
    (h : Misled s) (hmove : move (txParty P crc tcbs) (rxParty P crc rcbs) .readLeft s = some t) :
    Misled t := by
  obtain ⟨x, b, q, hl, hq, rfl⟩ := move_readLeft.mp hmove
  rcases h with ⟨v, hv, hprefix⟩ | ⟨v, hv, hprefix⟩ | hv
  · rw [hl] at hv
    obtain rfl := Next.wait.inj hv
    rw [hq, List.cons_append, List.cons_prefix_cons] at hprefix
    obtain ⟨rfl, hprefix⟩ := hprefix
    have hstep : transmitStep P crc tcbs (.startC v 0) (.ok charC) =
        ⟨writeBytes (packet crc 0 v.block0), .wait (.ackBlock0 v)⟩ := by
      simp only [transmitStep, if_true]
    refine .inr (.inl ⟨v, ?_, hprefix⟩)
    show (transmitStep P crc tcbs _ _).next = _
    rw [hstep]
  · rw [hl] at hv
    obtain rfl := Next.wait.inj hv
    rw [hq, List.cons_append, List.cons_prefix_cons] at hprefix
    obtain ⟨rfl, -⟩ := hprefix
    have hne : (ReadResult.ok charC : Read) ≠ .ok ack := by decide
    have hstep : transmitStep P crc tcbs (.ackBlock0 v) (.ok charC) = ⟨[], .done .errorTimeout⟩ := by
      simp only [transmitStep, if_pos hne]
    refine .inr (.inr ?_)
    show (transmitStep P crc tcbs _ _).next = _
    rw [hstep]
  · rw [hl] at hv
    cases hv

theorem Misled.step {s t : Duplex Byte Event (TxSite υ) Status Event (RxState υ') Status}
    (h : Misled s) (hstep : PatientStep (txParty P crc tcbs) (rxParty P crc rcbs) s t) :
    Misled t := by
  obtain ⟨m, hmove, hpatient, -⟩ := hstep
  cases m with
  | emitLeft =>
    obtain ⟨e, es, n, hl, rfl⟩ := move_emitLeft.mp hmove
    exact h.mono (by rw [hl]) (List.prefix_refl _)
  | emitRight =>
    obtain ⟨e, es, n, hr, rfl⟩ := move_emitRight.mp hmove
    refine h.mono rfl ?_
    show s.toLeft ++ s.right.events.filterMap Event.wire <+:
      s.toLeft ++ (Event.wire e).toList ++ es.filterMap Event.wire
    rw [hr, List.append_assoc]
    cases he : Event.wire e <;> simp [he]
  | readLeft => exact h.readLeft hmove
  | readRight =>
    obtain ⟨x, b, q, hr, -, rfl⟩ := move_readRight.mp hmove
    refine h.mono rfl ?_
    rw [hr, List.filterMap_nil, List.append_nil]
    exact List.prefix_append _ _
  | failLeft =>
    -- the leftover request is on its way, so the transmitter waits for it
    obtain ⟨x, hl, hq, rfl⟩ := move_failLeft.mp hmove
    have hnone : s.right.events = [] := by
      by_contra hne
      exact hpatient rfl (.inl hne)
    rcases h with ⟨v, -, hprefix⟩ | ⟨v, -, hprefix⟩ | hv
    · rw [hq, hnone] at hprefix
      exact absurd (List.prefix_nil.mp hprefix) (List.cons_ne_nil _ _)
    · rw [hq, hnone] at hprefix
      exact absurd (List.prefix_nil.mp hprefix) (List.cons_ne_nil _ _)
    · rw [hl] at hv
      cases hv
  | failRight =>
    obtain ⟨x, hr, -, rfl⟩ := move_failRight.mp hmove
    refine h.mono rfl ?_
    rw [hr, List.filterMap_nil, List.append_nil]
    exact List.prefix_append _ _

theorem Misled.run {j : ℕ} {s t : Duplex Byte Event (TxSite υ) Status Event (RxState υ') Status}
    (h : Misled s) (hrun : PatientRun (txParty P crc tcbs) (rxParty P crc rcbs) j s t) :
    Misled t := by
  induction hrun with
  | refl s => exact h
  | step hstep _ ih => exact ih (h.step hstep)

theorem Misled.not_settles {s : Duplex Byte Event (TxSite υ) Status Event (RxState υ') Status}
    (h : Misled s) (files : List File) :
    ¬ Settles (txParty P crc tcbs) (rxParty P crc rcbs) s (Agreed files) := by
  rintro ⟨⟨k, hbound⟩, hend⟩
  obtain ⟨j, t, hrun, hstuck⟩ := exists_stuck hbound
  have hleft := (hend j t hrun hstuck).1
  rcases h.run hrun with ⟨v, hv, -⟩ | ⟨v, hv, -⟩ | hv
  · rw [hleft] at hv
    cases hv
  · rw [hleft] at hv
    cases hv
  · rw [hleft] at hv
    cases hv

end LateStart

/-- Once the receiver has timed out, no batch gets through: the transmitter can
only return a time-out. -/
theorem lateStart_fails {υ υ' : Type} (P : Platform) (crc : CrcService) (tcbs : TxCallbacks υ)
    (rcbs : RxCallbacks υ') (files : List File) (u : υ) (u' : υ') (k : ℕ) (hpos : 1 ≤ k)
    (hk : k < maxRetries.toNat) :
    (∃ s, Delayed (txParty P crc tcbs) (rxParty P crc rcbs) k (start tcbs u u') s) ∧
    ∀ s, Delayed (txParty P crc tcbs) (rxParty P crc rcbs) k (start tcbs u u') s →
      ¬ Settles (txParty P crc tcbs) (rxParty P crc rcbs) s (Agreed files) ∧
      ∀ j t st, PatientRun (txParty P crc tcbs) (rxParty P crc rcbs) j s t →
        t.left.next = .done st → st = .errorTimeout := by
  have hk' : k ≤ 9 := Nat.le_of_lt_succ hk
  constructor
  · exact exists_lateStart P crc tcbs rcbs u u' hk'
  · intro s hs
    have hmisled := (requested_of_delayed hk' hs).misled hpos
    refine ⟨hmisled.not_settles files, ?_⟩
    intro j t st hrun hdone
    rcases hmisled.run hrun with ⟨v, hv, -⟩ | ⟨v, hv, -⟩ | hv
    · rw [hdone] at hv
      cases hv
    · rw [hdone] at hv
      cases hv
    · rw [hdone] at hv
      exact Next.done.inj hv

/-! ### One time-out -/

def oneFile : List File := [⟨[0x61], [1, 2, 3]⟩]

theorem lateStart_fails_once :
    ∃ s, Delayed (txParty platform32 referenceCrc (batchCallbacks oneFile))
        (rxParty platform32 referenceCrc acceptingFiles) 1 (start (batchCallbacks oneFile) () ()) s ∧
      ∀ j t st, PatientRun (txParty platform32 referenceCrc (batchCallbacks oneFile))
        (rxParty platform32 referenceCrc acceptingFiles) j s t →
        t.left.next = .done st → st = .errorTimeout := by
  obtain ⟨⟨s, hs⟩, hall⟩ := lateStart_fails platform32 referenceCrc (batchCallbacks oneFile)
    acceptingFiles oneFile () () 1 (by decide) (by decide)
  exact ⟨s, hs, (hall s hs).2⟩

/-- One file, and a receiver that has timed out once. -/
theorem not_settles_oneFile :
    ∃ s, Delayed (txParty platform32 referenceCrc (batchCallbacks oneFile))
        (rxParty platform32 referenceCrc acceptingFiles) 1 (start (batchCallbacks oneFile) () ()) s ∧
      ¬ Settles (txParty platform32 referenceCrc (batchCallbacks oneFile))
        (rxParty platform32 referenceCrc acceptingFiles) s (Agreed oneFile) := by
  obtain ⟨s, hs⟩ := exists_lateStart platform32 referenceCrc (batchCallbacks oneFile)
    acceptingFiles () () (by decide : 1 ≤ 9)
  exact ⟨s, hs, ((requested_of_delayed (by decide) hs).misled (by decide)).not_settles oneFile⟩

end ZephyrModem.Ymodem
