import ZephyrModem.Reactive.Cancel
import ZephyrModem.Ymodem.Model

/-!
# Cancelled reads in YMODEM

`ymodem_receive` looks for -2 where it waits for a packet, `ymodem_transmit`
nowhere.
-/

namespace ZephyrModem.Ymodem
open ZephyrModem.Reactive ZephyrModem.Transfer
open ZephyrModem.Xmodem (Byte Read soh stx eot ack nak can charC)

section Cancel

variable {υ : Type} (P : Platform) (crc : CrcService)

theorem requestAgain_done {v : RxLocals υ} {st : Status} (h : (requestAgain v).next = .done st) :
    st = .errorTimeout := by
  simp only [requestAgain] at h
  split at h <;> cases h
  rfl

theorem receiveStep_timeout_done (cbs : RxCallbacks υ) {s : RxState υ} {st : Status}
    (h : (receiveStep P crc cbs s .timeout).next = .done st) : st = .errorTimeout := by
  obtain ⟨site, v⟩ := s
  cases site with
  | header =>
    simp only [receiveStep, headerTimeout] at h
    split at h
    · exact requestAgain_done h
    · split at h <;> cases h
      rfl
  | secondEot =>
    simp only [receiveStep, endFile] at h
    split at h <;> cases h
  | purge =>
    simp only [receiveStep, afterPurge] at h
    split at h
    · exact requestAgain_done h
    · cases h
  | blkNum len => cases h
  | blkNumInv len n => cases h
  | payload len n buf => cases h
  | crcHi n buf e => cases h
  | crcLo n buf e hi => cases h

/-- Only the header reads are honoured. -/
theorem receive_honours_iff (cbs : RxCallbacks υ) (s : RxState υ) :
    HonoursCancel (receiveStep P crc cbs) Event.IsData (· = .errorCancel) s ↔ s.site = .header := by
  have hnot : ∀ s : RxState υ, receiveStep P crc cbs s .cancel = receiveStep P crc cbs s .timeout →
      ¬ HonoursCancel (receiveStep P crc cbs) Event.IsData (· = .errorCancel) s := by
    intro s hsame
    refine not_honoursCancel_of_timeouts (fun _ => True) trivial hsame (fun _ _ _ _ => trivial) ?_
    intro s st _ hst
    rw [receiveStep_timeout_done P crc cbs hst]
    decide
  have hwrites : ∀ {es : List Event}, Writes es → ∀ e ∈ es, ¬ e.IsData := by
    intro es hes e he
    obtain ⟨b, rfl⟩ := hes e he
    exact id
  obtain ⟨site, v⟩ := s
  cases site with
  | header =>
    refine iff_of_true ?_ rfl
    have hcan := (writes_sendByte can).append (writes_sendByte (κ := Status) can)
    cases hp : v.phase with
    | block0 =>
      have hstep : receiveStep P crc cbs ⟨.header, v⟩ .cancel =
          ⟨sendByte can ++ sendByte can, .done .errorCancel⟩ := by
        simp only [receiveStep, headerCancel, hp]
      exact honoursCancel_of_done hstep rfl (hwrites hcan)
    | data f =>
      have hstep : receiveStep P crc cbs ⟨.header, v⟩ .cancel =
          fileFails cbs (sendByte can ++ sendByte can) f .errorCancel v.userData := by
        simp only [receiveStep, headerCancel, hp]
      refine honoursCancel_of_done hstep rfl ?_
      intro e he
      rcases List.mem_append.mp he with he | he
      · exact hwrites hcan e he
      · rcases callFileEnd_events cbs f.info .errorCancel v.userData with h | h <;> rw [h] at he
        · cases he
        · rw [List.mem_singleton.mp he]
          exact id
  | secondEot => exact iff_of_false (hnot _ rfl) (by simp)
  | blkNum len => exact iff_of_false (hnot _ rfl) (by simp)
  | blkNumInv len n => exact iff_of_false (hnot _ rfl) (by simp)
  | payload len n buf => exact iff_of_false (hnot _ rfl) (by simp)
  | crcHi n buf e => exact iff_of_false (hnot _ rfl) (by simp)
  | crcLo n buf e hi => exact iff_of_false (hnot _ rfl) (by simp)
  | purge => exact iff_of_false (hnot _ rfl) (by simp)

theorem transmitStep_timeout_done (cbs : TxCallbacks υ) {s : TxSite υ} {st : Status}
    (h : (transmitStep P crc cbs s .timeout).next = .done st) : st = .errorTimeout := by
  cases s with
  | startC v retries =>
    simp only [transmitStep, reduceCtorEq, if_false] at h
    split at h <;> cases h
    rfl
  | ackBlock0 v =>
    cases h
    rfl
  | secondC v =>
    cases h
    rfl
  | reply v b retries =>
    simp only [transmitStep, reduceCtorEq, if_false, sendBlock] at h
    split at h <;> cases h
    rfl
  | eotReply v => cases h
  | secondEotReply v => cases h

theorem transmitStep_cancel (cbs : TxCallbacks υ) (s : TxSite υ) :
    transmitStep P crc cbs s .cancel = transmitStep P crc cbs s .timeout := by
  cases s <;> rfl

theorem not_transmit_honours (cbs : TxCallbacks υ) (s : TxSite υ) :
    ¬ HonoursCancel (transmitStep P crc cbs) Event.IsData (· = .errorCancel) s := by
  refine not_honoursCancel_of_timeouts (fun _ => True) trivial (transmitStep_cancel P crc cbs s)
    (fun _ _ _ _ => trivial) ?_
  intro s st _ hst
  rw [transmitStep_timeout_done P crc cbs hst]
  decide

end Cancel

end ZephyrModem.Ymodem
