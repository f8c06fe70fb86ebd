import ZephyrModem.Xmodem.Cancellation
import ZephyrModem.Ymodem.Cancellation
import ZephyrModem.Zmodem.Cancellation

/-!
# Cancelled transfers

`read_byte` returns -2 when the user stops the transfer.
-/

namespace ZephyrModem
open ZephyrModem.Reactive

/-- The reads at which a transfer can be stopped, in every run of the six functions. -/
theorem cancel_honoured_iff {υ : Type} (P : Platform) (crc : CrcService) (cfg : Xmodem.Config)
    (totalLen : ℕ) (stale : List UInt8 → List UInt8) (uninit : ℕ → UInt8)
    (xrx : Xmodem.RxCallbacks υ) (xtx : Xmodem.TxCallbacks υ) (yrx : Ymodem.RxCallbacks υ)
    (zrx : Zmodem.RxCallbacks υ) (tx : Transfer.TxCallbacks υ) (userData : υ) :
    HonoursExactly (Xmodem.receiveStep P crc xrx cfg) Xmodem.Event.IsData
      (fun r => r.status = .errorCancel) (Xmodem.xmodemReceive cfg userData).next
      (fun s => ∀ bad, s.site ≠ .purge bad) ∧
    HonoursExactly (Xmodem.transmitStep P crc xtx cfg totalLen) Xmodem.Event.IsData
      (· = .errorCancel) (Xmodem.xmodemTransmit userData).next
      (fun s => ∃ v retries payload, s = .reply v retries payload) ∧
    HonoursExactly (Ymodem.receiveStep P crc yrx) Transfer.Event.IsData (· = .errorCancel)
      (Ymodem.ymodemReceive userData).next (fun s => s.site = .header) ∧
    HonoursExactly (Ymodem.transmitStep P crc tx) Transfer.Event.IsData (· = .errorCancel)
      (Ymodem.ymodemTransmit tx userData).next (fun _ => False) ∧
    HonoursExactly (Zmodem.receiveStep P crc stale zrx) Transfer.Event.IsData (· = .errorCancel)
      (Zmodem.zmodemReceive crc userData).next (fun _ => False) ∧
    HonoursExactly (Zmodem.transmitStep P crc uninit tx) Transfer.Event.IsData (· = .errorCancel)
      (Zmodem.zmodemTransmit crc userData).next (fun _ => False) := by
  refine ⟨?_, ?_, ?_, ?_, ?_, ?_⟩
  · intro reads s _
    exact Xmodem.receive_honours_iff P crc cfg xrx s
  · intro reads s _
    exact Xmodem.transmit_honours_iff P crc cfg xtx totalLen s
  · intro reads s _
    exact Ymodem.receive_honours_iff P crc yrx s
  · intro reads s _
    exact iff_of_false (Ymodem.not_transmit_honours P crc tx s) id
  · intro reads s _
    exact iff_of_false (Zmodem.not_receive_honours P crc stale zrx s) id
  · intro reads s _
    exact iff_of_false (Zmodem.not_transmit_honours P crc uninit tx s) id

/-- `zmodem_receive` returns `ZMODEM_ERROR_TIMEOUT` when its first read is cancelled. -/
theorem not_honoursCancels_first_read :
    ¬ HonoursCancels (Zmodem.receiveStep platform32 referenceCrc id (⟨none, none, none⟩ : Zmodem.RxCallbacks Unit))
      Transfer.Event.IsData (· = .errorCancel) (Zmodem.zmodemReceive referenceCrc ()).next := by
  intro h
  obtain ⟨k, es, r, hr, -, hrun⟩ := h [] ⟨.header .pad, ()⟩ rfl fun _ => .timeout
  have hstep : Zmodem.receiveStep platform32 referenceCrc id (⟨none, none, none⟩ : Zmodem.RxCallbacks Unit)
      ⟨.header .pad, ()⟩ .cancel = ⟨[], .done .errorTimeout⟩ := rfl
  rw [run_wait, hstep, run_done] at hrun
  cases hrun
  cases hr

end ZephyrModem
