import ZephyrModem.Reactive.Cancel
import ZephyrModem.Zmodem.Model

/-!
# Cancelled reads in ZMODEM

The readers of headers and subpackets fail with -1 in both cases.
-/

namespace ZephyrModem.Zmodem
open ZephyrModem.Reactive ZephyrModem.Transfer

/-- The escape reader tells its caller of a cancelled read, but -1 and -2 are one
result for both callers. -/
theorem readHeader_cancel (crc : CrcService) (rub : Bool) (h : HeaderSite) :
    readHeader crc rub h .cancel = .done none ∧ readHeader crc rub h .timeout = .done none := by
  cases h with
  | bin crc32 buf esc => cases esc <;> exact ⟨rfl, rfl⟩
  | pad | padOrZdle | zdle | format | hex buf => exact ⟨rfl, rfl⟩

theorem readSubpacketRx_cancel (crc : CrcService) (maxLen : ℕ) (isCrc32 : Bool) (p : PacketSite) :
    readSubpacketRx crc maxLen isCrc32 p .cancel = .done none ∧
      readSubpacketRx crc maxLen isCrc32 p .timeout = .done none := by
  cases p with
  | data buf esc => cases esc <;> exact ⟨rfl, rfl⟩
  | check buf ender c esc => cases esc <;> exact ⟨rfl, rfl⟩

section Cancel

variable {υ : Type} (P : Platform) (crc : CrcService)

section Receive

variable (stale : List Byte → List Byte) (cbs : RxCallbacks υ)

theorem receiveStep_timeout (s : RxState υ) :
    ∃ es st, st ≠ .errorCancel ∧ receiveStep P crc stale cbs s .timeout = ⟨es, .done st⟩ ∧
      receiveStep P crc stale cbs s .cancel = ⟨es, .done st⟩ := by
  obtain ⟨site, u⟩ := s
  cases site with
  | header h =>
    obtain ⟨hc, ht⟩ := readHeader_cancel crc true h
    refine ⟨[], .errorTimeout, by decide, ?_, ?_⟩
    · simp only [receiveStep, readHeaderRx, ht, continueAt, onHeader]
    · simp only [receiveStep, readHeaderRx, hc, continueAt, onHeader]
  | fileInfo c p =>
    obtain ⟨hc, ht⟩ := readSubpacketRx_cancel crc 1024 c p
    refine ⟨[], .errorIo, by decide, ?_, ?_⟩
    · simp only [receiveStep, ht, continueAt, onFileInfo]
    · simp only [receiveStep, hc, continueAt, onFileInfo]
  | fileHeader f h =>
    obtain ⟨hc, ht⟩ := readHeader_cancel crc true h
    refine ⟨(callFileEnd cbs f.info .errorTimeout u).1, .errorTimeout, by decide, ?_, ?_⟩
    · simp only [receiveStep, readHeaderRx, ht, continueAt, onFileHeader]
    · simp only [receiveStep, readHeaderRx, hc, continueAt, onFileHeader]
  | data f c p =>
    obtain ⟨hc, ht⟩ := readSubpacketRx_cancel crc 1024 c p
    refine ⟨(callFileEnd cbs f.info .errorIo u).1, .errorIo, by decide, ?_, ?_⟩
    · simp only [receiveStep, ht, continueAt, onData]
    · simp only [receiveStep, hc, continueAt, onData]

theorem not_receive_honours (s : RxState υ) :
    ¬ HonoursCancel (receiveStep P crc stale cbs) Event.IsData (· = .errorCancel) s := by
  obtain ⟨es, st, -, ht, hc⟩ := receiveStep_timeout P crc stale cbs s
  refine not_honoursCancel_of_timeouts (fun _ => True) trivial (hc.trans ht.symm)
    (fun _ _ _ _ => trivial) ?_
  intro s st' _ hst
  obtain ⟨es, st, hne, ht, -⟩ := receiveStep_timeout P crc stale cbs s
  rw [ht] at hst
  cases hst
  exact hne

end Receive

section Transmit

variable (uninit : ℕ → Byte) (cbs : TxCallbacks υ)

theorem transmitStep_timeout (s : TxSite υ) :
    ∃ es st, st ≠ .errorCancel ∧ transmitStep P crc uninit cbs s .timeout = ⟨es, .done st⟩ ∧
      transmitStep P crc uninit cbs s .cancel = ⟨es, .done st⟩ := by
  cases s with
  | zrinit h u =>
    obtain ⟨hc, ht⟩ := readHeader_cancel crc false h
    exact ⟨[], .errorTimeout, by decide, by simp [transmitStep, readHeaderTx, ht, txContinueAt],
      by simp [transmitStep, readHeaderTx, hc, txContinueAt]⟩
  | zfin h =>
    obtain ⟨hc, ht⟩ := readHeader_cancel crc false h
    exact ⟨[], .ok, by decide, by simp [transmitStep, readHeaderTx, ht, txContinueAt],
      by simp [transmitStep, readHeaderTx, hc, txContinueAt]⟩
  | zrpos v h =>
    obtain ⟨hc, ht⟩ := readHeader_cancel crc false h
    exact ⟨[], .errorTimeout, by decide, by simp [transmitStep, readHeaderTx, ht, txContinueAt],
      by simp [transmitStep, readHeaderTx, hc, txContinueAt]⟩
  | nextZrinit v h =>
    obtain ⟨hc, ht⟩ := readHeader_cancel crc false h
    exact ⟨[], .errorTimeout, by decide, by simp [transmitStep, readHeaderTx, ht, txContinueAt],
      by simp [transmitStep, readHeaderTx, hc, txContinueAt]⟩

theorem not_transmit_honours (s : TxSite υ) :
    ¬ HonoursCancel (transmitStep P crc uninit cbs) Event.IsData (· = .errorCancel) s := by
  obtain ⟨es, st, -, ht, hc⟩ := transmitStep_timeout P crc uninit cbs s
  refine not_honoursCancel_of_timeouts (fun _ => True) trivial (hc.trans ht.symm)
    (fun _ _ _ _ => trivial) ?_
  intro s st' _ hst
  obtain ⟨es, st, hne, ht, -⟩ := transmitStep_timeout P crc uninit cbs s
  rw [ht] at hst
  cases hst
  exact hne

end Transmit

end Cancel

end ZephyrModem.Zmodem
