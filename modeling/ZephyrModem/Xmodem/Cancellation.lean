import ZephyrModem.Reactive.Cancel
import ZephyrModem.Xmodem.Model

/-!
# Cancelled reads in XMODEM

`xmodem_receive` looks for -2 at every read but those of `purge_rx`,
`xmodem_transmit` only where it waits for the reply to a packet.
-/

namespace ZephyrModem.Xmodem
open ZephyrModem.Reactive

def Event.IsData : Event → Prop
  | .dataCb .. => True
  | .write _ => False

section Cancel

variable {υ : Type} (P : Platform) (crc : CrcService) (cfg : Config)

/-- Every read but those of `purge_rx` is honoured; the two number bytes and the two
CRC bytes are both read before the results are looked at. -/
theorem receive_honours_iff (cbs : RxCallbacks υ) (s : RxState υ) :
    HonoursCancel (receiveStep P crc cbs cfg) Event.IsData (fun r => r.status = .errorCancel) s ↔
      ∀ bad, s.site ≠ .purge bad := by
  have hcan : ∀ e ∈ (sendByte can ++ sendByte can : List Event), ¬ e.IsData := by
    intro e he
    rcases List.mem_append.mp he with he | he <;>
    · rw [List.mem_singleton.mp he]
      exact id
  obtain ⟨site, v⟩ := s
  cases site with
  | header => exact iff_of_true (honoursCancel_of_done rfl rfl hcan) (by simp)
  | secondCan => exact iff_of_true (honoursCancel_of_done rfl rfl (by simp)) (by simp)
  | blkNum len =>
    have hnext : ∀ i, checkNumbers v len .cancel i = rxCancelled := fun i => if_pos (.inl rfl)
    exact iff_of_true (honoursCancel_of_next rfl hnext rfl hcan) (by simp)
  | blkNumInv len r1 =>
    exact iff_of_true (honoursCancel_of_done (if_pos (.inr rfl)) rfl hcan) (by simp)
  | payload len n buf => exact iff_of_true (honoursCancel_of_done rfl rfl hcan) (by simp)
  | crcHi n buf =>
    have hnext : ∀ i, checkCrc P crc cbs v n buf .cancel i = rxCancelled :=
      fun i => if_pos (.inl rfl)
    exact iff_of_true (honoursCancel_of_next rfl hnext rfl hcan) (by simp)
  | crcLo n buf cr1 =>
    exact iff_of_true (honoursCancel_of_done (if_pos (.inr rfl)) rfl hcan) (by simp)
  | cksum n buf => exact iff_of_true (honoursCancel_of_done rfl rfl hcan) (by simp)
  | purge bad =>
    refine iff_of_false ?_ (fun h => h bad rfl)
    refine not_honoursCancel_of_timeouts (fun s => s.site = .header ∨ ∃ bad, s.site = .purge bad)
      (.inr ⟨bad, rfl⟩) rfl ?_ ?_
    · rintro ⟨site, v⟩ t (rfl | ⟨bad, rfl⟩) ht
      · rcases headerTimeout_cases cfg v with h | ⟨c, q, -, h⟩
        · cases (congrArg Out.next h).symm.trans ht
        · cases (congrArg Out.next h).symm.trans ht
          exact .inl rfl
      · rcases afterPurge_cases cfg bad v with h | h
        · cases (congrArg Out.next h).symm.trans ht
        · cases (congrArg Out.next h).symm.trans ht
          exact .inl rfl
    · rintro ⟨site, v⟩ r (rfl | ⟨bad, rfl⟩) hr
      · rcases headerTimeout_cases cfg v with h | ⟨c, q, -, h⟩
        · cases (congrArg Out.next h).symm.trans hr
          decide
        · cases (congrArg Out.next h).symm.trans hr
      · rcases afterPurge_cases cfg bad v with h | h
        · cases (congrArg Out.next h).symm.trans hr
          decide
        · cases (congrArg Out.next h).symm.trans hr

theorem transmitStep_timeout_done (cbs : TxCallbacks υ) (totalLen : ℕ) {s : TxSite υ} {st : Status}
    (h : (transmitStep P crc cbs cfg totalLen s .timeout).next = .done st) : st = .errorTimeout := by
  cases s with
  | start retries u =>
    simp only [transmitStep, startAgain] at h
    split at h <;> cases h
    rfl
  | reply v retries payload =>
    simp only [transmitStep, sendPacket] at h
    split at h <;> cases h
    rfl
  | eotReply retries =>
    simp only [transmitStep, sendEot, reduceCtorEq, if_false] at h
    split at h <;> cases h
    rfl

/-- Of the three reads, the one for the reply to a packet is honoured. -/
theorem transmit_honours_iff (cbs : TxCallbacks υ) (totalLen : ℕ) (s : TxSite υ) :
    HonoursCancel (transmitStep P crc cbs cfg totalLen) Event.IsData (· = .errorCancel) s ↔
      ∃ v retries payload, s = .reply v retries payload := by
  have hnot : ∀ s : TxSite υ, transmitStep P crc cbs cfg totalLen s .cancel =
      transmitStep P crc cbs cfg totalLen s .timeout →
      ¬ HonoursCancel (transmitStep P crc cbs cfg totalLen) Event.IsData (· = .errorCancel) s := by
    intro s hsame
    refine not_honoursCancel_of_timeouts (fun _ => True) trivial hsame (fun _ _ _ _ => trivial) ?_
    intro s st _ hst
    rw [transmitStep_timeout_done P crc cfg cbs totalLen hst]
    decide
  cases s with
  | start retries u => exact iff_of_false (hnot _ rfl) (by simp)
  | reply v retries payload =>
    refine iff_of_true (honoursCancel_of_done rfl rfl ?_) ⟨v, retries, payload, rfl⟩
    intro e he
    rcases List.mem_append.mp he with he | he <;>
    · rw [List.mem_singleton.mp he]
      exact id
  | eotReply retries => exact iff_of_false (hnot _ rfl) (by simp)

end Cancel

end ZephyrModem.Xmodem
