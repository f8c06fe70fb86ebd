import ZephyrModem.Ymodem.Supply
import ZephyrModem.Zmodem.Supply

/-!
# Reads that fail or come back short

Neither transmitter looks at what `read_data` returns.
-/

namespace ZephyrModem
open ZephyrModem.Reactive ZephyrModem.Transfer

/-- In any run of either transmitter, what is sent for a file was read exactly when
every `read_data` returned as much as it was asked for. -/
theorem sends_only_reads_iff {υ : Type} (P : Platform) (crc : CrcService) (uninit : ℕ → UInt8)
    (cbs : TxCallbacks υ) (userData : υ) :
    (∀ reads, Supplied Ymodem.payloads (Ymodem.transmitted P crc cbs userData reads).events ↔
      ReadsWhole (Ymodem.transmitted P crc cbs userData reads).events) ∧
    ∀ reads, Supplied (Zmodem.payloads crc)
        (Zmodem.transmitted P crc uninit cbs userData reads).events ↔
      ReadsWhole (Zmodem.transmitted P crc uninit cbs userData reads).events :=
  ⟨Ymodem.supplied_iff_readsWhole P crc cbs userData,
    Zmodem.supplied_iff_readsWhole P crc uninit cbs userData⟩

/-! ### A file that cannot be read -/

/-- One file, `f`, of one byte, and no read succeeds. -/
def unreadableFile : TxCallbacks Unit where
  getFileInfo i u := if i = 0 then (0, ⟨[0x66], 1⟩, u) else (-1, ⟨[], 0⟩, u)
  readData _ _ _ u := (-1, [], u)
  readData_length := by
    intro idx offset len u
    exact Nat.zero_le _
  readData_result := by
    intro idx offset len u
    exact neg_one_le_length []

def ymodemAnswers : List (ReadResult UInt8) :=
  [.ok Xmodem.charC, .ok Xmodem.ack, .ok Xmodem.charC, .ok Xmodem.ack, .ok Xmodem.ack,
    .ok Xmodem.charC, .ok Xmodem.ack]

def zmodemAnswers : List (ReadResult UInt8) :=
  (Zmodem.hexHeader referenceCrc Zmodem.zrinit Zmodem.zeroFlags ++
    Zmodem.hexHeader referenceCrc Zmodem.zrpos Zmodem.zeroFlags ++
    Zmodem.hexHeader referenceCrc Zmodem.zrinit Zmodem.zeroFlags ++
    Zmodem.hexHeader referenceCrc Zmodem.zfin Zmodem.zeroFlags).map .ok

/-- Padding, or a byte that was never written, is sent for the byte that could not
be read, and the transmitter returns OK. -/
theorem not_supplied_unreadableFile :
    ((Ymodem.transmitted platform32 referenceCrc unreadableFile () ymodemAnswers).next = .done .ok ∧
      ¬ Supplied Ymodem.payloads
        (Ymodem.transmitted platform32 referenceCrc unreadableFile () ymodemAnswers).events) ∧
    (Zmodem.transmitted platform32 referenceCrc (fun _ => 0xA5) unreadableFile ()
        zmodemAnswers).next = .done .ok ∧
      ¬ Supplied (Zmodem.payloads referenceCrc) (Zmodem.transmitted platform32 referenceCrc
        (fun _ => 0xA5) unreadableFile () zmodemAnswers).events := by
  refine ⟨⟨by decide +kernel, ?_⟩, by decide +kernel, ?_⟩
  · rw [Ymodem.supplied_iff_readsWhole]
    intro h
    exact absurd (h 0 0 1 [] (-1) (by decide +kernel)) (by decide)
  · rw [Zmodem.supplied_iff_readsWhole]
    intro h
    exact absurd (h 0 0 1 [] (-1) (by decide +kernel)) (by decide)

end ZephyrModem
