import ZephyrModem.Ymodem.Storage
import ZephyrModem.Ymodem.Completeness
import ZephyrModem.Ymodem.DeadLine
import ZephyrModem.Zmodem.Storage
import ZephyrModem.Zmodem.Completeness
import ZephyrModem.Zmodem.DeadLine

/-!
# The batch receivers side by side

`xmodem_receive` gives up when `data_cb` fails. The two batch receivers do not
look at the results of `on_file_start` and `on_data`; what they report is right
exactly when the stream does not go on to the end of the file or of the batch.
Both report a file as received well when its end is signalled; neither compares
what it has handed over with the announced size. When the sender is gone, the
time-outs of `read_byte` are all that they can count on.
-/

namespace ZephyrModem
open ZephyrModem.Reactive ZephyrModem.Transfer

/-! ### Storage failures -/

/-- Storage failures are never reported as success, for any pattern of results and
on any stream, exactly when the stream ends no file and no batch after a failed call,
and in YMODEM no `on_data` call fails. -/
theorem storage_guarantee_iff {υ : Type} (P : Platform) (crc : CrcService)
    (stale : List UInt8 → List UInt8) (ycbs : Ymodem.RxCallbacks υ) (zcbs : Zmodem.RxCallbacks υ)
    (userData : υ) (reads : List (ReadResult UInt8)) :
    (Ymodem.StoresSafely P crc ycbs userData reads ↔
      Ymodem.FailuresStop P crc ycbs userData reads) ∧
    (Zmodem.StoresSafely P crc stale zcbs userData reads ↔
      Zmodem.FailuresStop P crc stale zcbs userData reads) :=
  ⟨Ymodem.storesSafely_iff_failuresStop P crc ycbs userData reads,
    Zmodem.storesSafely_iff_failuresStop P crc stale zcbs userData reads⟩

/-- A storage that cannot open its file. -/
def refusingStorage : Ymodem.RxCallbacks Unit where
  onFileStart := some fun _ u => (-1, u)
  onData := some fun _ _ _ u => (0, u)
  onFileEnd := some fun _ _ u => u

/-- The file cannot be opened, the peer ends it and the batch, and the receiver
returns OK. -/
theorem not_storesSafely_refusingStorage :
    ¬ Ymodem.StoresSafely platform32 referenceCrc refusingStorage ()
      ((Ymodem.packet referenceCrc 0 (Ymodem.block0Payload Ymodem.oneByteFile) ++
        Ymodem.ending referenceCrc).map .ok) := by
  have hfirst := Ymodem.feed_block0 platform32 referenceCrc refusingStorage
    Ymodem.oneByteFile_fits ()
  have hend := Ymodem.feed_ending platform32 referenceCrc refusingStorage
    ⟨0, .data ⟨Ymodem.oneByteFile, 1, 0⟩, (callFileStart refusingStorage Ymodem.oneByteFile ()).2⟩
    ⟨Ymodem.oneByteFile, 1, 0⟩ rfl
  intro hsafe
  have hreceived : Ymodem.received platform32 referenceCrc refusingStorage ()
      ((Ymodem.packet referenceCrc 0 (Ymodem.block0Payload Ymodem.oneByteFile) ++
        Ymodem.ending referenceCrc).map .ok) =
      (feed (Ymodem.receiveStep platform32 referenceCrc refusingStorage) (Ymodem.ymodemReceive ()).next
        (Ymodem.packet referenceCrc 0 (Ymodem.block0Payload Ymodem.oneByteFile) ++
          Ymodem.ending referenceCrc)).after (Ymodem.ymodemReceive ()).events := rfl
  unfold Ymodem.StoresSafely at hsafe
  rw [hreceived, feed_append, hfirst] at hsafe
  have hreturned := hsafe.returned
  rw [Out.after_next, Out.after_next] at hreturned
  refine hreturned hend (.onFileStart Ymodem.oneByteFile (-1)) ?_ ?_
  · simp [Ymodem.ymodemReceive, callFileStart, refusingStorage]
  · exact (by decide : (-1 : ℤ) ≠ 0)

/-! ### Truncated files -/

/-- What is reported as received well is complete, on each input stream, exactly
when every signalled end comes after all of the file. -/
theorem complete_reports_iff {υ : Type} (P : Platform) (crc : CrcService)
    (stale : List UInt8 → List UInt8) (start : FileInfo → υ → ℤ × υ)
    (data : List UInt8 → ℕ → ℕ → υ → ℤ × υ) (yfinish : FileInfo → Ymodem.Status → υ → υ)
    (zfinish : FileInfo → Zmodem.Status → υ → υ) (userData : υ) (reads : List (ReadResult UInt8)) :
    (ReportsComplete .ok
        (Ymodem.received P crc (fileCallbacks start data yfinish) userData reads).events ↔
      Ymodem.EndsFilled P crc (fileCallbacks start data yfinish) userData reads) ∧
    ((ReportsComplete .ok
        (Zmodem.received P crc stale (fileCallbacks start data zfinish) userData reads).events ∧
      Zmodem.PositionsMatch P crc stale (fileCallbacks start data zfinish) userData reads) ↔
      Zmodem.EndsFilled P crc stale (fileCallbacks start data zfinish) userData reads) :=
  ⟨Ymodem.reportsComplete_iff P crc start data yfinish userData reads,
    Zmodem.reportsComplete_iff P crc stale start data zfinish userData reads⟩

/-- A file of one byte is announced and ended at once, and reported as received
well. -/
theorem not_reportsComplete_emptied_file :
    ¬ ReportsComplete .ok (Ymodem.received platform32 referenceCrc Ymodem.acceptingFiles ()
      ((Ymodem.packet referenceCrc 0 (Ymodem.block0Payload Ymodem.oneByteFile) ++
        [Xmodem.eot, Xmodem.eot]).map .ok)).events := by
  have hfirst := Ymodem.feed_block0 platform32 referenceCrc Ymodem.acceptingFiles
    Ymodem.oneByteFile_fits ()
  have hlog : (Ymodem.received platform32 referenceCrc Ymodem.acceptingFiles ()
      ((Ymodem.packet referenceCrc 0 (Ymodem.block0Payload Ymodem.oneByteFile) ++
        [Xmodem.eot, Xmodem.eot]).map .ok)).events =
      [.write Xmodem.charC, .write Xmodem.ack, .write Xmodem.charC,
        .onFileStart Ymodem.oneByteFile 0, .write Xmodem.nak, .write Xmodem.ack] ++
      .onFileEnd Ymodem.oneByteFile .ok :: [.write Xmodem.charC] := by
    change ((feed (Ymodem.receiveStep platform32 referenceCrc Ymodem.acceptingFiles)
      (Ymodem.ymodemReceive ()).next (Ymodem.packet referenceCrc 0
        (Ymodem.block0Payload Ymodem.oneByteFile) ++ [Xmodem.eot, Xmodem.eot])).after _).events = _
    rw [feed_append, hfirst]
    rfl
  intro hcomplete
  have hstored := hcomplete _ _ _ hlog (by decide)
  exact absurd hstored (by decide)

/-! ### Dead lines -/

/-- Whatever bytes come before the line is dead, `ymodem_receive` and `zmodem_receive` return,
and with an error unless the bytes hold the end of the session. -/
theorem receivers_return {υ υ' : Type} (P : Platform) (crc : CrcService)
    (stale : List UInt8 → List UInt8) (ycbs : Ymodem.RxCallbacks υ) (zcbs : Zmodem.RxCallbacks υ')
    (yuser : υ) (zuser : υ') (bytes : List UInt8) :
    (∃ k st,
      (run (Ymodem.receiveStep P crc ycbs) (Ymodem.ymodemReceive yuser).next
        (bytes.map .ok ++ List.replicate k .timeout)).next = .done st ∧
      (¬ Ymodem.HoldsBatchEnd crc bytes → st ≠ .ok)) ∧
    ∃ k st,
      (run (Zmodem.receiveStep P crc stale zcbs) (Zmodem.zmodemReceive crc zuser).next
        (bytes.map .ok ++ List.replicate k .timeout)).next = .done st ∧
      (¬ Zmodem.HoldsZfin crc bytes → st ≠ .ok) := by
  constructor
  · obtain ⟨k, st, hrun⟩ := Ymodem.returns_after P crc ycbs yuser bytes
    refine ⟨k, st, hrun, ?_⟩
    rintro hnone rfl
    exact hnone (Ymodem.holdsBatchEnd_of_ok P crc ycbs yuser hrun)
  · obtain ⟨k, st, hrun⟩ := Zmodem.returns_after P crc stale zcbs zuser bytes
    refine ⟨k, st, hrun, ?_⟩
    rintro hnone rfl
    exact hnone (Zmodem.holdsZfin_of_ok P crc stale zcbs zuser hrun)

end ZephyrModem
