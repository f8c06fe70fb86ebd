import ZephyrModem.Xmodem.RetryLimit
import ZephyrModem.Ymodem.RetryLimit

/-!
# The retry limits of the receivers

Both limits hold as long as every rejected packet is counted and compared with the
limit. The branches that do not compare, or do not count, let a damaged stream go on
for ever.
-/

namespace ZephyrModem
open ZephyrModem.Reactive

/-- Not more than the limit and one more packet are rejected in a row, in `xmodem_receive`
while no rejection leaves the counter above the limit untested, and in the data phase of
`ymodem_receive` while none comes after a purge. -/
theorem retry_limits {υ : Type} (P : Platform) (crc : CrcService) (xcbs : Xmodem.RxCallbacks υ)
    (cfg : Xmodem.Config) (ycbs : Ymodem.RxCallbacks υ) (userData : υ)
    (xreads yreads : List (ReadResult UInt8))
    (hx : ∀ v ∈ visits (Xmodem.receiveStep P crc xcbs cfg) (Xmodem.xmodemReceive cfg userData).next
      xreads, Xmodem.rejects v = true → Xmodem.WithinLimit cfg v.1)
    (hy : ∀ v ∈ visits (Ymodem.receiveStep P crc ycbs) (Ymodem.ymodemReceive userData).next yreads,
      Ymodem.rejects v = true → v.1.site ≠ .purge) :
    Xmodem.rejectedInARow P crc xcbs cfg userData xreads ≤ cfg.maxRetries.toNat + 1 ∧
    Ymodem.rejectedInARow P crc ycbs userData yreads ≤ Ymodem.maxRetries.toNat + 1 :=
  ⟨Xmodem.rejectedInARow_le P crc xcbs cfg userData xreads hx,
    Ymodem.rejectedInARow_le P crc ycbs userData yreads hy⟩

/-- Silence until the limits are reached, in YMODEM after Block 0. -/
theorem retry_limits_silence :
    Xmodem.rejectedInARow platform32 referenceCrc Xmodem.acceptingStorage ⟨.crc, 1⟩ ()
        [.timeout, .timeout] ≤ 2 ∧
    Ymodem.rejectedInARow platform32 referenceCrc Ymodem.acceptingFiles ()
      ((Ymodem.packet referenceCrc 0 (Ymodem.block0Payload Ymodem.oneByteFile)).map .ok ++
        List.replicate 11 .timeout) ≤ 11 := by
  refine retry_limits platform32 referenceCrc Xmodem.acceptingStorage ⟨.crc, 1⟩
    Ymodem.acceptingFiles () _ _ (by decide) ?_
  have hwait := congrArg Out.next (Ymodem.feed_block0 platform32 referenceCrc
    Ymodem.acceptingFiles Ymodem.oneByteFile_fits ())
  unfold feed at hwait
  have hheader : ∀ v ∈ visits (Ymodem.receiveStep platform32 referenceCrc Ymodem.acceptingFiles)
      (.wait ⟨.header, ⟨0, .data ⟨Ymodem.oneByteFile, 1, 0⟩, ()⟩⟩) (List.replicate 11 .timeout),
      v.1.site ≠ .purge := by decide
  intro v hv hreject
  rw [visits_append, hwait] at hv
  rcases List.mem_append.mp hv with hpacket | hsilence
  · obtain ⟨pre, post, hreads, -⟩ := exists_of_mem_visits _ hpacket
    have hmem : v.2 ∈ (Ymodem.packet referenceCrc 0
        (Ymodem.block0Payload Ymodem.oneByteFile)).map ReadResult.ok := by
      rw [hreads]
      simp
    obtain ⟨b, -, hb⟩ := List.mem_map.mp hmem
    exact absurd hb (Ymodem.rejects_read hreject b)
  · exact hheader v hsilence

/-- The default limit is 10, and after twelve damaged packets both functions ask for more. -/
theorem not_retry_limits :
    ¬ (Xmodem.rejectedInARow platform32 referenceCrc Xmodem.acceptingStorage Xmodem.configInit ()
        (List.replicate 12 Xmodem.damagedPacket).flatten ≤ Xmodem.configInit.maxRetries.toNat + 1) ∧
    ¬ (Ymodem.rejectedInARow platform32 referenceCrc Ymodem.acceptingFiles ()
        ((Ymodem.packet referenceCrc 0 (Ymodem.block0Payload Ymodem.oneByteFile)).map .ok ++
          (List.replicate 12 Ymodem.damagedPacket).flatten) ≤ Ymodem.maxRetries.toNat + 1) := by
  have hblock0 := Ymodem.feed_block0 platform32 referenceCrc Ymodem.acceptingFiles
    Ymodem.oneByteFile_fits ()
  have hwait := congrArg Out.next hblock0
  have hx := (Xmodem.damagedPackets_rejected platform32 referenceCrc Xmodem.acceptingStorage
    Xmodem.configInit () 12).2
  have hy := (Ymodem.damagedPackets_rejected platform32 referenceCrc Ymodem.acceptingFiles ()
    hwait rfl 12).2
  have hxlimit : Xmodem.configInit.maxRetries.toNat = 10 := rfl
  have hylimit : Ymodem.maxRetries.toNat = 10 := rfl
  constructor
  · omega
  · omega

end ZephyrModem
