import ZephyrModem.Console.Copy
import ZephyrModem.Ymodem.NoisyBatch

/-!
# The console's receiver on a noisy line

What is on the target after a batch has been sent to `modem rx y` over a line that garbles
packets and replies. What arrives goes through `console_read_byte`.
-/

namespace ZephyrModem.Console
open ZephyrModem.Storage ZephyrModem.Transfer ZephyrModem.Reactive
open ZephyrModem.Ymodem (TxSite RxState Noise Recoverable Garbled Sendable noisyTx timedRx betweenFiles
  batchArrivals)

/-- What both functions return if `k` Blocks 0 come through. -/
def noisyStatus (batch : List File) (k : ℕ) : Ymodem.Status :=
  if k ≤ batch.length then .errorTimeout else .ok

/-- The first `k` files of the batch are stored. -/
def NoisilyStored (P : Platform) (fs : FileSystem UInt8 Path) (settings : StorageSettings)
    (name : Option Path) (files : Files UInt8 Path) (batch : List File) (k : ℕ) {υ : Type}
    (t : Duplex UInt8 Ymodem.Event (TxSite υ) Ymodem.Status Ymodem.Event (ℕ × RxState State)
      Ymodem.Status) : Prop :=
  t.left = ⟨[], .done (noisyStatus batch k)⟩ ∧ t.right = ⟨[], .done (noisyStatus batch k)⟩ ∧
    storedFiles P fs settings name files t.rightLog = (batch.take k).foldl (put settings) files

variable {P : Platform} {fs : FileSystem UInt8 Path} {settings : StorageSettings}

/-- Which Block 0 is garbled first: that of file `k`, the last one, or none. -/
inductive FirstGarbled (crc : CrcService) (z : Noise) (batch : List File) (k : ℕ) : Prop
  | file {bs : List UInt8} (hk : k ≤ batch.length) (hblock0 : z.block0 k = some bs)
    (hgarbled : Garbled crc bs)
  | never (hk : k = batch.length + 1)

variable (fs settings) in
/-- One run over the noisy line to its end. -/
theorem reaches_noisyStored (crc : CrcService) {υ : Type} {tcbs : TxCallbacks υ}
    {batch : List File} {z : Noise} (hs : Serves P.sizeMod tcbs batch)
    (hbatch : ∀ f ∈ batch, Sendable P f) (hwidth : P.sizeBits ≤ P.ulongBits)
    (hrec : Recoverable crc z) {k : ℕ} (hbefore : ∀ i < k, z.block0 i = none)
    (hfirst : FirstGarbled crc z batch k) (name : Option Path) (files : Files UInt8 Path) (u : υ) :
    ∃ tl ll rl a, Reports (batch.take k) (rl.filterMap (Event.call .ok)) ∧
      ll.filterMap Event.wire = batchArrivals crc z batch k ∧
      Timed.Reaches (noisyTx P crc tcbs z) (timedRx P crc (ymodemRxCallbacks P fs settings))
        ⟨Ymodem.start tcbs u ⟨initialCtx name, files⟩, 0, 0⟩
        ⟨⟨⟨[], .done (noisyStatus batch k)⟩, ⟨[], .done (noisyStatus batch k)⟩, [], tl, ll, rl⟩,
          a, 0⟩ := by
  have hstarted := Ymodem.reaches_started crc tcbs (z := z) (P := P) (ymodemRxCallbacks P fs settings) u
    ⟨initialCtx name, files⟩
  cases hfirst with
  | @file bs hk hblock0 hgarbled =>
    have hlen : 0 + (batch.take k).length = k := by
      rw [List.length_take]
      omega
    obtain ⟨v, v', ll, es, hreports, hlog, hfiles⟩ := Ymodem.reaches_noisyFiles crc tcbs
      (ymodemOnFileStart fs settings) (ymodemOnFileData P fs settings) ymodemOnFileEnd hrec hs hbatch
      hwidth (batch.take k) 0 (List.take_prefix k batch) (by rwa [hlen]) u ⟨initialCtx name, files⟩
      [.getFileInfo 0] [.write Xmodem.charC]
    rw [hlen] at hfiles
    obtain ⟨tl, ll', es', a, hcalls, hlog', hrefused⟩ := Ymodem.reaches_refused crc tcbs (P := P)
      (ymodemRxCallbacks P fs settings) hblock0 hgarbled v v' ll ([.write Xmodem.charC] ++ es)
    rw [noisyStatus, if_pos hk]
    refine ⟨tl, ll', _, a, ?_, ?_, hstarted.trans (hfiles.trans hrefused)⟩
    · simpa [hcalls, Event.call] using hreports
    · rw [hlog', hlog, batchArrivals, Nat.min_eq_left hk, hblock0]
      rfl
  | never hk =>
    have hclean : ∀ i < 0 + batch.length, z.block0 i = none := fun i hi => hbefore i (by omega)
    obtain ⟨v, v', ll, es, hreports, hlog, hfiles⟩ := Ymodem.reaches_noisyFiles crc tcbs
      (ymodemOnFileStart fs settings) (ymodemOnFileData P fs settings) ymodemOnFileEnd hrec hs hbatch
      hwidth batch 0 (List.prefix_refl _) hclean u ⟨initialCtx name, files⟩ [.getFileInfo 0]
      [.write Xmodem.charC]
    rw [Nat.zero_add] at hfiles
    obtain ⟨ll', hlog', hover⟩ := Ymodem.reaches_allOver crc tcbs (P := P) (ymodemOnFileStart fs settings)
      (ymodemOnFileData P fs settings) ymodemOnFileEnd hs (hbefore _ (by omega)) v v' ll
      ([.write Xmodem.charC] ++ es)
    have hmore : ¬ k ≤ batch.length := by omega
    rw [noisyStatus, if_neg hmore, hk, List.take_of_length_le (Nat.le_succ _)]
    refine ⟨[], ll', _, 0, ?_, ?_, hstarted.trans (hfiles.trans hover)⟩
    · simpa [Event.call] using hreports
    · rw [hlog', hlog, batchArrivals, Nat.min_eq_right (Nat.le_succ _), hbefore _ (by omega),
        List.take_of_length_le (Nat.le_succ _)]
      rfl

/-- A line that cuts off a packet, garbles a reply and takes the header byte off the Block 0
of the second file. -/
def lostPackets : Noise := Ymodem.twoLost fun i => if i = 1 then some [0, 0xFF] else none

/-- What it lets through holds neither the default abort key nor CAN. -/
theorem quiet_lostPackets :
    ConsoleInput.Quiet ⟨false, true, 0x03⟩ (batchArrivals referenceCrc lostPackets twoFiles 1) := by
  refine quiet_of_forall ?_
  have hblocks : Ymodem.blockArrivals referenceCrc lostPackets 0 ⟨[0x66], [9]⟩ (Ymodem.blocksFor 1) 0 1 =
      [Xmodem.soh, 1, 0xFE, 9] ++ (Ymodem.packet referenceCrc 1 (Ymodem.blockAt [9] 0) ++
        (Ymodem.packet referenceCrc 1 (Ymodem.blockAt [9] 0) ++ [])) ++ [] := rfl
  have harrived : batchArrivals referenceCrc lostPackets twoFiles 1 =
      Ymodem.fileArrivals referenceCrc lostPackets 0 ⟨[0x66], [9]⟩ ++ [] ++ [0, 0xFF] := rfl
  simp only [harrived, Ymodem.fileArrivals, List.length_singleton, hblocks, Ymodem.packet,
    modemCrc16_reference]
  decide +kernel

end ZephyrModem.Console
