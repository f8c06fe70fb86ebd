import ZephyrModem.Xmodem.Model

/-!
# Sending a file

The data callback that reads a file block by block, the blocks it makes
`xmodem_transmit` send, and what the transmitter does at each step of that file.
-/

namespace ZephyrModem.Xmodem
open ZephyrModem.Reactive

/-! ### The blocks of a file -/

/-- Block `i` of a file: its bytes, padded with `0x1A`. -/
def fileBlock (bs : ℕ) (file : List Byte) (i : ℕ) : List Byte :=
  let chunk := (file.drop (i * bs)).take bs
  chunk ++ List.replicate (bs - chunk.length) 0x1A

def blockCount (bs : ℕ) (file : List Byte) : ℕ := (file.length + bs - 1) / bs

def fileBlocks (bs : ℕ) (file : List Byte) : List (List Byte) :=
  (List.range (blockCount bs file)).map (fileBlock bs file)

/-- The file padded with `0x1A` to whole blocks. -/
def paddedFile (bs : ℕ) (file : List Byte) : List Byte :=
  file ++ List.replicate (blockCount bs file * bs - file.length) 0x1A

@[simp] theorem fileBlock_length (bs : ℕ) (file : List Byte) (i : ℕ) :
    (fileBlock bs file i).length = bs := by
  simp only [fileBlock, List.length_append, List.length_take, List.length_replicate]
  omega

theorem lt_blockCount_iff {bs : ℕ} (hbs : 0 < bs) (file : List Byte) (i : ℕ) :
    i < blockCount bs file ↔ i * bs < file.length := by
  rw [blockCount, Nat.lt_iff_add_one_le, Nat.le_div_iff_mul_le hbs, Nat.add_mul, Nat.one_mul]
  omega

theorem blockCount_mul_ge {bs : ℕ} (hbs : 0 < bs) (file : List Byte) :
    file.length ≤ blockCount bs file * bs := by
  have h := (lt_blockCount_iff hbs file (blockCount bs file)).not.mp (Nat.lt_irrefl _)
  omega

theorem fileBlock_full (bs : ℕ) (file : List Byte) (i : ℕ) (h : (i + 1) * bs ≤ file.length) :
    fileBlock bs file i = (file.drop (i * bs)).take bs := by
  have hlen : ((file.drop (i * bs)).take bs).length = bs := by
    rw [Nat.add_mul] at h
    simp only [List.length_take, List.length_drop]
    omega
  simp only [fileBlock, hlen, Nat.sub_self, List.replicate_zero, List.append_nil]

theorem flatten_blocks_full (bs : ℕ) (file : List Byte) (n : ℕ) (h : n * bs ≤ file.length) :
    ((List.range n).map (fileBlock bs file)).flatten = file.take (n * bs) := by
  induction n with
  | zero => simp
  | succ n ih =>
    have hn : n * bs ≤ file.length := by
      rw [Nat.add_mul] at h
      omega
    rw [List.range_succ, List.map_append, List.flatten_append, ih hn, List.map_singleton,
      List.flatten_singleton, fileBlock_full bs file n h, Nat.add_mul, Nat.one_mul, List.take_add]

theorem fileBlocks_flatten {bs : ℕ} (hbs : 0 < bs) (file : List Byte) :
    (fileBlocks bs file).flatten = paddedFile bs file := by
  rcases hn : blockCount bs file with - | n
  · have hlen : file.length = 0 := by
      have := blockCount_mul_ge hbs file
      rw [hn] at this
      omega
    obtain rfl := List.eq_nil_of_length_eq_zero hlen
    simp [fileBlocks, paddedFile, hn]
  · have hlt : n * bs < file.length := (lt_blockCount_iff hbs file n).mp (by omega)
    have hge : file.length ≤ (n + 1) * bs := by
      rw [← hn]
      exact blockCount_mul_ge hbs file
    have hge' : file.length ≤ n * bs + bs := by rwa [Nat.add_mul, Nat.one_mul] at hge
    have hrest : (file.drop (n * bs)).take bs = file.drop (n * bs) :=
      List.take_of_length_le (by rw [List.length_drop]; omega)
    rw [fileBlocks, hn, List.range_succ, List.map_append, List.flatten_append,
      flatten_blocks_full bs file n (by omega), List.map_singleton, List.flatten_singleton,
      fileBlock, hrest, ← List.append_assoc, List.take_append_drop, paddedFile, hn, Nat.add_mul,
      Nat.one_mul, List.length_drop]
    congr 2
    omega

theorem paddedFile_length {bs : ℕ} (hbs : 0 < bs) (file : List Byte) :
    (paddedFile bs file).length = blockCount bs file * bs := by
  have h := blockCount_mul_ge hbs file
  simp only [paddedFile, List.length_append, List.length_replicate]
  omega

/-! ### The file as a data callback -/

/-- The data callback of a transmitted file: it fills the block with the bytes
at the current offset, which it advances by what it read. -/
def fileCallbacks (file : List Byte) : TxCallbacks ℕ where
  dataCb _ buf offset :=
    let chunk := (file.drop offset).take buf.length
    (0, chunk ++ buf.drop chunk.length, offset + chunk.length)
  dataCb_length _ buf offset := by
    simp only [List.length_append, List.length_take, List.length_drop]
    omega

theorem fileCallbacks_block (bs : ℕ) (file : List Byte) (n : Byte) (i : ℕ) :
    (fileCallbacks file).dataCb n (List.replicate bs 0x1A) (i * bs) =
      (0, fileBlock bs file i, min ((i + 1) * bs) (max file.length (i * bs))) := by
  simp only [fileCallbacks, fileBlock, List.length_replicate, List.drop_replicate, Prod.mk.injEq,
    true_and, List.length_take, List.length_drop, Nat.add_mul, Nat.one_mul]
  omega

/-! ### The transmitter on a file -/

variable (P : Platform) (crc : CrcService) (cfg : Config) (file : List Byte)

theorem txBlockSize_pos : 0 < txBlockSize cfg := by
  unfold txBlockSize
  split <;> decide

theorem txBlockSize_cases : txBlockSize cfg = blockSize128 ∨ txBlockSize cfg = blockSize1024 := by
  unfold txBlockSize
  split <;> simp

theorem txBlockSize_dvd : txBlockSize cfg ∣ P.sizeMod := by
  have h : txBlockSize cfg ∣ 1024 := by
    rcases txBlockSize_cases cfg with h | h <;> rw [h] <;> decide
  exact Nat.dvd_trans h P.dvd_sizeMod

/-- Line 296 assigns the value that `block_size` has. -/
theorem blockSizeAt_eq (totalLen bytesSent : ℕ) :
    blockSizeAt P cfg totalLen bytesSent = txBlockSize cfg := by
  unfold blockSizeAt
  split
  · rename_i h
    simp [txBlockSize, h.2.2]
  · rfl

/-- Locals while block `i` waits for its reply. -/
def txLocals (c : Bool) (i : ℕ) : TxLocals ℕ where
  crcMode := c
  blockNum := UInt8.ofNat (i + 1)
  bytesSent := i * txBlockSize cfg
  userData := min ((i + 1) * txBlockSize cfg) file.length

/-- The transmitter waiting for the reply to block `i`. -/
def txReply (c : Bool) (i : ℕ) (retries : Byte) : TxSite ℕ :=
  .reply (txLocals cfg file c i) retries (fileBlock (txBlockSize cfg) file i)

def filePacket (c : Bool) (i : ℕ) : List Byte :=
  packet crc c (UInt8.ofNat (i + 1)) (fileBlock (txBlockSize cfg) file i)

def fileCall (i : ℕ) : Event := .dataCb (UInt8.ofNat (i + 1)) (fileBlock (txBlockSize cfg) file i) 0

abbrev txStep : Resume Read Event (TxSite ℕ) Status :=
  transmitStep P crc (fileCallbacks file) cfg file.length

theorem nextBlock_file (c : Bool) (i u : ℕ) (n : Byte) (hi : i * txBlockSize cfg < file.length)
    (hu : u = i * txBlockSize cfg) (hn : n = UInt8.ofNat (i + 1)) :
    nextBlock P crc (fileCallbacks file) cfg file.length ⟨c, n, i * txBlockSize cfg, u⟩ =
      (sendPacket crc cfg (txLocals cfg file c i) 0 (fileBlock (txBlockSize cfg) file i)).after
        [fileCall cfg file i] := by
  subst hu hn
  have hlen : file.length ≠ 0 := by omega
  have hmax : max file.length (i * txBlockSize cfg) = file.length := by omega
  simp only [nextBlock, hi, or_true, if_true, blockSizeAt_eq, fileCallbacks_block, hlen, false_and,
    and_false, if_false, hmax, Int.lt_irrefl, txLocals, fileCall]

theorem txStep_ack (c : Bool) (i : ℕ) (r : Byte) (hi : i < blockCount (txBlockSize cfg) file)
    (hfit : blockCount (txBlockSize cfg) file * txBlockSize cfg < P.sizeMod) :
    txStep P crc cfg file (txReply cfg file c i r) (.ok ack) =
      if i + 1 < blockCount (txBlockSize cfg) file then
        (sendPacket crc cfg (txLocals cfg file c (i + 1)) 0
          (fileBlock (txBlockSize cfg) file (i + 1))).after [fileCall cfg file (i + 1)]
      else sendEot cfg 0 := by
  have hbs := txBlockSize_pos cfg
  have hle : (i + 1) * txBlockSize cfg ≤ blockCount (txBlockSize cfg) file * txBlockSize cfg :=
    Nat.mul_le_mul_right _ hi
  have hsent : P.toSize (i * txBlockSize cfg + txBlockSize cfg) = (i + 1) * txBlockSize cfg := by
    rw [P.toSize_of_lt] <;> rw [← Nat.succ_mul]
    exact Nat.lt_of_le_of_lt hle hfit
  have hnum : UInt8.ofNat (i + 1) + 1 = UInt8.ofNat (i + 1 + 1) := by
    rw [UInt8.ofNat_add (i + 1) 1]
    rfl
  have hstep : txStep P crc cfg file (txReply cfg file c i r) (.ok ack) =
      nextBlock P crc (fileCallbacks file) cfg file.length
        ⟨c, UInt8.ofNat (i + 1 + 1), (i + 1) * txBlockSize cfg,
          min ((i + 1) * txBlockSize cfg) file.length⟩ := by
    simp only [txStep, transmitStep, txReply, if_true, fileBlock_length, txLocals, hsent, hnum]
  rw [hstep]
  by_cases hnext : i + 1 < blockCount (txBlockSize cfg) file
  · rw [if_pos hnext]
    have hlt := (lt_blockCount_iff hbs file (i + 1)).mp hnext
    exact nextBlock_file P crc cfg file c (i + 1) _ _ hlt (by omega) rfl
  · rw [if_neg hnext]
    have hge : ¬ (i + 1) * txBlockSize cfg < file.length :=
      fun h => hnext ((lt_blockCount_iff hbs file (i + 1)).mpr h)
    have hne : file.length ≠ 0 := by
      have := (lt_blockCount_iff hbs file i).mp hi
      omega
    simp only [nextBlock, hge, hne, or_self, if_false]

theorem txStep_again (c : Bool) (i : ℕ) (r : Byte) (x : Read)
    (hx : x = .timeout ∨ ∃ b, x = .ok b ∧ b ≠ ack ∧ b ≠ can) :
    txStep P crc cfg file (txReply cfg file c i r) x =
      sendPacket crc cfg (txLocals cfg file c i) (r + 1) (fileBlock (txBlockSize cfg) file i) := by
  rcases hx with rfl | ⟨b, rfl, hack, hcan⟩
  · rfl
  · simp only [txStep, transmitStep, txReply, hack, hcan, if_false]

theorem sendPacket_file (c : Bool) (i : ℕ) (r : Byte) (h : r < cfg.maxRetries) :
    sendPacket crc cfg (txLocals cfg file c i) r (fileBlock (txBlockSize cfg) file i) =
      ⟨writeBytes (filePacket crc cfg file c i), .wait (txReply cfg file c i r)⟩ := by
  simp only [sendPacket, h, if_true, txLocals, filePacket, txReply]

/-! ### What the transmitter does with one read -/

theorem sendPacket_file_cases (c : Bool) (i : ℕ) (r : Byte) :
    sendPacket crc cfg (txLocals cfg file c i) r (fileBlock (txBlockSize cfg) file i) =
      ⟨writeBytes (filePacket crc cfg file c i), .wait (txReply cfg file c i r)⟩ ∨
    sendPacket crc cfg (txLocals cfg file c i) r (fileBlock (txBlockSize cfg) file i) =
      ⟨sendByte can, .done .errorTimeout⟩ := by
  by_cases h : r < cfg.maxRetries
  · exact .inl (sendPacket_file crc cfg file c i r h)
  · exact .inr (if_neg h)

/-- While it waits for the start byte, the transmitter starts with the first
block, waits on, or fails. -/
theorem txStart_cases (r : Byte) (x : Read) (hfile : 0 < file.length) :
    (∃ c, txStep P crc cfg file (.start r 0) x =
      ⟨fileCall cfg file 0 :: writeBytes (filePacket crc cfg file c 0),
        .wait (txReply cfg file c 0 0)⟩) ∨
    txStep P crc cfg file (.start r 0) x = ⟨[], .wait (.start (r + 1) 0)⟩ ∨
    ∃ es st, st ≠ .ok ∧ txStep P crc cfg file (.start r 0) x = ⟨es, .done st⟩ := by
  have hstart : ∀ c, nextBlock P crc (fileCallbacks file) cfg file.length ⟨c, 1, 0, 0⟩ =
      ⟨fileCall cfg file 0 :: writeBytes (filePacket crc cfg file c 0),
        .wait (txReply cfg file c 0 0)⟩ ∨
      ∃ es st, st ≠ .ok ∧
        nextBlock P crc (fileCallbacks file) cfg file.length ⟨c, 1, 0, 0⟩ = ⟨es, .done st⟩ := by
    intro c
    have hfirst := nextBlock_file P crc cfg file c 0 0 1 (by omega) (by omega) rfl
    rw [Nat.zero_mul] at hfirst
    rcases sendPacket_file_cases crc cfg file c 0 0 with h | h <;>
      rw [h] at hfirst
    · exact .inl hfirst
    · exact .inr ⟨_, .errorTimeout, by decide, hfirst⟩
  have hagain : startAgain cfg r (0 : ℕ) = ⟨[], .wait (.start (r + 1) 0)⟩ ∨
      ∃ es st, st ≠ .ok ∧ startAgain cfg r (0 : ℕ) = ⟨es, .done st⟩ := by
    by_cases h : r + 1 > cfg.maxRetries
    · exact .inr ⟨_, .errorTimeout, by decide, if_pos h⟩
    · exact .inl (if_neg h)
  rcases transmitStep_start P crc (fileCallbacks file) cfg file.length r 0 x with
    ⟨b, -, -, hstep⟩ | ⟨-, hstep⟩ | ⟨-, hstep⟩ <;> rw [txStep, hstep]
  · rcases hstart (b = charC) with h | h
    · exact .inl ⟨b = charC, h⟩
    · exact .inr (.inr h)
  · exact .inr (.inr ⟨_, .errorCancel, by decide, rfl⟩)
  · exact .inr hagain

/-- At the reply to block `i` only an ACK makes the transmitter go on; otherwise
it repeats the packet, or fails. -/
theorem txReply_cases (c : Bool) (i : ℕ) (r : Byte) (x : Read)
    (hi : i < blockCount (txBlockSize cfg) file)
    (hfit : blockCount (txBlockSize cfg) file * txBlockSize cfg < P.sizeMod) :
    (x = .ok ack ∧ i + 1 < blockCount (txBlockSize cfg) file ∧
      txStep P crc cfg file (txReply cfg file c i r) x =
        ⟨fileCall cfg file (i + 1) :: writeBytes (filePacket crc cfg file c (i + 1)),
          .wait (txReply cfg file c (i + 1) 0)⟩) ∨
    (x = .ok ack ∧ i + 1 = blockCount (txBlockSize cfg) file ∧
      txStep P crc cfg file (txReply cfg file c i r) x = ⟨sendByte eot, .wait (.eotReply 0)⟩) ∨
    (x ≠ .ok ack ∧ txStep P crc cfg file (txReply cfg file c i r) x =
      ⟨writeBytes (filePacket crc cfg file c i), .wait (txReply cfg file c i (r + 1))⟩) ∨
    ∃ es st, st ≠ .ok ∧ txStep P crc cfg file (txReply cfg file c i r) x = ⟨es, .done st⟩ := by
  rcases transmitStep_reply P crc (fileCallbacks file) cfg file.length (txLocals cfg file c i) r
    (fileBlock (txBlockSize cfg) file i) x with ⟨rfl, -⟩ | ⟨es, -, hcancel⟩ | ⟨hne, hrepeat⟩
  · have hstep := txStep_ack P crc cfg file c i r hi hfit
    by_cases hlt : i + 1 < blockCount (txBlockSize cfg) file
    · rw [if_pos hlt] at hstep
      rcases sendPacket_file_cases crc cfg file c (i + 1) 0 with h | h <;>
        rw [h] at hstep
      · exact .inl ⟨rfl, hlt, hstep⟩
      · exact .inr (.inr (.inr ⟨_, .errorTimeout, by decide, hstep⟩))
    · rw [if_neg hlt] at hstep
      rcases sendEot_cases cfg 0 with h | h <;> rw [h] at hstep
      · exact .inr (.inl ⟨rfl, by omega, hstep⟩)
      · exact .inr (.inr (.inr ⟨_, .errorTimeout, by decide, hstep⟩))
  · exact .inr (.inr (.inr ⟨es, .errorCancel, by decide, hcancel⟩))
  · rcases sendPacket_file_cases crc cfg file c i (r + 1) with h | h <;> rw [h] at hrepeat
    · exact .inr (.inr (.inl ⟨hne, hrepeat⟩))
    · exact .inr (.inr (.inr ⟨_, .errorTimeout, by decide, hrepeat⟩))

/-- At the reply to EOT the transmitter ends, repeats EOT, or fails. -/
theorem txEot_cases (r : Byte) (x : Read) :
    txStep P crc cfg file (.eotReply r) x = ⟨[], .done .ok⟩ ∨
    txStep P crc cfg file (.eotReply r) x = ⟨sendByte eot, .wait (.eotReply (r + 1))⟩ ∨
    txStep P crc cfg file (.eotReply r) x = ⟨[], .done .errorTimeout⟩ := by
  by_cases hx : x = .ok ack
  · exact .inl (if_pos hx)
  · have hstep : txStep P crc cfg file (.eotReply r) x = sendEot cfg (r + 1) := if_neg hx
    rw [hstep]
    exact .inr (sendEot_cases cfg (r + 1))

end ZephyrModem.Xmodem
