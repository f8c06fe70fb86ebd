import ZephyrModem.Counter
import ZephyrModem.Reactive.Transcript
import ZephyrModem.Ymodem.SessionLength

/-!
# What `ymodem_transmit` writes, between what it reads

Whatever the replies are, the transcript is that of one whole file after another and of
a last one as far as it got. A function that gives up does so right behind a read.
-/

namespace ZephyrModem.Ymodem
open ZephyrModem.Reactive ZephyrModem.Transfer
open ZephyrModem.Xmodem (Byte Read soh stx eot ack nak can charC)

abbrev Items := List (Item Read Event)

def sent (bs : List Byte) : Items := (writeBytes bs).map .event

/-- A block with what was read from the file for it and the replies to its packet. -/
structure SentBlock where
  block : TxBlock
  data : List Byte
  res : ℤ
  replies : List Read
  deriving Repr, DecidableEq

/-- The reads for the start byte before it, the blocks, and the reply to EOT, or to both. -/
structure SentFile where
  info : FileInfo
  silent : List Read
  blocks : List SentBlock
  eotReply : Read
  secondReply : Option Read
  deriving Repr, DecidableEq

/-- A reply on which the packet goes out again. -/
def Unanswered (r : Read) : Prop := r ≠ .ok ack ∧ r ≠ .ok can

section Items

variable (crc : CrcService)

/-- The packet as often as it has been replied to. -/
def attempts (b : TxBlock) (replies : List Read) : Items :=
  replies.flatMap fun r => sent (packet crc b.blockNum b.payload) ++ [.read r]

def SentBlock.items (idx : ℕ) (b : SentBlock) : Items :=
  .event (.readData idx b.block.fileOffset b.block.readBytes b.data b.res) ::
    attempts crc b.block b.replies

/-- From `get_file_info` up to Block 0, and to the second request. -/
def asked (idx : ℕ) (silent : List Read) : Items :=
  .event (.getFileInfo idx) :: silent.map .read

def announced (idx : ℕ) (silent : List Read) (block0 : List Byte) : Items :=
  asked idx silent ++ .read (.ok charC) :: sent (packet crc 0 block0)

def opened (idx : ℕ) (silent : List Read) (block0 : List Byte) : Items :=
  announced crc idx silent block0 ++ [.read (.ok ack), .read (.ok charC)]

def blockItems (idx : ℕ) (silent : List Read) (block0 : List Byte) (blocks : List SentBlock) : Items :=
  opened crc idx silent block0 ++ blocks.flatMap (SentBlock.items crc idx)

def SentFile.items (idx : ℕ) (f : SentFile) : Items :=
  blockItems crc idx f.silent (block0Payload f.info) f.blocks ++
    (sent [eot] ++ .read f.eotReply :: (f.secondReply.map fun r => sent [eot] ++ [.read r]).getD [])

end Items

/-! ### What is right about a file -/

/-- Block `i` of a file of `size` bytes: its place, its number and its buffer. -/
structure SentBlock.Fits (size i : ℕ) (b : SentBlock) : Prop where
  more : 1024 * i < size
  fileOffset : b.block.fileOffset = 1024 * i
  blockNum : b.block.blockNum = UInt8.ofNat (i + 1)
  readBytes : b.block.readBytes = min (size - 1024 * i) (txBlockSize (size - 1024 * i))
  payload : b.block.payload.length = txBlockSize (size - 1024 * i)
  filled : Filled b.block.readBytes b.data b.res b.block.payload

/-- Acknowledged at the tenth attempt at the latest. -/
def SentBlock.Acked (b : SentBlock) : Prop :=
  ∃ rs, b.replies = rs ++ [.ok ack] ∧ (∀ r ∈ rs, Unanswered r) ∧ rs.length < 10

structure AskedFor (silent : List Read) : Prop where
  few : silent.length < 10
  silent : ∀ r ∈ silent, r ≠ .ok charC ∧ r ≠ .ok can

/-- Blocks from the first on, all of them acknowledged. -/
def Settled (size : ℕ) (blocks : List SentBlock) : Prop :=
  ∀ i (h : i < blocks.length), blocks[i].Fits size i ∧ blocks[i].Acked

/-- A whole file, announced by `get_file_info` for `idx`. -/
structure SentFile.Whole {υ : Type} (cbs : TxCallbacks υ) (idx : ℕ) (f : SentFile) : Prop where
  info : ∃ u, (cbs.getFileInfo idx u).1 = 0 ∧ (cbs.getFileInfo idx u).2.1 = f.info
  name : f.info.filename ≠ []
  asked : AskedFor f.silent
  settled : Settled f.info.size f.blocks
  count : f.blocks.length = blocksFor f.info.size
  second : f.secondReply.isSome ↔ f.eotReply = .ok nak

section Standing

variable {υ : Type} (P : Platform) (crc : CrcService) (cbs : TxCallbacks υ)

/-- The locals come from `get_file_info`. -/
def Fetched (v : TxLocals υ) : Prop :=
  ∃ u, (cbs.getFileInfo v.fileIdx u).1 = v.hasFile ∧ (cbs.getFileInfo v.fileIdx u).2.1 = v.info

/-- A part of a file that ends with a read. -/
inductive Part (idx : ℕ) : TxSite υ → Items → Prop
  | startC {v : TxLocals υ} {silent : List Read} {retries : Byte} (hidx : v.fileIdx = idx)
    (hv : Fetched cbs v) (hasked : AskedFor silent) (hlen : silent.length = retries.toNat) :
    Part idx (.startC v retries) (asked idx silent)
  | ackBlock0 {v : TxLocals υ} {silent : List Read} (hidx : v.fileIdx = idx) (hv : Fetched cbs v)
    (hasked : AskedFor silent) : Part idx (.ackBlock0 v) (announced crc idx silent v.block0)
  | secondC {v : TxLocals υ} {silent : List Read} (hidx : v.fileIdx = idx) (hv : Fetched cbs v)
    (hfile : v.HasFile) (hasked : AskedFor silent) :
    Part idx (.secondC v) (announced crc idx silent v.block0 ++ [.read (.ok ack)])
  | reply {v : TxLocals υ} {silent : List Read} {blocks : List SentBlock} {b : SentBlock}
    {retries : Byte} (hidx : v.fileIdx = idx) (hv : Fetched cbs v) (hfile : v.HasFile)
    (hasked : AskedFor silent) (hblocks : Settled v.info.size blocks)
    (hb : b.Fits v.info.size blocks.length) (hreplies : ∀ r ∈ b.replies, Unanswered r)
    (hlen : b.replies.length = retries.toNat) (hfew : retries < maxRetries) :
    Part idx (.reply v b.block retries)
      (blockItems crc idx silent v.block0 blocks ++
        (b.items crc idx ++ sent (packet crc b.block.blockNum b.block.payload)))
  | eotReply {v : TxLocals υ} {silent : List Read} {blocks : List SentBlock} (hidx : v.fileIdx = idx)
    (hv : Fetched cbs v) (hfile : v.HasFile) (hasked : AskedFor silent)
    (hblocks : Settled v.info.size blocks) (hcount : blocks.length = blocksFor v.info.size) :
    Part idx (.eotReply v) (blockItems crc idx silent v.block0 blocks ++ sent [eot])
  | secondEotReply {v : TxLocals υ} {silent : List Read} {blocks : List SentBlock}
    (hidx : v.fileIdx = idx) (hv : Fetched cbs v) (hfile : v.HasFile) (hasked : AskedFor silent)
    (hblocks : Settled v.info.size blocks) (hcount : blocks.length = blocksFor v.info.size) :
    Part idx (.secondEotReply v)
      (blockItems crc idx silent v.block0 blocks ++ (sent [eot] ++ .read (.ok nak) :: sent [eot]))

/-- Why a read ends the transmission. -/
def Refused : TxSite υ → Read → Status → Prop
  | .startC _ retries, r, st => r = .ok can ∧ st = .errorCancel ∨
      r ≠ .ok charC ∧ r ≠ .ok can ∧ retries.toNat = 9 ∧ st = .errorTimeout
  | .ackBlock0 _, r, st => r ≠ .ok ack ∧ st = .errorTimeout
  | .secondC _, r, st => r ≠ .ok charC ∧ st = .errorTimeout
  | .reply _ _ retries, r, st => r = .ok can ∧ st = .errorCancel ∨
      Unanswered r ∧ retries.toNat = 9 ∧ st = .errorTimeout
  | .eotReply _, _, _ | .secondEotReply _, _, _ => False

/-- What follows the whole files. -/
def Rest (idx : ℕ) : Next (TxSite υ) Status → Items → Prop
  | .wait s, tr => Part crc cbs idx s tr
  | .done .ok, tr => ∃ silent, AskedFor silent ∧
      (∃ u, ¬ ((cbs.getFileInfo idx u).1 = 0 ∧ (cbs.getFileInfo idx u).2.1.filename ≠ [])) ∧
      tr = announced crc idx silent (List.replicate 128 0) ++ [.read (.ok ack)]
  | .done st, tr => ∃ s tr' r, Part crc cbs idx s tr' ∧ Refused s r st ∧ tr = tr' ++ [.read r]

/-- The transcript of whole files and what follows them. -/
def Stands (tr : Items) (n : Next (TxSite υ) Status) : Prop :=
  ∃ (files : List SentFile) (rest : Items),
    (∀ i (h : i < files.length), files[i].Whole cbs (P.toSize i)) ∧
    Rest crc cbs (P.toSize files.length) n rest ∧
    tr = (files.mapIdx fun i f => f.items crc (P.toSize i)).flatten ++ rest

variable {P crc cbs}

/-! ### Blocks -/

theorem settled_nil (size : ℕ) : Settled size [] := fun i h => absurd h (Nat.not_lt_zero i)

theorem Settled.snoc {size : ℕ} {blocks : List SentBlock} (h : Settled size blocks) {b : SentBlock}
    (hb : b.Fits size blocks.length) (hacked : b.Acked) : Settled size (blocks ++ [b]) := by
  intro i hi
  rw [List.length_append, List.length_singleton] at hi
  by_cases hlast : i = blocks.length
  · subst hlast
    simpa using ⟨hb, hacked⟩
  · rw [List.getElem_append_left (by omega)]
    exact h i (by omega)

/-- Where the block loop stands behind so many blocks. -/
theorem Settled.count {size : ℕ} {blocks : List SentBlock} (h : Settled size blocks)
    (hend : ¬ min (1024 * blocks.length) size < size) : blocks.length = blocksFor size := by
  unfold blocksFor
  by_cases hnone : blocks.length = 0
  · omega
  · have hlast := (h (blocks.length - 1) (by omega)).1.more
    omega

theorem blockItems_snoc (idx : ℕ) (silent : List Read) (block0 : List Byte) (blocks : List SentBlock)
    (b : SentBlock) : blockItems crc idx silent block0 (blocks ++ [b]) =
      blockItems crc idx silent block0 blocks ++ b.items crc idx := by
  rw [blockItems, blockItems, List.flatMap_append, List.flatMap_singleton, List.append_assoc]

theorem attempts_snoc (b : TxBlock) (rs : List Read) (r : Read) :
    attempts crc b (rs ++ [r]) = attempts crc b rs ++ (sent (packet crc b.blockNum b.payload) ++
      [.read r]) := by
  rw [attempts, attempts, List.flatMap_append, List.flatMap_singleton]

/-- The reply to the packet is read. -/
theorem items_reply (idx : ℕ) (b : SentBlock) (r : Read) (more : Items) :
    (b.items crc idx ++ sent (packet crc b.block.blockNum b.block.payload)) ++ .read r :: more =
      ({ b with replies := b.replies ++ [r] } : SentBlock).items crc idx ++ more := by
  simp only [SentBlock.items, attempts_snoc, List.cons_append, List.append_assoc, List.nil_append]

variable (crc) in
/-- At the condition of the block loop. -/
theorem rest_nextBlock {v : TxLocals υ} (hsize : v.info.size < P.sizeMod) (hv : Fetched cbs v)
    (hfile : v.HasFile) {silent : List Read} (hasked : AskedFor silent) {blocks : List SentBlock}
    (hblocks : Settled v.info.size blocks) {fileOffset : ℕ}
    (hoffset : fileOffset = min (1024 * blocks.length) v.info.size) :
    Rest crc cbs v.fileIdx
      (nextBlock P crc cbs v fileOffset (UInt8.ofNat (blocks.length + 1))).next
      (blockItems crc v.fileIdx silent v.block0 blocks ++
        (nextBlock P crc cbs v fileOffset (UInt8.ofNat (blocks.length + 1))).events.map .event) := by
  by_cases hmore : fileOffset < v.info.size
  · have hplace : fileOffset = 1024 * blocks.length := by omega
    have hremaining : P.subSize v.info.size fileOffset = v.info.size - fileOffset :=
      P.subSize_of_le hsize (Nat.le_of_lt hmore)
    have hlen : (if v.info.size - fileOffset > txBlockSize (v.info.size - fileOffset) then
        txBlockSize (v.info.size - fileOffset) else v.info.size - fileOffset) =
          min (v.info.size - fileOffset) (txBlockSize (v.info.size - fileOffset)) := by
      split <;> omega
    have hdata := cbs.readData_length v.fileIdx fileOffset
      (min (v.info.size - fileOffset) (txBlockSize (v.info.size - fileOffset))) v.userData
    have hfilled := filled_block cbs v fileOffset
      (min (v.info.size - fileOffset) (txBlockSize (v.info.size - fileOffset)))
      (v.info.size - fileOffset) (Nat.min_le_right _ _)
    generalize hcall : cbs.readData v.fileIdx fileOffset
      (min (v.info.size - fileOffset) (txBlockSize (v.info.size - fileOffset))) v.userData = called
      at hdata hfilled
    obtain ⟨res, data, u⟩ := called
    dsimp only at hdata hfilled
    have hb : (⟨⟨fileOffset, UInt8.ofNat (blocks.length + 1),
        min (v.info.size - fileOffset) (txBlockSize (v.info.size - fileOffset)),
        data ++ (List.replicate (txBlockSize (v.info.size - fileOffset)) 0x1A).drop data.length⟩,
        data, res, []⟩ : SentBlock).Fits v.info.size blocks.length := by
      refine ⟨by omega, hplace, rfl, ?_, ?_, hfilled.toFilled⟩
      · rw [← hplace]
      · rw [List.length_append, List.length_drop, List.length_replicate, ← hplace]
        omega
    have hfew : (0 : Byte) < maxRetries := by decide
    simp only [nextBlock, if_pos hmore, hremaining, hlen, hcall, sendBlock, if_pos hfew,
      Out.after_next, Out.after_events]
    exact Part.reply (v := { v with userData := u }) rfl hv hfile hasked hblocks hb
      (fun _ hr => absurd hr List.not_mem_nil) rfl hfew
  · have hcount := hblocks.count (by omega)
    simp only [nextBlock, if_neg hmore]
    exact Part.eotReply rfl hv hfile hasked hblocks hcount

variable (crc) in
/-- At the condition of the retransmission loop. -/
theorem rest_sendBlock {v : TxLocals υ} (hv : Fetched cbs v) (hfile : v.HasFile) {silent : List Read}
    (hasked : AskedFor silent) {blocks : List SentBlock} (hblocks : Settled v.info.size blocks)
    {b : SentBlock} (hb : b.Fits v.info.size blocks.length) (hreplies : ∀ r ∈ b.replies, Unanswered r)
    {retries : Byte} (hlen : b.replies.length = retries.toNat) (hmore : retries < maxRetries) :
    Rest crc cbs v.fileIdx (sendBlock crc v b.block retries).next
      (blockItems crc v.fileIdx silent v.block0 blocks ++ (b.items crc v.fileIdx ++
        (sendBlock crc v b.block retries).events.map .event)) := by
  unfold sendBlock
  rw [if_pos hmore]
  exact Part.reply rfl hv hfile hasked hblocks hb hreplies hlen hmore

/-! ### The steps -/

theorem Fetched.size_lt {v : TxLocals υ} (hv : Fetched cbs v)
    (hsizes : ∀ i u, (cbs.getFileInfo i u).2.1.size < P.sizeMod) : v.info.size < P.sizeMod := by
  obtain ⟨u, -, hinfo⟩ := hv
  rw [← hinfo]
  exact hsizes _ _

theorem refused_rest {idx : ℕ} {s : TxSite υ} {tr : Items} {r : Read} {st : Status}
    (h : Part crc cbs idx s tr) (hst : st ≠ .ok) (hr : Refused s r st) :
    Rest crc cbs idx (.done st) (tr ++ [.read r]) := by
  cases st with
  | ok => exact absurd rfl hst
  | error => exact ⟨s, tr, r, h, hr, rfl⟩
  | errorTimeout => exact ⟨s, tr, r, h, hr, rfl⟩
  | errorCancel => exact ⟨s, tr, r, h, hr, rfl⟩
  | errorSequence => exact ⟨s, tr, r, h, hr, rfl⟩
  | errorCrc => exact ⟨s, tr, r, h, hr, rfl⟩
  | errorIo => exact ⟨s, tr, r, h, hr, rfl⟩

theorem not_lt_maxRetries {retries : Byte} (hlt : retries.toNat < 10) (h : ¬ retries + 1 < maxRetries) :
    retries.toNat = 9 := by
  have hsucc : (retries + 1).toNat = retries.toNat + 1 := toNat_succ (by omega)
  have hge : ¬ (retries + 1).toNat < 10 := h
  omega

theorem asked_snoc (idx : ℕ) (silent : List Read) (r : Read) :
    asked idx silent ++ [.read r] = asked idx (silent ++ [r]) := by
  rw [asked, asked, List.map_append, List.map_singleton, List.cons_append]

theorem AskedFor.snoc {silent : List Read} (h : AskedFor silent) {r : Read}
    (hr : r ≠ .ok charC ∧ r ≠ .ok can) (hlen : silent.length + 1 < 10) : AskedFor (silent ++ [r]) where
  few := by
    rw [List.length_append, List.length_singleton]
    exact hlen
  silent := by
    intro x hx
    rcases List.mem_append.mp hx with hx | hx
    · exact h.silent x hx
    · rw [List.mem_singleton.mp hx]
      exact hr

/-- A read while the start byte is awaited. -/
theorem rest_startC {v : TxLocals υ} {silent : List Read} {retries : Byte} (hv : Fetched cbs v)
    (hasked : AskedFor silent) (hlen : silent.length = retries.toNat) (r : Read) :
    Rest crc cbs v.fileIdx (transmitStep P crc cbs (.startC v retries) r).next
      (asked v.fileIdx silent ++
        .read r :: (transmitStep P crc cbs (.startC v retries) r).events.map .event) := by
  have hpart : Part crc cbs v.fileIdx (.startC v retries) (asked v.fileIdx silent) :=
    .startC rfl hv hasked hlen
  have hfew := hasked.few
  simp only [transmitStep]
  by_cases hc : r = .ok charC
  · rw [if_pos hc, hc]
    exact Part.ackBlock0 rfl hv hasked
  · by_cases hcan : r = .ok can
    · rw [if_neg hc, if_pos hcan]
      exact refused_rest hpart (by decide) (.inl ⟨hcan, rfl⟩)
    · rw [if_neg hc, if_neg hcan]
      by_cases hmore : retries + 1 < maxRetries
      · have hsucc : (retries + 1).toNat = retries.toNat + 1 := toNat_succ (by omega)
        have hlt : (retries + 1).toNat < 10 := hmore
        rw [if_pos hmore, List.map_nil, asked_snoc]
        refine Part.startC rfl hv (hasked.snoc ⟨hc, hcan⟩ (by omega)) ?_
        rw [List.length_append, List.length_singleton]
        omega
      · rw [if_neg hmore]
        exact refused_rest hpart (by decide)
          (.inr ⟨hc, hcan, not_lt_maxRetries (by omega) hmore, rfl⟩)

/-- The reply to Block 0. -/
theorem rest_ackBlock0 {v : TxLocals υ} {silent : List Read} (hv : Fetched cbs v)
    (hasked : AskedFor silent) (r : Read) :
    Rest crc cbs v.fileIdx (transmitStep P crc cbs (.ackBlock0 v) r).next
      (announced crc v.fileIdx silent v.block0 ++
        .read r :: (transmitStep P crc cbs (.ackBlock0 v) r).events.map .event) := by
  have hpart : Part crc cbs v.fileIdx (.ackBlock0 v) (announced crc v.fileIdx silent v.block0) :=
    .ackBlock0 rfl hv hasked
  simp only [transmitStep]
  by_cases hack : r = .ok ack
  · subst hack
    rw [if_neg (not_not.mpr rfl)]
    by_cases hfile : v.HasFile
    · rw [if_pos hfile]
      exact Part.secondC rfl hv hfile hasked
    · have hblock0 : v.block0 = List.replicate 128 0 := if_neg hfile
      obtain ⟨u, hzero, hinfo⟩ := hv
      rw [if_neg hfile, hblock0]
      refine ⟨silent, hasked, ⟨u, ?_⟩, rfl⟩
      rw [hzero, hinfo]
      exact hfile
  · rw [if_pos hack]
    exact refused_rest hpart (by decide) ⟨hack, rfl⟩

/-- The reply to the packet of a block. -/
theorem rest_reply {v : TxLocals υ} (hsize : v.info.size < P.sizeMod) {silent : List Read}
    {blocks : List SentBlock} {b : SentBlock} {retries : Byte} (hv : Fetched cbs v) (hfile : v.HasFile)
    (hasked : AskedFor silent) (hblocks : Settled v.info.size blocks)
    (hb : b.Fits v.info.size blocks.length) (hreplies : ∀ r ∈ b.replies, Unanswered r)
    (hlen : b.replies.length = retries.toNat) (hfew : retries < maxRetries) (r : Read) :
    Rest crc cbs v.fileIdx (transmitStep P crc cbs (.reply v b.block retries) r).next
      ((blockItems crc v.fileIdx silent v.block0 blocks ++
          (b.items crc v.fileIdx ++ sent (packet crc b.block.blockNum b.block.payload))) ++
        .read r :: (transmitStep P crc cbs (.reply v b.block retries) r).events.map .event) := by
  have hpart : Part crc cbs v.fileIdx (.reply v b.block retries) _ :=
    .reply rfl hv hfile hasked hblocks hb hreplies hlen hfew
  have hlt : retries.toNat < 10 := hfew
  simp only [transmitStep]
  by_cases hack : r = .ok ack
  · have hacked : SentBlock.Acked { b with replies := b.replies ++ [.ok ack] } :=
      ⟨b.replies, rfl, hreplies, by omega⟩
    have hsnoc := hblocks.snoc (b := { b with replies := b.replies ++ [.ok ack] })
      ⟨hb.more, hb.fileOffset, hb.blockNum, hb.readBytes, hb.payload, hb.filled⟩ hacked
    have hoffset : P.toSize (b.block.fileOffset + b.block.readBytes) =
        min (1024 * (blocks.length + 1)) v.info.size := by
      have hmore := hb.more
      have hread := hb.readBytes
      rw [hb.fileOffset]
      have hsum : 1024 * blocks.length + b.block.readBytes =
          min (1024 * (blocks.length + 1)) v.info.size := by
        rw [hread, txBlockSize]
        split <;> omega
      rw [hsum]
      exact P.toSize_of_lt (by omega)
    have hnum : b.block.blockNum + 1 = UInt8.ofNat (blocks.length + 1 + 1) := by
      rw [hb.blockNum, UInt8.ofNat_add (blocks.length + 1) 1]
      rfl
    have hlength : (blocks ++ [({ b with replies := b.replies ++ [.ok ack] } : SentBlock)]).length =
        blocks.length + 1 := List.length_append
    rw [← hlength] at hoffset hnum
    have hnext := rest_nextBlock crc hsize hv hfile hasked hsnoc hoffset
    rw [if_pos hack, hack, List.append_assoc, items_reply, ← List.append_assoc, ← blockItems_snoc, hnum]
    exact hnext
  · rw [if_neg hack]
    by_cases hcan : r = .ok can
    · rw [if_pos hcan]
      exact refused_rest hpart (by decide) (.inl ⟨hcan, rfl⟩)
    · rw [if_neg hcan]
      by_cases hmore : retries + 1 < maxRetries
      · have hsucc : (retries + 1).toNat = retries.toNat + 1 := toNat_succ (by omega)
        have hunanswered : ∀ x ∈ b.replies ++ [r], Unanswered x := by
          intro x hx
          rcases List.mem_append.mp hx with hx | hx
          · exact hreplies x hx
          · rw [List.mem_singleton.mp hx]
            exact ⟨hack, hcan⟩
        have hagain := rest_sendBlock crc hv hfile hasked hblocks
          (b := { b with replies := b.replies ++ [r] })
          ⟨hb.more, hb.fileOffset, hb.blockNum, hb.readBytes, hb.payload, hb.filled⟩ hunanswered
          (by rw [List.length_append, List.length_singleton]; omega) hmore
        rw [List.append_assoc, items_reply]
        exact hagain
      · rw [sendBlock, if_neg hmore]
        exact refused_rest hpart (by decide)
          (.inr ⟨⟨hack, hcan⟩, not_lt_maxRetries hlt hmore, rfl⟩)

theorem whole_file {v : TxLocals υ} (hv : Fetched cbs v) (hfile : v.HasFile) {silent : List Read}
    (hasked : AskedFor silent) {blocks : List SentBlock} (hblocks : Settled v.info.size blocks)
    (hcount : blocks.length = blocksFor v.info.size) {eotReply : Read} {secondReply : Option Read}
    (hsecond : secondReply.isSome ↔ eotReply = .ok nak) :
    SentFile.Whole cbs v.fileIdx ⟨v.info, silent, blocks, eotReply, secondReply⟩ where
  info := by
    obtain ⟨u, hzero, hinfo⟩ := hv
    exact ⟨u, hzero.trans hfile.1, hinfo⟩
  name := hfile.2
  asked := hasked
  settled := hblocks
  count := hcount
  second := hsecond

/-- One read goes on with the file, ends it, or ends the transmission. -/
theorem part_step (hsizes : ∀ i u, (cbs.getFileInfo i u).2.1.size < P.sizeMod) {idx : ℕ}
    {s : TxSite υ} {tr : Items} (h : Part crc cbs idx s tr) (r : Read) :
    Rest crc cbs idx (transmitStep P crc cbs s r).next
        (tr ++ .read r :: (transmitStep P crc cbs s r).events.map .event) ∨
      ∃ f u, SentFile.Whole cbs idx f ∧ tr ++ [.read r] = f.items crc idx ∧
        transmitStep P crc cbs s r = nextFile cbs (P.toSize (idx + 1)) u := by
  cases h with
  | startC hidx hv hasked hlen =>
    subst hidx
    exact .inl (rest_startC hv hasked hlen r)
  | ackBlock0 hidx hv hasked =>
    subst hidx
    exact .inl (rest_ackBlock0 hv hasked r)
  | @secondC v silent hidx hv hfile hasked =>
    subst hidx
    left
    have hpart : Part crc cbs v.fileIdx (.secondC v) _ := .secondC rfl hv hfile hasked
    simp only [transmitStep]
    by_cases hc : r = .ok charC
    · have hnext := rest_nextBlock crc (hv.size_lt hsizes) hv hfile hasked
        (settled_nil v.info.size) (Nat.zero_min _).symm
      rw [if_neg (not_not.mpr hc), hc]
      simp only [blockItems, opened, List.flatMap_nil, List.append_nil, List.append_assoc] at hnext ⊢
      exact hnext
    · rw [if_pos hc]
      exact refused_rest hpart (by decide) ⟨hc, rfl⟩
  | reply hidx hv hfile hasked hblocks hb hreplies hlen hfew =>
    subst hidx
    exact .inl (rest_reply (hv.size_lt hsizes) hv hfile hasked hblocks hb hreplies hlen hfew r)
  | @eotReply v silent blocks hidx hv hfile hasked hblocks hcount =>
    subst hidx
    have hblock0 : v.block0 = block0Payload v.info := if_pos hfile
    simp only [transmitStep]
    by_cases hnak : r = .ok nak
    · rw [if_pos hnak, hnak]
      left
      have hpart : Part crc cbs v.fileIdx (.secondEotReply v) _ :=
        .secondEotReply rfl hv hfile hasked hblocks hcount
      rw [List.append_assoc]
      exact hpart
    · rw [if_neg hnak]
      right
      refine ⟨⟨v.info, silent, blocks, r, none⟩, v.userData,
        whole_file hv hfile hasked hblocks hcount (by simp [hnak]), ?_, rfl⟩
      rw [SentFile.items, hblock0, List.append_assoc]
      rfl
  | @secondEotReply v silent blocks hidx hv hfile hasked hblocks hcount =>
    subst hidx
    have hblock0 : v.block0 = block0Payload v.info := if_pos hfile
    right
    refine ⟨⟨v.info, silent, blocks, .ok nak, some r⟩, v.userData,
      whole_file hv hfile hasked hblocks hcount (by simp), ?_, rfl⟩
    rw [SentFile.items, hblock0]
    simp

/-! ### A whole transmission -/

theorem rest_nextFile (idx : ℕ) (u : υ) :
    Rest crc cbs idx (nextFile cbs idx u).next ((nextFile cbs idx u).events.map .event) := by
  have hfetched : Fetched cbs (⟨idx, (cbs.getFileInfo idx u).1, (cbs.getFileInfo idx u).2.1,
      (cbs.getFileInfo idx u).2.2⟩ : TxLocals υ) := ⟨u, rfl, rfl⟩
  have hasked : AskedFor [] := ⟨by decide, fun r hr => nomatch hr⟩
  exact Part.startC rfl hfetched hasked rfl

theorem stands_step (hsizes : ∀ i u, (cbs.getFileInfo i u).2.1.size < P.sizeMod) {tr : Items}
    {s : TxSite υ} (r : Read) (h : Stands P crc cbs tr (.wait s)) :
    Stands P crc cbs (tr ++ .read r :: (transmitStep P crc cbs s r).events.map .event)
      (transmitStep P crc cbs s r).next := by
  obtain ⟨files, rest, hwhole, hrest, rfl⟩ := h
  rcases part_step hsizes hrest r with hgoes | ⟨f, u, hf, hitems, hnext⟩
  · refine ⟨files, _, hwhole, hgoes, ?_⟩
    rw [List.append_assoc]
  · have hidx : P.toSize (P.toSize files.length + 1) = P.toSize (files ++ [f]).length := by
      rw [List.length_append, List.length_singleton]
      exact Nat.mod_add_mod files.length P.sizeMod 1
    rw [hidx] at hnext
    refine ⟨files ++ [f], _, ?_, hnext ▸ rest_nextFile _ u, ?_⟩
    · intro i hi
      rw [List.length_append, List.length_singleton] at hi
      by_cases hlast : i = files.length
      · subst hlast
        simpa using hf
      · rw [List.getElem_append_left (by omega)]
        exact hwhole i (by omega)
    · rw [List.mapIdx_append, List.flatten_append]
      simp only [List.mapIdx_cons, List.mapIdx_nil, List.flatten_cons, List.flatten_nil,
        List.append_nil, Nat.zero_add, ← hitems, List.append_assoc, List.cons_append, List.nil_append]

end Standing

/-- For any replies, what `ymodem_transmit` has written and read is one whole file after
another, each block acknowledged before the next, and a part of one more; it ends with OK
behind the acknowledged Block 0 of zeros, and with an error right behind the read at fault. -/
theorem transmit_sessions {υ : Type} (P : Platform) (crc : CrcService) (cbs : TxCallbacks υ)
    (userData : υ) (hsizes : ∀ i u, (cbs.getFileInfo i u).2.1.size < P.sizeMod) (reads : List Read) :
    Stands P crc cbs
      ((ymodemTransmit cbs userData).events.map .event ++
        transcript (transmitStep P crc cbs) (ymodemTransmit cbs userData).next reads)
      (transmitted P crc cbs userData reads).next := by
  have hzero : P.toSize 0 = 0 := P.toSize_of_lt P.sizeMod_pos
  have hstart : Stands P crc cbs ((ymodemTransmit cbs userData).events.map .event)
      (ymodemTransmit cbs userData).next := by
    refine ⟨[], _, fun i hi => absurd hi (Nat.not_lt_zero i), ?_, rfl⟩
    rw [List.length_nil, hzero]
    exact rest_nextFile 0 userData
  exact transcript_invariant (transmitStep P crc cbs) (Stands P crc cbs)
    (fun tr s r h => stands_step hsizes r h) _ reads _ hstart

theorem size_batchCallbacks {sizeMod : ℕ} {files : List File} (hpos : 0 < sizeMod)
    (hfits : ∀ f ∈ files, f.contents.length < sizeMod) (i : ℕ) (u : Unit) :
    ((batchCallbacks files).getFileInfo i u).2.1.size < sizeMod := by
  cases hget : files[i]? with
  | none => simpa only [batchCallbacks, hget] using hpos
  | some f => simpa only [batchCallbacks, hget, fileInfo] using hfits f (List.mem_of_getElem? hget)

/-- One file, whose only block goes out twice. -/
theorem transmit_sessions_one_file : Stands platform32 referenceCrc (batchCallbacks [⟨[0x61], [1]⟩])
    ((ymodemTransmit (batchCallbacks [⟨[0x61], [1]⟩]) ()).events.map .event ++
      transcript (transmitStep platform32 referenceCrc (batchCallbacks [⟨[0x61], [1]⟩]))
        (ymodemTransmit (batchCallbacks [⟨[0x61], [1]⟩]) ()).next
        [.ok charC, .ok ack, .ok charC, .timeout, .ok ack, .ok nak, .timeout])
    (transmitted platform32 referenceCrc (batchCallbacks [⟨[0x61], [1]⟩]) ()
      [.ok charC, .ok ack, .ok charC, .timeout, .ok ack, .ok nak, .timeout]).next :=
  transmit_sessions platform32 referenceCrc (batchCallbacks [⟨[0x61], [1]⟩]) ()
    (size_batchCallbacks (by decide) (by decide)) _

end ZephyrModem.Ymodem
