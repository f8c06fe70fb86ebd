import ZephyrModem.Reactive.Duplex
import ZephyrModem.Ymodem.Block0
import ZephyrModem.Ymodem.Frames

/-!
# A batch sent by `ymodem_transmit` to `ymodem_receive`

The two functions run as processes joined by loss-free FIFO channels. One
complete run is built, file by file and block by block; by determinacy every
other patient run ends as it does.
-/

namespace ZephyrModem.Ymodem
open ZephyrModem.Reactive ZephyrModem.Reactive.Duplex ZephyrModem.Transfer
open ZephyrModem.Xmodem (Byte Read soh stx eot ack nak can charC)

/-! ### The batch -/

structure Sendable (P : Platform) (f : File) : Prop where
  name_ne_nil : f.name ≠ []
  name_length : f.name.length ≤ 100
  name_noNul : (0 : Byte) ∉ f.name
  size_lt : f.contents.length + 1024 < P.sizeMod

theorem Sendable.fits {P : Platform} {f : File} (h : Sendable P f)
    (hwidth : P.sizeBits ≤ P.ulongBits) : Fits P (fileInfo f) where
  name_ne_nil := h.name_ne_nil
  name_length := h.name_length
  name_noNul := h.name_noNul
  size_lt := by
    have := h.size_lt
    change f.contents.length < _
    omega
  size_le := by
    have hlt := h.size_lt
    have hle : P.sizeMod ≤ 2 ^ P.ulongBits := Nat.pow_le_pow_right (by decide) hwidth
    change f.contents.length ≤ 2 ^ P.ulongBits - 1
    omega

section RoundTrip

variable {υ υ' : Type} (P : Platform) (crc : CrcService) (tcbs : TxCallbacks υ)
  (rcbs : RxCallbacks υ')

def txParty : Party Byte Event (TxSite υ) Status := ⟨transmitStep P crc tcbs, Event.wire⟩

def rxParty : Party Byte Event (RxState υ') Status := ⟨receiveStep P crc rcbs, Event.wire⟩

def start (u : υ) (u' : υ') : Duplex Byte Event (TxSite υ) Status Event (RxState υ') Status :=
  Duplex.init (ymodemTransmit tcbs u) (ymodemReceive u')

/-- Both sides return OK and the receiver reports the batch. -/
def Agreed (files : List File)
    (s : Duplex Byte Event (TxSite υ) Status Event (RxState υ') Status) : Prop :=
  s.left = ⟨[], .done .ok⟩ ∧ s.right = ⟨[], .done .ok⟩ ∧
    Reports files (s.rightLog.filterMap (Event.call .ok))

/-! ### One packet -/

theorem reaches_packet {es : List Event} {k : Byte} {payload : List Byte}
    (hw : es.filterMap Event.wire = packet crc k payload)
    (hlen : payload.length = 128 ∨ payload.length = 1024) (n : Next (TxSite υ) Status)
    (v : RxLocals υ') (tl : List Byte) (ll rl : List Event) :
    Reaches (txParty P crc tcbs) (rxParty P crc rcbs)
      ⟨⟨es, n⟩, ⟨[], .wait ⟨.header, v⟩⟩, [], tl, ll, rl⟩
      ⟨⟨[], n⟩, ⟨[], (packetDone P rcbs v k payload).next⟩, [],
        tl ++ (packetDone P rcbs v k payload).events.filterMap Event.wire,
        ll ++ es, rl ++ (packetDone P rcbs v k payload).events⟩ := by
  refine (flushLeft es n _ [] tl ll rl).trans ?_
  have hbytes : [] ++ es.filterMap (txParty P crc tcbs).wire =
      (packet crc k payload).dropLast ++ crcLo (modemCrc16 crc payload) :: [] := by
    rw [List.nil_append, ← packet_eq_append, ← hw]
    rfl
  rw [hbytes]
  exact feedRight_last (Q := rxParty P crc rcbs) ⟨[], n⟩ [] tl (ll ++ es) rl
    (feed_packet_init P crc rcbs v k payload hlen) (receiveStep_lastRead P crc rcbs v k payload)

/-! ### The blocks of one file -/

/-- The block the transmitter builds at an offset inside the file. -/
def blockAt (contents : List Byte) (offset : ℕ) : List Byte :=
  let size := txBlockSize (contents.length - offset)
  let data := (contents.drop offset).take (min (contents.length - offset) size)
  data ++ (List.replicate size 0x1A).drop data.length

def bytesAt (contents : List Byte) (offset : ℕ) : ℕ :=
  min (contents.length - offset) (txBlockSize (contents.length - offset))

theorem txBlockSize_cases (n : ℕ) : txBlockSize n = 128 ∨ txBlockSize n = 1024 := by
  unfold txBlockSize
  split
  · exact .inr rfl
  · exact .inl rfl

theorem length_blockAt (contents : List Byte) (offset : ℕ) :
    (blockAt contents offset).length = txBlockSize (contents.length - offset) := by
  simp only [blockAt, List.length_append, List.length_take, List.length_drop,
    List.length_replicate]
  omega

theorem take_blockAt (contents : List Byte) (offset : ℕ) :
    (blockAt contents offset).take (bytesAt contents offset) =
      (contents.drop offset).take (bytesAt contents offset) := by
  have hlen : ((contents.drop offset).take (bytesAt contents offset)).length =
      bytesAt contents offset := by
    rw [List.length_take, List.length_drop]
    unfold bytesAt
    omega
  rw [blockAt]
  exact List.take_left' hlen

/-- The packets of `n` blocks from an offset on. -/
def blockPackets (crc : CrcService) (contents : List Byte) : ℕ → ℕ → Byte → List Byte
  | 0, _, _ => []
  | n + 1, offset, num => packet crc num (blockAt contents offset) ++
      blockPackets crc contents n (offset + bytesAt contents offset) (num + 1)

/-- What the transmitter sends for a file, and for a batch. -/
def fileStream (crc : CrcService) (f : File) : List Byte :=
  packet crc 0 (block0Payload (fileInfo f)) ++
    (blockPackets crc f.contents (blocksFor f.contents.length) 0 1 ++ [eot, eot])

def batchStream (crc : CrcService) (files : List File) : List Byte :=
  files.flatMap (fileStream crc) ++ packet crc 0 (List.replicate 128 0)

/-- What the receiver sends during a file, and during a batch. -/
def fileReplies (f : File) : List Byte :=
  Xmodem.ack :: charC :: (List.replicate (blocksFor f.contents.length) Xmodem.ack ++
    [nak, Xmodem.ack, charC])

def batchReplies (files : List File) : List Byte :=
  charC :: (files.flatMap fileReplies ++ [Xmodem.ack])

variable {P tcbs} {files : List File} {f : File}

theorem nextBlock_of_lt (hs : Serves P.sizeMod tcbs files) {v : TxLocals υ} {offset : ℕ} (num : Byte)
    (hf : files[v.fileIdx]? = some f) (hinfo : v.info = fileInfo f)
    (hsize : f.contents.length < P.sizeMod) (hlt : offset < f.contents.length) :
    ∃ u d res, nextBlock P crc tcbs v offset num =
      ⟨.readData v.fileIdx offset (bytesAt f.contents offset) d res ::
          writeBytes (packet crc num (blockAt f.contents offset)),
        .wait (.reply { v with userData := u }
          ⟨offset, num, bytesAt f.contents offset, blockAt f.contents offset⟩ 0)⟩ := by
  have hsub : P.subSize v.info.size offset = f.contents.length - offset := by
    rw [hinfo]
    exact P.subSize_of_le hsize (Nat.le_of_lt hlt)
  have hbytes : (if f.contents.length - offset > txBlockSize (f.contents.length - offset) then
      txBlockSize (f.contents.length - offset) else f.contents.length - offset) =
      bytesAt f.contents offset := by
    unfold bytesAt
    split <;> omega
  have hdata : ∀ u, (tcbs.readData v.fileIdx offset (bytesAt f.contents offset) u).2.1 =
      (f.contents.drop offset).take (bytesAt f.contents offset) := by
    intro u
    refine hs.contents _ f _ _ u hf ?_
    unfold bytesAt
    omega
  have hlt' : offset < v.info.size := by
    rw [hinfo]
    exact hlt
  refine ⟨(tcbs.readData v.fileIdx offset (bytesAt f.contents offset) v.userData).2.2,
    (f.contents.drop offset).take (bytesAt f.contents offset),
    (tcbs.readData v.fileIdx offset (bytesAt f.contents offset) v.userData).1, ?_⟩
  unfold nextBlock
  rw [if_pos hlt']
  simp only [hsub, hbytes, hdata]
  rfl

theorem writeLen_blockAt {g : FileLocals} {offset : ℕ} (hinfo : g.info = fileInfo f)
    (hoffset : g.fileOffset = offset) (hsize : f.contents.length + 1024 < P.sizeMod)
    (hlt : offset < f.contents.length) :
    writeLen P g (blockAt f.contents offset).length = bytesAt f.contents offset := by
  have hblock := txBlockSize_cases (f.contents.length - offset)
  have hsum : P.toSize (offset + txBlockSize (f.contents.length - offset)) =
      offset + txBlockSize (f.contents.length - offset) := P.toSize_of_lt (by omega)
  have hsub : P.subSize f.contents.length offset = f.contents.length - offset :=
    P.subSize_of_le (by omega) (Nat.le_of_lt hlt)
  unfold writeLen bytesAt
  rw [length_blockAt, hinfo, hoffset, fileInfo, hsum, hsub]
  simp only
  split <;> omega

variable (start : FileInfo → υ' → ℤ × υ') (data : List Byte → ℕ → ℕ → υ' → ℤ × υ')
  (finish : FileInfo → Status → υ' → υ')

theorem packetDone_blockAt {w : RxLocals υ'} {g : FileLocals} {offset : ℕ} (hw : w.phase = .data g)
    (hinfo : g.info = fileInfo f) (hoffset : g.fileOffset = offset)
    (hsize : f.contents.length + 1024 < P.sizeMod) (hlt : offset < f.contents.length) :
    ∃ res u, packetDone P (fileCallbacks start data finish) w g.expectedBlk
        (blockAt f.contents offset) =
      ⟨[.onData (blockAt f.contents offset) (bytesAt f.contents offset) offset res, .write ack],
        .wait ⟨.header, ⟨0, .data (g.next P (blockAt f.contents offset).length), u⟩⟩⟩ := by
  have hwl := writeLen_blockAt hinfo hoffset hsize hlt
  have hpos : 0 < bytesAt f.contents offset := by
    have := txBlockSize_cases (f.contents.length - offset)
    unfold bytesAt
    omega
  simp only [packetDone, hw, acceptBlock, if_true, callData, fileCallbacks, hwl, gt_iff_lt, hpos,
    hoffset]
  rw [← hoffset]
  exact ⟨_, _, rfl⟩

theorem fileOffset_next {g : FileLocals} {offset : ℕ} (hoffset : g.fileOffset = offset)
    (hsize : f.contents.length + 1024 < P.sizeMod)
    (hmore : offset + bytesAt f.contents offset < f.contents.length) :
    (g.next P (blockAt f.contents offset).length).fileOffset =
      offset + bytesAt f.contents offset := by
  -- more follows only behind a full block
  have hfull : bytesAt f.contents offset = (blockAt f.contents offset).length := by
    rw [length_blockAt]
    unfold bytesAt at hmore ⊢
    omega
  change P.toSize (g.fileOffset + _) = _
  rw [hoffset, ← hfull]
  exact P.toSize_of_lt (by omega)

/-- One block of a transfer: it is sent, reported and acknowledged. -/
theorem reaches_block (hs : Serves P.sizeMod tcbs files) {v : TxLocals υ}
    (hidx : files[v.fileIdx]? = some f) (hinfo : v.info = fileInfo f) {offset : ℕ}
    (hsize : f.contents.length + 1024 < P.sizeMod) (hlt : offset < f.contents.length)
    {w : RxLocals υ'} {g : FileLocals} (hw : w.phase = .data g) (hg : g.info = fileInfo f)
    (hoffset : g.fileOffset = offset) (ll rl : List Event) :
    ∃ u u₁ es res,
      es.filterMap Event.wire = packet crc g.expectedBlk (blockAt f.contents offset) ∧
      Reaches (txParty P crc tcbs) (rxParty P crc (fileCallbacks start data finish))
        ⟨nextBlock P crc tcbs v offset g.expectedBlk, ⟨[], .wait ⟨.header, w⟩⟩, [], [], ll, rl⟩
        ⟨nextBlock P crc tcbs { v with userData := u } (offset + bytesAt f.contents offset)
            (g.next P (blockAt f.contents offset).length).expectedBlk,
          ⟨[], .wait ⟨.header, ⟨0, .data (g.next P (blockAt f.contents offset).length), u₁⟩⟩⟩,
          [], [], ll ++ es, rl ++ [.onData (blockAt f.contents offset) (bytesAt f.contents offset)
            offset res, .write ack]⟩ := by
  obtain ⟨u, d, dres, hnext⟩ := nextBlock_of_lt crc hs g.expectedBlk hidx hinfo (by omega) hlt
  obtain ⟨res, u₁, hdone⟩ := packetDone_blockAt start data finish hw hg hoffset hsize hlt
  have hlen : (blockAt f.contents offset).length = 128 ∨
      (blockAt f.contents offset).length = 1024 := by
    rw [length_blockAt]
    exact txBlockSize_cases _
  have hbytes : bytesAt f.contents offset ≤ f.contents.length - offset := Nat.min_le_left _ _
  have hack : P.toSize (offset + bytesAt f.contents offset) =
      offset + bytesAt f.contents offset := P.toSize_of_lt (by omega)
  have hwire : (.readData v.fileIdx offset (bytesAt f.contents offset) d dres ::
      writeBytes (packet crc g.expectedBlk (blockAt f.contents offset)) :
        List Event).filterMap Event.wire =
      packet crc g.expectedBlk (blockAt f.contents offset) := wire_writeBytes _
  have hreply : (txParty P crc tcbs).resume (.reply { v with userData := u }
      ⟨offset, g.expectedBlk, bytesAt f.contents offset, blockAt f.contents offset⟩ 0)
      (.ok ack) = nextBlock P crc tcbs { v with userData := u }
        (offset + bytesAt f.contents offset)
        (g.next P (blockAt f.contents offset).length).expectedBlk := by
    simp only [txParty, transmitStep, if_true, hack]
    rfl
  have hpacket := reaches_packet P crc tcbs (fileCallbacks start data finish) hwire hlen
    (.wait (.reply { v with userData := u } ⟨offset, g.expectedBlk,
      bytesAt f.contents offset, blockAt f.contents offset⟩ 0)) w [] ll rl
  rw [hdone] at hpacket
  refine ⟨u, u₁, .readData v.fileIdx offset (bytesAt f.contents offset) d dres ::
    writeBytes (packet crc g.expectedBlk (blockAt f.contents offset)), res, hwire, ?_⟩
  rw [hnext, ← hreply]
  exact hpacket.trans (readsLeft _ _ Xmodem.ack _ _ _ _)

/-- What a transfer of blocks leads to: the transmitter sends its first EOT, the
receiver has reported the rest of the contents. -/
theorem reaches_blocks (hs : Serves P.sizeMod tcbs files) (hf : Sendable P f) (v : TxLocals υ)
    (hidx : files[v.fileIdx]? = some f) (hinfo : v.info = fileInfo f) (offset : ℕ)
    (hle : offset ≤ f.contents.length) (w : RxLocals υ') (g : FileLocals) (hw : w.phase = .data g)
    (hg : g.info = fileInfo f) (hoffset : offset < f.contents.length → g.fileOffset = offset)
    (ll rl : List Event) :
    ∃ u w' g' sent es, w'.phase = .data g' ∧ g'.info = fileInfo f ∧
      Covers offset (es.filterMap (Event.call .ok)) (f.contents.drop offset) ∧
      sent.filterMap Event.wire = blockPackets crc f.contents
        (blocksFor (f.contents.length - offset)) offset g.expectedBlk ∧
      es.filterMap Event.wire =
        List.replicate (blocksFor (f.contents.length - offset)) Xmodem.ack ∧
      Reaches (txParty P crc tcbs) (rxParty P crc (fileCallbacks start data finish))
        ⟨nextBlock P crc tcbs v offset g.expectedBlk, ⟨[], .wait ⟨.header, w⟩⟩, [], [], ll, rl⟩
        ⟨⟨sendByte eot, .wait (.eotReply { v with userData := u })⟩,
          ⟨[], .wait ⟨.header, w'⟩⟩, [], [], ll ++ sent, rl ++ es⟩ := by
  have hsize := hf.size_lt
  -- on the bytes left; the receiver's offset is the transmitter's until the last block
  induction hleft : f.contents.length - offset using Nat.strongRecOn
    generalizing v offset w g ll rl with
  | ind left ih =>
    subst hleft
    by_cases hlt : offset < f.contents.length
    · have hpos : 0 < bytesAt f.contents offset := by
        have := txBlockSize_cases (f.contents.length - offset)
        unfold bytesAt
        omega
      have hbytes : bytesAt f.contents offset ≤ f.contents.length - offset :=
        Nat.min_le_left _ _
      obtain ⟨u, u₁, first, res, hfirst, hblock⟩ :=
        reaches_block crc start data finish hs hidx hinfo hsize hlt hw hg (hoffset hlt) ll rl
      have hcount : blocksFor (f.contents.length - offset) =
          blocksFor (f.contents.length - (offset + bytesAt f.contents offset)) + 1 := by
        rw [blocksFor_succ (Nat.sub_pos_of_lt hlt), ← Nat.sub_sub]
        rfl
      obtain ⟨u₂, w', g', sent, es, hw', hg', hcover, hsent, hreplies, hrest⟩ := ih
        (f.contents.length - (offset + bytesAt f.contents offset)) (by omega)
        { v with userData := u } hidx hinfo (offset + bytesAt f.contents offset) (by omega)
        ⟨0, .data (g.next P (blockAt f.contents offset).length), u₁⟩ _ rfl hg
        (fileOffset_next (hoffset hlt) hsize) (ll ++ first)
        (rl ++ [.onData (blockAt f.contents offset) (bytesAt f.contents offset) offset res,
          .write ack]) rfl
      refine ⟨u₂, w', g', first ++ sent, .onData (blockAt f.contents offset)
        (bytesAt f.contents offset) offset res :: .write ack :: es, hw', hg', ?_, ?_, ?_, ?_⟩
      · have htake : ((f.contents.drop offset).take (bytesAt f.contents offset)).length =
            bytesAt f.contents offset := by
          rw [List.length_take, List.length_drop]
          omega
        rw [← List.take_append_drop (bytesAt f.contents offset) (f.contents.drop offset),
          List.drop_drop]
        have hcons := Covers.cons htake hcover
        simpa [Event.call, take_blockAt] using hcons
      · rw [List.filterMap_append, hfirst, hsent, hcount]
        rfl
      · rw [hcount, List.replicate_succ, ← hreplies]
        rfl
      · refine hblock.trans ?_
        simpa using hrest
    · have hend : f.contents.drop offset = [] := List.drop_of_length_le (by omega)
      have hnext : nextBlock P crc tcbs v offset g.expectedBlk =
          ⟨sendByte eot, .wait (.eotReply v)⟩ := by
        unfold nextBlock
        rw [hinfo]
        exact if_neg hlt
      have hnone : blocksFor (f.contents.length - offset) = 0 := by
        rw [Nat.sub_eq_zero_of_le (Nat.le_of_not_lt hlt)]
        rfl
      refine ⟨v.userData, w, g, [], [], hw, hg, ?_, ?_, ?_, ?_⟩
      · rw [hend]
        exact Covers.nil offset
      · rw [hnone]
        rfl
      · rw [hnone]
        rfl
      · rw [hnext, List.append_nil, List.append_nil]
        exact Reaches.refl _

/-! ### One file -/

/-- The receiver's locals between two files. -/
def idle (u : υ') : RxLocals υ' := ⟨0, .block0, u⟩

theorem packetDone_block0 (hf : Sendable P f) (hwidth : P.sizeBits ≤ P.ulongBits) (u : υ') :
    ∃ res u₁, packetDone P (fileCallbacks start data finish) (idle u) 0
        (block0Payload (fileInfo f)) =
      ⟨[.write ack, .write charC, .onFileStart (fileInfo f) res],
        .wait ⟨.header, ⟨0, .data ⟨fileInfo f, 1, 0⟩, u₁⟩⟩⟩ := by
  have haccept := acceptBlock0_block0Payload P (fileCallbacks start data finish) (hf.fits hwidth)
    (idle u)
  have hdone : packetDone P (fileCallbacks start data finish) (idle u) 0
      (block0Payload (fileInfo f)) =
        acceptBlock0 P (fileCallbacks start data finish) (idle u) (block0Payload (fileInfo f)) := by
    simp only [packetDone, idle, ne_eq, not_true_eq_false, if_false]
  exact ⟨_, _, hdone.trans haccept⟩

/-- Both sides between two files: the request is on the line, the transmitter
has fetched the information of the next file. -/
def between (tcbs : TxCallbacks υ) (i : ℕ) (u : υ) (u' : υ') (ll rl : List Event) :
    Duplex Byte Event (TxSite υ) Status Event (RxState υ') Status :=
  ⟨⟨[], (nextFile tcbs i u).next⟩, ⟨[], .wait ⟨.header, idle u'⟩⟩, [], [charC], ll, rl⟩

theorem reaches_eot (hs : Serves P.sizeMod tcbs files) (v : TxLocals υ) (hidx : files[v.fileIdx]? = some f)
    (w : RxLocals υ') (g : FileLocals) (hw : w.phase = .data g) (ll rl : List Event) :
    ∃ u' sent, sent.filterMap Event.wire = [eot, eot] ∧
      Reaches (txParty P crc tcbs) (rxParty P crc (fileCallbacks start data finish))
      ⟨⟨sendByte eot, .wait (.eotReply v)⟩, ⟨[], .wait ⟨.header, w⟩⟩, [], [], ll, rl⟩
      (between tcbs (v.fileIdx + 1) v.userData u' (ll ++ sent)
        (rl ++ [.write nak, .write ack, .onFileEnd g.info .ok, .write charC])) := by
  have hcount : P.toSize (v.fileIdx + 1) = v.fileIdx + 1 := by
    obtain ⟨hlt, -⟩ := List.getElem?_eq_some_iff.mp hidx
    exact P.toSize_of_lt (Nat.lt_of_le_of_lt hlt hs.count)
  have hfirst : (rxParty P crc (fileCallbacks start data finish)).resume ⟨.header, w⟩ (.ok eot) =
      ⟨[.write nak], .wait ⟨.secondEot, w⟩⟩ := by
    simp only [rxParty, receiveStep, headerByte, hw, if_true]
    rfl
  have hsecond : (rxParty P crc (fileCallbacks start data finish)).resume ⟨.secondEot, w⟩ (.ok eot) =
      ⟨[.write ack, .onFileEnd g.info .ok, .write charC],
        .wait ⟨.header, idle (finish g.info .ok w.userData)⟩⟩ := by
    simp only [rxParty, receiveStep, endFile, hw]
    rfl
  have hnak : (txParty P crc tcbs).resume (.eotReply v) (.ok nak) =
      ⟨sendByte eot, .wait (.secondEotReply v)⟩ := by
    simp only [txParty, transmitStep, if_true]
  have hack : (txParty P crc tcbs).resume (.secondEotReply v) (.ok ack) =
      nextFile tcbs (v.fileIdx + 1) v.userData := by
    simp only [txParty, transmitStep, hcount]
  refine ⟨finish g.info .ok w.userData,
    [.write eot] ++ [.write eot] ++ [.getFileInfo (v.fileIdx + 1)], rfl, ?_⟩
  refine (flushLeft (sendByte eot) _ _ [] [] ll rl).trans ?_
  refine (readsRight _ _ eot [] [] _ _).trans ?_
  rw [hfirst]
  refine (flushRight _ [.write nak] _ [] [] _ rl).trans ?_
  refine (readsLeft _ _ nak [] [] _ _).trans ?_
  rw [hnak]
  refine (flushLeft (sendByte eot) _ _ [] [] _ _).trans ?_
  refine (readsRight _ _ eot [] [] _ _).trans ?_
  rw [hsecond]
  refine (flushRight _ [Event.write ack, .onFileEnd g.info Status.ok, .write charC] _ [] [] _ _).trans ?_
  refine (readsLeft _ _ Xmodem.ack [] [charC] _ _).trans ?_
  rw [hack]
  have hlog : rl ++ [Event.write nak] ++
        [Event.write ack, Event.onFileEnd g.info Status.ok, Event.write charC] =
      rl ++ [Event.write nak, Event.write ack, Event.onFileEnd g.info Status.ok,
        Event.write charC] := by
    rw [List.append_assoc]
    rfl
  rw [hlog, ← List.append_assoc, ← List.append_assoc]
  exact flushLeft [Event.getFileInfo (v.fileIdx + 1)] _ _ [] [charC] _ _

theorem reaches_file (hs : Serves P.sizeMod tcbs files) (hf : Sendable P f)
    (hwidth : P.sizeBits ≤ P.ulongBits) (i : ℕ) (hidx : files[i]? = some f) (u : υ) (u' : υ')
    (ll rl : List Event) :
    ∃ v v' sent chunks es, Covers 0 chunks f.contents ∧
      es.filterMap (Event.call .ok) = .fileStart f.name f.contents.length ::
        (chunks ++ [.fileEnd f.name f.contents.length true]) ∧
      sent.filterMap Event.wire = fileStream crc f ∧ es.filterMap Event.wire = fileReplies f ∧
      Reaches (txParty P crc tcbs) (rxParty P crc (fileCallbacks start data finish))
        (between tcbs i u u' ll rl) (between tcbs (i + 1) v v' (ll ++ sent) (rl ++ es)) := by
  let t : TxLocals υ := ⟨i, (tcbs.getFileInfo i u).1, (tcbs.getFileInfo i u).2.1,
    (tcbs.getFileInfo i u).2.2⟩
  obtain ⟨hzero, hinfo⟩ : t.hasFile = 0 ∧ t.info = fileInfo f := hs.info i f u hidx
  have hfile : t.HasFile := by
    refine ⟨hzero, ?_⟩
    rw [hinfo]
    exact hf.name_ne_nil
  have hblock0 : t.block0 = block0Payload (fileInfo f) := by
    rw [TxLocals.block0, if_pos hfile, hinfo]
  obtain ⟨res, u₁, hdone⟩ := packetDone_block0 start data finish hf hwidth u'
  obtain ⟨u₂, w, g, sent, es, hw, hg, hcover, hsent, hacks, hblocks⟩ :=
    reaches_blocks crc start data finish hs hf t
    hidx hinfo 0 (Nat.zero_le _) ⟨0, .data ⟨fileInfo f, 1, 0⟩, u₁⟩ ⟨fileInfo f, 1, 0⟩ rfl rfl
    (fun _ => rfl) (ll ++ writeBytes (packet crc 0 (block0Payload (fileInfo f))))
    (rl ++ [.write ack, .write charC, .onFileStart (fileInfo f) res])
  obtain ⟨u₃, ends, hends, heot⟩ := reaches_eot crc start data finish hs { t with userData := u₂ } hidx
    w g hw (ll ++ writeBytes (packet crc 0 (block0Payload (fileInfo f))) ++ sent)
    (rl ++ [.write ack, .write charC, .onFileStart (fileInfo f) res] ++ es)
  have hc : (txParty P crc tcbs).resume (.startC t 0) (.ok charC) =
      ⟨writeBytes (packet crc 0 (block0Payload (fileInfo f))), .wait (.ackBlock0 t)⟩ := by
    simp only [txParty, transmitStep, if_true, hblock0]
  have hack : (txParty P crc tcbs).resume (.ackBlock0 t) (.ok ack) = ⟨[], .wait (.secondC t)⟩ := by
    simp only [txParty, transmitStep, ne_eq, not_true_eq_false, if_false, if_pos hfile]
  have hc2 : (txParty P crc tcbs).resume (.secondC t) (.ok charC) = nextBlock P crc tcbs t 0 1 := by
    simp only [txParty, transmitStep, ne_eq, not_true_eq_false, if_false]
  refine ⟨u₂, u₃, writeBytes (packet crc 0 (block0Payload (fileInfo f))) ++ (sent ++ ends),
    es.filterMap (Event.call .ok),
    [.write ack, .write charC, .onFileStart (fileInfo f) res] ++ es ++
      [.write nak, .write ack, .onFileEnd g.info .ok, .write charC], hcover, ?_, ?_, ?_, ?_⟩
  · simp [Event.call, fileInfo, hg]
  · rw [List.filterMap_append, List.filterMap_append, wire_writeBytes, hsent, hends]
    rfl
  · rw [List.filterMap_append, List.filterMap_append, hacks]
    rfl
  · refine (readsLeft (TxSite.startC t 0) _ charC [] [] ll rl).trans ?_
    rw [hc]
    refine (reaches_packet P crc tcbs (fileCallbacks start data finish) (wire_writeBytes _)
      (.inl (length_block0Payload (hf.fits hwidth))) _ _ _ _ _).trans ?_
    rw [hdone]
    refine (readsLeft _ _ Xmodem.ack [] [charC] _ _).trans ?_
    rw [hack]
    refine (readsLeft _ _ charC [] [] _ _).trans ?_
    rw [hc2]
    refine hblocks.trans ?_
    have hlog : rl ++ ([Event.write ack, Event.write charC, Event.onFileStart (fileInfo f) res] ++
          es ++ [Event.write nak, Event.write ack, Event.onFileEnd g.info Status.ok,
            Event.write charC]) =
        rl ++ [Event.write ack, Event.write charC, Event.onFileStart (fileInfo f) res] ++ es ++
          [Event.write nak, Event.write ack, Event.onFileEnd g.info Status.ok,
            Event.write charC] := by
      simp only [List.append_assoc]
    rw [hlog, ← List.append_assoc, ← List.append_assoc]
    exact heot

/-! ### The batch -/

theorem reaches_end (hs : Serves P.sizeMod tcbs files) (u : υ) (u' : υ') (ll rl : List Event) :
    Reaches (txParty P crc tcbs) (rxParty P crc (fileCallbacks start data finish))
      (between tcbs files.length u u' ll rl)
      ⟨⟨[], .done .ok⟩, ⟨[], .done .ok⟩, [], [],
        ll ++ writeBytes (packet crc 0 (List.replicate 128 0)), rl ++ [.write ack]⟩ := by
  let t : TxLocals υ := ⟨files.length, (tcbs.getFileInfo files.length u).1,
    (tcbs.getFileInfo files.length u).2.1, (tcbs.getFileInfo files.length u).2.2⟩
  have hfile : ¬ t.HasFile := hs.noMore u
  have hlen : (List.replicate 128 (0 : Byte)).length = 128 := List.length_replicate
  have hc : (txParty P crc tcbs).resume (.startC t 0) (.ok charC) =
      ⟨writeBytes (packet crc 0 (List.replicate 128 0)), .wait (.ackBlock0 t)⟩ := by
    simp only [txParty, transmitStep, if_true, TxLocals.block0, if_neg hfile]
  have hack : (txParty P crc tcbs).resume (.ackBlock0 t) (.ok ack) = ⟨[], .done .ok⟩ := by
    simp only [txParty, transmitStep, ne_eq, not_true_eq_false, if_false, if_neg hfile]
  have hname : (parseBlock0 P (List.replicate 128 0) 128).filename = [] := rfl
  have hdone : packetDone P (fileCallbacks start data finish) (idle u') 0 (List.replicate 128 0) =
      ⟨[.write ack], .done .ok⟩ := by
    simp only [packetDone, idle, ne_eq, not_true_eq_false, if_false]
    exact acceptBlock0_end P _ _ _ hname
  refine (readsLeft (TxSite.startC t 0) _ charC [] [] ll rl).trans ?_
  rw [hc]
  refine (reaches_packet P crc tcbs (fileCallbacks start data finish) (wire_writeBytes _)
    (.inl hlen) _ _ _ _ _).trans ?_
  rw [hdone]
  refine (readsLeft _ _ Xmodem.ack [] [] _ _).trans ?_
  rw [hack]
  exact Reaches.refl _

theorem reaches_batch (hs : Serves P.sizeMod tcbs files) (hfiles : ∀ f ∈ files, Sendable P f)
    (hwidth : P.sizeBits ≤ P.ulongBits) (rest : List File) (i : ℕ) (hi : i ≤ files.length)
    (hrest : files.drop i = rest) (u : υ) (u' : υ') (ll rl : List Event) :
    ∃ sent es, Reports rest (es.filterMap (Event.call .ok)) ∧
      sent.filterMap Event.wire = batchStream crc rest ∧
      es.filterMap Event.wire = rest.flatMap fileReplies ++ [Xmodem.ack] ∧
      Reaches (txParty P crc tcbs) (rxParty P crc (fileCallbacks start data finish))
        (between tcbs i u u' ll rl)
        ⟨⟨[], .done .ok⟩, ⟨[], .done .ok⟩, [], [], ll ++ sent, rl ++ es⟩ := by
  induction rest generalizing i u u' ll rl with
  | nil =>
    obtain rfl : i = files.length := Nat.le_antisymm hi (List.drop_eq_nil_iff.mp hrest)
    exact ⟨_, [.write ack], rfl, wire_writeBytes _, rfl, reaches_end crc start data finish hs u u' ll rl⟩
  | cons f rest ih =>
    have hidx : files[i]? = some f := by
      rw [← List.head?_drop, hrest]
      rfl
    have hlt : i < files.length := (List.getElem?_eq_some_iff.mp hidx).1
    have hf : Sendable P f := hfiles f (List.mem_of_getElem? hidx)
    have hdrop : files.drop (i + 1) = rest := by
      rw [← List.tail_drop, hrest]
      rfl
    obtain ⟨v, v', sent, chunks, es, hcover, hcalls, hsent, hreplies, hfirst⟩ :=
      reaches_file crc start data finish hs hf hwidth i hidx u u' ll rl
    obtain ⟨sent', es', hreports, hsent', hreplies', hlast⟩ :=
      ih (i + 1) hlt hdrop v v' (ll ++ sent) (rl ++ es)
    refine ⟨sent ++ sent', es ++ es', ?_, ?_, ?_, ?_⟩
    · have hcons := Reports.cons hcover hreports
      rw [List.filterMap_append, hcalls]
      simpa using hcons
    · rw [List.filterMap_append, hsent, hsent', batchStream, batchStream, List.flatMap_cons,
        List.append_assoc]
    · rw [List.filterMap_append, hreplies, hreplies', List.flatMap_cons, List.append_assoc]
    · rw [← List.append_assoc, ← List.append_assoc]
      exact hfirst.trans hlast

end RoundTrip

/-- Batch round trip: every patient run of the two functions ends, with OK on
both sides and the whole batch reported. -/
theorem batch_roundTrip {υ υ' : Type} (P : Platform) (crc : CrcService) (tcbs : TxCallbacks υ)
    (files : List File) (start' : FileInfo → υ' → ℤ × υ')
    (data : List Byte → ℕ → ℕ → υ' → ℤ × υ') (finish : FileInfo → Status → υ' → υ') (u : υ)
    (u' : υ') (hs : Serves P.sizeMod tcbs files) (hfiles : ∀ f ∈ files, Sendable P f)
    (hwidth : P.sizeBits ≤ P.ulongBits) :
    Settles (txParty P crc tcbs) (rxParty P crc (fileCallbacks start' data finish))
      (start tcbs u u') (Agreed files) := by
  obtain ⟨sent, es, hreports, -, -, k, hrun⟩ := reaches_batch crc start' data finish hs hfiles hwidth
    files 0 (Nat.zero_le _) rfl u u' [.getFileInfo 0] [.write charC]
  have hstart : Reaches (txParty P crc tcbs) (rxParty P crc (fileCallbacks start' data finish))
      (start tcbs u u') (between tcbs 0 u u' [.getFileInfo 0] [.write charC]) :=
    (flushLeft [Event.getFileInfo 0] _ _ [] [] [] []).trans
      (flushRight _ [Event.write charC] _ [] [] [Event.getFileInfo 0] [])
  obtain ⟨j, hj⟩ := hstart
  refine (hj.trans hrun).settles ⟨⟨.ok, rfl⟩, .ok, rfl⟩ ⟨rfl, rfl, ?_⟩
  simpa using hreports

/-- Two files, the second one empty. -/
theorem batch_roundTrip_two_files :
    Settles (txParty platform32 referenceCrc (batchCallbacks [⟨[0x61], [1, 2, 3]⟩, ⟨[0x62], []⟩]))
      (rxParty platform32 referenceCrc (fileCallbacks (fun _ _ => (0, ())) (fun _ _ _ _ => (0, ()))
        fun _ _ _ => ()))
      (start (batchCallbacks [⟨[0x61], [1, 2, 3]⟩, ⟨[0x62], []⟩]) () ())
      (Agreed [⟨[0x61], [1, 2, 3]⟩, ⟨[0x62], []⟩]) := by
  refine batch_roundTrip platform32 referenceCrc _ _ _ _ _ () () (batchCallbacks_serves (by decide))
    ?_ (by decide)
  intro f hf
  simp only [List.mem_cons, List.not_mem_nil, or_false] at hf
  rcases hf with rfl | rfl
  · exact ⟨by decide, by decide, by decide, by decide⟩
  · exact ⟨by decide, by decide, by decide, by decide⟩

end ZephyrModem.Ymodem
