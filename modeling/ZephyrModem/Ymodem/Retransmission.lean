import ZephyrModem.Ymodem.NoisyLine

/-!
# Retransmission over a noisy line

Attempt after attempt the receiver either rejects a garbled packet or acknowledges an
undamaged one, and reports its data the first time only. The transmitter goes on as soon
as an acknowledgement comes through, so a batch arrives as it does over a clean line.
-/

namespace ZephyrModem.Ymodem
open ZephyrModem.Reactive ZephyrModem.Transfer
open ZephyrModem.Xmodem (Byte Read soh stx eot ack nak can charC)

section Blocks

variable {υ υ' : Type} {P : Platform} (crc : CrcService) {tcbs : TxCallbacks υ} {z : Noise}
  {files : List File} {f : File}
  (start : FileInfo → υ' → ℤ × υ') (data : List Byte → ℕ → ℕ → υ' → ℤ × υ')
  (finish : FileInfo → Status → υ' → υ')

/-- The block of a file at an offset, as the transmitter holds it. -/
def txBlock (f : File) (offset : ℕ) (num : Byte) : TxBlock :=
  ⟨offset, num, bytesAt f.contents offset, blockAt f.contents offset⟩

/-- The read of the reply to attempt `j`. -/
def attempt (v : TxLocals υ) (f : File) (offset : ℕ) (num : Byte) (j : ℕ) : TxSite υ :=
  .reply v (txBlock f offset num) (UInt8.ofNat j)

/-- What arrives of attempt `j`. -/
def arriving (crc : CrcService) (z : Noise) (i : ℕ) (f : File) (offset : ℕ) (num : Byte) (j : ℕ) :
    List Byte := (z.packet i offset j).getD (packet crc num (blockAt f.contents offset))

/-- What arrives of a block from attempt `j` on, up to the attempt that comes through. -/
def arrivals (crc : CrcService) (z : Noise) (i : ℕ) (f : File) (offset : ℕ) (num : Byte) :
    ℕ → ℕ → List Byte
  | 0, _ => []
  | n + 1, j => arriving crc z i f offset num j ++
      if z.packet i offset j = none ∧ z.reply i offset j = none then []
      else arrivals crc z i f offset num n (j + 1)

/-- What arrives of `n` blocks from an offset on. -/
def blockArrivals (crc : CrcService) (z : Noise) (i : ℕ) (f : File) : ℕ → ℕ → Byte → List Byte
  | 0, _, _ => []
  | n + 1, offset, num => arrivals crc z i f offset num maxRetries.toNat 0 ++
      blockArrivals crc z i f n (offset + bytesAt f.contents offset) (num + 1)

theorem arrivals_through {i : ℕ} {f : File} {offset : ℕ} {num : Byte} {j : ℕ} (n : ℕ)
    (h : z.packet i offset j = none ∧ z.reply i offset j = none) :
    arrivals crc z i f offset num (n + 1) j = arriving crc z i f offset num j := by
  rw [arrivals, if_pos h, List.append_nil]

theorem arrivals_again {i : ℕ} {f : File} {offset : ℕ} {num : Byte} {j : ℕ} (n : ℕ)
    (h : ¬ (z.packet i offset j = none ∧ z.reply i offset j = none)) :
    arrivals crc z i f offset num (n + 1) j =
      arriving crc z i f offset num j ++ arrivals crc z i f offset num n (j + 1) := by
  rw [arrivals, if_neg h]

theorem toNat_attempt {j : ℕ} (hj : j < maxRetries.toNat) : (UInt8.ofNat j).toNat = j := by
  have hmax : maxRetries.toNat = 10 := rfl
  rw [UInt8.toNat_ofNat']
  omega

theorem arrives_attempt (v : TxLocals υ) (f : File) (offset : ℕ) (num : Byte) {j : ℕ}
    (hj : j < maxRetries.toNat) :
    z.arrives (attempt v f offset num j) = z.packet v.fileIdx offset j := by
  simp only [Noise.arrives, attempt, txBlock, toNat_attempt hj]

theorem wire_attempt {es : List Event} (v : TxLocals υ) (f : File) (offset : ℕ) (num : Byte) {j : ℕ}
    (hj : j < maxRetries.toNat)
    (hes : es.filterMap Event.wire = packet crc num (blockAt f.contents offset)) :
    (z.outgoing ⟨es, .wait (attempt v f offset num j)⟩).events.filterMap Event.wire =
      arriving crc z v.fileIdx f offset num j := by
  rw [wire_outgoing, arrives_attempt v f offset num hj, hes, arriving]

/-- A reply that is neither ACK nor CAN leads to the next attempt. -/
theorem noisyStep_again (v : TxLocals υ) (f : File) (offset : ℕ) (num : Byte) {j : ℕ} {b : Byte}
    (hj : j + 1 < maxRetries.toNat)
    (hack : (z.reply v.fileIdx offset j).getD b ≠ Xmodem.ack)
    (hcan : (z.reply v.fileIdx offset j).getD b ≠ can) :
    noisyStep P crc tcbs z (attempt v f offset num j) (.ok b) =
      z.outgoing ⟨writeBytes (packet crc num (blockAt f.contents offset)),
        .wait (attempt v f offset num (j + 1))⟩ := by
  have hlt : UInt8.ofNat j + 1 < maxRetries := by
    have hmax : maxRetries.toNat = 10 := rfl
    rw [UInt8.lt_iff_toNat_lt, ← UInt8.ofNat_one, ← UInt8.ofNat_add, toNat_attempt hj]
    exact hj
  have hin : z.incoming (attempt v f offset num j) (.ok b) =
      .ok ((z.reply v.fileIdx offset j).getD b) := by
    simp only [Noise.incoming, attempt, txBlock, toNat_attempt (Nat.lt_of_succ_lt hj)]
  rw [noisyStep, hin]
  simp only [attempt, transmitStep, ReadResult.ok.injEq, if_neg hack, if_neg hcan, sendBlock, if_pos hlt,
    UInt8.ofNat_add, UInt8.ofNat_one]
  rfl

theorem noisyStep_ack (v : TxLocals υ) (f : File) (offset : ℕ) (num : Byte) {j : ℕ}
    (hj : j < maxRetries.toNat) (hclean : z.reply v.fileIdx offset j = none) :
    noisyStep P crc tcbs z (attempt v f offset num j) (.ok ack) =
      z.outgoing (nextBlock P crc tcbs v (P.toSize (offset + bytesAt f.contents offset)) (num + 1)) := by
  have hin : z.incoming (attempt v f offset num j) (.ok ack) = .ok ack := by
    simp only [Noise.incoming, attempt, txBlock, toNat_attempt hj, hclean, Option.getD_none]
  rw [noisyStep, hin]
  simp only [attempt, transmitStep, if_true, txBlock]

/-! ### The receiver's side of one block -/

/-- The receiver before or after it has taken the block. -/
def stage (P : Platform) (g : FileLocals) (f : File) (offset : ℕ) (taken : Bool) : Phase :=
  .data (if taken then g.next P (blockAt f.contents offset).length else g)

/-- The report that is still to come. -/
def pendingCalls (f : File) (offset : ℕ) (taken : Bool) : List Call :=
  if taken then []
  else [.data offset (bytesAt f.contents offset)
    ((f.contents.drop offset).take (bytesAt f.contents offset))]

@[simp] theorem pendingCalls_taken (f : File) (offset : ℕ) : pendingCalls f offset true = [] := rfl

/-- The packet of the block is acknowledged, the first time with its data reported. -/
theorem packetDone_stage {w : RxLocals υ'} {g : FileLocals} {offset : ℕ} {taken : Bool}
    (hw : w.phase = stage P g f offset taken) (hg : g.info = fileInfo f)
    (hoffset : g.fileOffset = offset) (hsize : f.contents.length + 1024 < P.sizeMod)
    (hlt : offset < f.contents.length) :
    ∃ es w', packetDone P (fileCallbacks start data finish) w g.expectedBlk
        (blockAt f.contents offset) = ⟨es, .wait ⟨.header, w'⟩⟩ ∧
      es.filterMap Event.wire = [Xmodem.ack] ∧
      es.filterMap (Event.call .ok) = pendingCalls f offset taken ∧
      w'.phase = stage P g f offset true := by
  cases taken with
  | false =>
    obtain ⟨res, u, hdone⟩ := packetDone_blockAt start data finish hw hg hoffset hsize hlt
    refine ⟨_, _, hdone, rfl, ?_, rfl⟩
    simp [Event.call, pendingCalls, take_blockAt]
  | true =>
    have hne : g.expectedBlk ≠ g.expectedBlk + 1 := by
      intro he
      have hsub := congrArg (· - g.expectedBlk) he
      simp [UInt8.add_comm g.expectedBlk 1] at hsub
    have hprev : g.expectedBlk = g.expectedBlk + 1 - 1 := (UInt8.add_sub_cancel ..).symm
    refine ⟨sendByte ack, w, ?_, rfl, rfl, hw⟩
    simp only [packetDone, hw, stage, if_true, acceptBlock, FileLocals.next, if_neg hne]
    rw [if_pos hprev]

/-! ### One block -/

/-- The receiver at a packet boundary, the transmitter about to send attempt `j`. -/
def attempting (z : Noise) (v : TxLocals υ) (f : File) (g : FileLocals) (offset j : ℕ)
    (es : List Event) (w : RxLocals υ') (ll rl : List Event) :
    Timed Byte Event (TxSite υ) Status Event (RxState υ') Status :=
  fresh (z.outgoing ⟨es, .wait (attempt v f offset g.expectedBlk j)⟩) ⟨[], .wait ⟨.header, w⟩⟩ [] ll rl

variable (tcbs) {g : FileLocals} {offset : ℕ} (hrec : Recoverable crc z) (hg : g.info = fileInfo f)
  (hoffset : g.fileOffset = offset) (hsize : f.contents.length + 1024 < P.sizeMod)
  (hlt : offset < f.contents.length)

include hrec hg hoffset hsize hlt

/-- One attempt: the transmitter gets the receiver's answer, and if the packet was
undamaged the receiver has taken the block. -/
theorem reaches_answer (v : TxLocals υ) {j : ℕ} (hj : j < maxRetries.toNat) {es : List Event}
    (hes : es.filterMap Event.wire = packet crc g.expectedBlk (blockAt f.contents offset))
    {taken : Bool} {w : RxLocals υ'} (hw : w.phase = stage P g f offset taken) (ll rl : List Event) :
    ∃ w' ll' es' taken' b, w'.phase = stage P g f offset taken' ∧
      es'.filterMap (Event.call .ok) ++ pendingCalls f offset taken' = pendingCalls f offset taken ∧
      (b = Xmodem.ack ∧ taken' = true ∧ z.packet v.fileIdx offset j = none ∨
        b = nak ∧ z.packet v.fileIdx offset j ≠ none) ∧
      ll'.filterMap Event.wire = ll.filterMap Event.wire ++
        arriving crc z v.fileIdx f offset g.expectedBlk j ∧
      Timed.Reaches (noisyTx P crc tcbs z) (timedRx P crc (fileCallbacks start data finish))
        (attempting z v f g offset j es w ll rl)
        (fresh (noisyStep P crc tcbs z (attempt v f offset g.expectedBlk j) (.ok b))
          ⟨[], .wait ⟨.header, w'⟩⟩ [] ll' (rl ++ es')) := by
  have hwire := wire_attempt crc (z := z) v f offset g.expectedBlk hj hes
  have hnext := outgoing_next z ⟨es, .wait (attempt v f offset g.expectedBlk j)⟩
  rcases hout : z.outgoing ⟨es, .wait (attempt v f offset g.expectedBlk j)⟩ with ⟨out, n⟩
  rw [hout] at hwire hnext
  obtain rfl : n = .wait (attempt v f offset g.expectedBlk j) := hnext
  have hlog : (ll ++ out).filterMap Event.wire = ll.filterMap Event.wire ++
      arriving crc z v.fileIdx f offset g.expectedBlk j := by
    rw [List.filterMap_append, hwire]
  rw [attempting, hout]
  cases hdamage : z.packet v.fileIdx offset j with
  | some bs =>
    rw [arriving, hdamage, Option.getD_some] at hwire
    have hgarbled : Garbled crc (out.filterMap Event.wire) := by
      rw [hwire]
      exact hrec.packet _ _ _ _ hdamage
    have hask : afterPurge w = ⟨sendByte nak, .wait ⟨.header, w⟩⟩ := by
      simp only [afterPurge, hw, stage]
    refine ⟨w, ll ++ out, sendByte nak, taken, nak, hw, rfl, .inr ⟨rfl, Option.some_ne_none bs⟩,
      hlog, ?_⟩
    exact reaches_again crc (T := noisyTx P crc tcbs z) rfl (fileCallbacks start data finish) rfl
      hgarbled hask ll rl
  | none =>
    rw [arriving, hdamage, Option.getD_none] at hwire
    have hlen : (blockAt f.contents offset).length = 128 ∨
        (blockAt f.contents offset).length = 1024 := by
      rw [length_blockAt]
      exact txBlockSize_cases _
    obtain ⟨es', w', hdone, hack, hcalls, hw'⟩ :=
      packetDone_stage start data finish hw hg hoffset hsize hlt
    have hfed := feed_packet P crc (fileCallbacks start data finish) w g.expectedBlk _ hlen
    rw [hdone] at hfed
    have hread := reaches_fed crc (T := noisyTx P crc tcbs z) rfl (fileCallbacks start data finish)
      (n := .wait (attempt v f offset g.expectedBlk j)) hwire hfed [] ll rl
    rw [hack] at hread
    refine ⟨w', ll ++ out, es', true, ack, hw', ?_, .inl ⟨rfl, rfl, rfl⟩, hlog, ?_⟩
    · rw [hcalls, pendingCalls_taken, List.append_nil]
    · exact hread.trans (reaches_readLeft crc _ _ _ ack [] _ _)

/-- From attempt `j` on, where attempt `j + d` comes through, the transmitter gets to the
next block, and the receiver reports the block if it has not yet. -/
theorem reaches_through (v : TxLocals υ) {d n j : ℕ} (hn : d < n) (hj : j + d < maxRetries.toNat)
    (hclean : z.packet v.fileIdx offset (j + d) = none ∧ z.reply v.fileIdx offset (j + d) = none)
    {es : List Event}
    (hes : es.filterMap Event.wire = packet crc g.expectedBlk (blockAt f.contents offset))
    {taken : Bool} {w : RxLocals υ'} (hw : w.phase = stage P g f offset taken) (ll rl : List Event) :
    ∃ w' ll' es', w'.phase = stage P g f offset true ∧
      es'.filterMap (Event.call .ok) = pendingCalls f offset taken ∧
      ll'.filterMap Event.wire = ll.filterMap Event.wire ++
        arrivals crc z v.fileIdx f offset g.expectedBlk n j ∧
      Timed.Reaches (noisyTx P crc tcbs z) (timedRx P crc (fileCallbacks start data finish))
        (attempting z v f g offset j es w ll rl)
        (fresh (z.outgoing (nextBlock P crc tcbs v (P.toSize (offset + bytesAt f.contents offset))
          (g.expectedBlk + 1))) ⟨[], .wait ⟨.header, w'⟩⟩ [] ll' (rl ++ es')) := by
  -- on the attempts left until the one that comes through
  obtain ⟨n, rfl⟩ := Nat.exists_eq_add_one_of_ne_zero (Nat.ne_zero_of_lt hn)
  induction d generalizing j es taken w ll rl n with
  | zero =>
    obtain ⟨w', ll', es', taken', b, hw', hcalls, hb, hlog, hanswer⟩ :=
      reaches_answer crc tcbs start data finish hrec hg hoffset hsize hlt v hj hes hw ll rl
    rw [← arrivals_through crc n hclean] at hlog
    rcases hb with ⟨rfl, rfl, -⟩ | ⟨-, hdamage⟩
    · rw [noisyStep_ack crc v f offset g.expectedBlk hj hclean.2] at hanswer
      rw [pendingCalls_taken, List.append_nil] at hcalls
      exact ⟨w', ll', es', hw', hcalls, hlog, hanswer⟩
    · exact absurd hclean.1 hdamage
  | succ d ih =>
    have hnow : j < maxRetries.toNat := Nat.lt_of_le_of_lt (Nat.le_add_right _ _) hj
    obtain ⟨w', ll', es', taken', b, hw', hcalls, hb, hlog, hanswer⟩ :=
      reaches_answer crc tcbs start data finish hrec hg hoffset hsize hlt v hnow hes hw ll rl
    by_cases hdone : z.packet v.fileIdx offset j = none ∧ z.reply v.fileIdx offset j = none
    · rw [← arrivals_through crc n hdone] at hlog
      obtain ⟨rfl, rfl, -⟩ | ⟨-, hdamage⟩ := hb
      · rw [noisyStep_ack crc v f offset g.expectedBlk hnow hdone.2] at hanswer
        rw [pendingCalls_taken, List.append_nil] at hcalls
        exact ⟨w', ll', es', hw', hcalls, hlog, hanswer⟩
      · exact absurd hdone.1 hdamage
    · -- the reply is no ACK when it is read: the packet is sent again
      have hbyte : (z.reply v.fileIdx offset j).getD b ≠ Xmodem.ack ∧
          (z.reply v.fileIdx offset j).getD b ≠ can := by
        cases hreply : z.reply v.fileIdx offset j with
        | some c => exact hrec.reply _ _ _ _ hreply
        | none =>
          rcases hb with ⟨rfl, -, hpacket⟩ | ⟨rfl, -⟩
          · exact absurd ⟨hpacket, hreply⟩ hdone
          · exact ⟨by decide, by decide⟩
      have hshift : j + 1 + d = j + (d + 1) := by omega
      rw [noisyStep_again crc v f offset g.expectedBlk (by omega) hbyte.1 hbyte.2] at hanswer
      obtain ⟨n, rfl⟩ := Nat.exists_eq_add_one_of_ne_zero (Nat.ne_zero_of_lt (Nat.lt_of_succ_lt_succ hn))
      obtain ⟨w₂, ll₂, es₂, hw₂, hcalls₂, hlog₂, hrest⟩ := ih (j := j + 1) (by omega)
        (by rwa [hshift]) (wire_writeBytes _) hw' ll' (rl ++ es') n (Nat.lt_of_succ_lt_succ hn)
      refine ⟨w₂, ll₂, es' ++ es₂, hw₂, ?_, ?_, ?_⟩
      · rw [List.filterMap_append, hcalls₂, hcalls]
      · rw [hlog₂, hlog, arrivals_again crc _ hdone, List.append_assoc]
      · rw [← List.append_assoc]
        exact hanswer.trans hrest

/-- One block of a transfer, whatever the line does to all but one of its attempts. -/
theorem reaches_noisyBlock (hs : Serves P.sizeMod tcbs files) {v : TxLocals υ}
    (hidx : files[v.fileIdx]? = some f) (hinfo : v.info = fileInfo f) {w : RxLocals υ'}
    (hw : w.phase = .data g) (ll rl : List Event) :
    ∃ u w' ll' es, w'.phase = .data (g.next P (blockAt f.contents offset).length) ∧
      es.filterMap (Event.call .ok) = [.data offset (bytesAt f.contents offset)
        ((f.contents.drop offset).take (bytesAt f.contents offset))] ∧
      ll'.filterMap Event.wire = ll.filterMap Event.wire ++
        arrivals crc z v.fileIdx f offset g.expectedBlk maxRetries.toNat 0 ∧
      Timed.Reaches (noisyTx P crc tcbs z) (timedRx P crc (fileCallbacks start data finish))
        (fresh (z.outgoing (nextBlock P crc tcbs v offset g.expectedBlk))
          ⟨[], .wait ⟨.header, w⟩⟩ [] ll rl)
        (fresh (z.outgoing (nextBlock P crc tcbs { v with userData := u }
            (offset + bytesAt f.contents offset) (g.expectedBlk + 1)))
          ⟨[], .wait ⟨.header, w'⟩⟩ [] ll' (rl ++ es)) := by
  obtain ⟨u, d, res, hnext⟩ := nextBlock_of_lt crc hs g.expectedBlk hidx hinfo (by omega) hlt
  obtain ⟨j, hj, hclean⟩ := hrec.through v.fileIdx offset
  have hbytes : bytesAt f.contents offset ≤ f.contents.length - offset := Nat.min_le_left _ _
  have hoff : P.toSize (offset + bytesAt f.contents offset) = offset + bytesAt f.contents offset :=
    P.toSize_of_lt (by omega)
  have hes : (.readData v.fileIdx offset (bytesAt f.contents offset) d res ::
      writeBytes (packet crc g.expectedBlk (blockAt f.contents offset)) :
        List Event).filterMap Event.wire = packet crc g.expectedBlk (blockAt f.contents offset) :=
    wire_writeBytes _
  have hthrough := reaches_through crc tcbs start data finish hrec hg hoffset hsize hlt
    { v with userData := u } (d := j) (j := 0) hj (by rwa [Nat.zero_add]) (by rwa [Nat.zero_add]) hes
    (show w.phase = stage P g f offset false from hw) ll rl
  obtain ⟨w', ll', es, hw', hcalls, hlog, hreach⟩ := hthrough
  rw [hoff] at hreach
  refine ⟨u, w', ll', es, hw', hcalls, hlog, ?_⟩
  rw [hnext]
  exact hreach

omit hg hoffset hsize hlt in
/-- The blocks from an offset on, up to the first EOT. -/
theorem reaches_noisyBlocks (hs : Serves P.sizeMod tcbs files) (hf : Sendable P f) (v : TxLocals υ)
    (hidx : files[v.fileIdx]? = some f) (hinfo : v.info = fileInfo f) (offset : ℕ)
    (hle : offset ≤ f.contents.length) (w : RxLocals υ') (g : FileLocals) (hw : w.phase = .data g)
    (hg : g.info = fileInfo f) (hoffset : offset < f.contents.length → g.fileOffset = offset)
    (ll rl : List Event) :
    ∃ u w' g' ll' es, w'.phase = .data g' ∧ g'.info = fileInfo f ∧
      Covers offset (es.filterMap (Event.call .ok)) (f.contents.drop offset) ∧
      ll'.filterMap Event.wire = ll.filterMap Event.wire ++ blockArrivals crc z v.fileIdx f
        (blocksFor (f.contents.length - offset)) offset g.expectedBlk ∧
      Timed.Reaches (noisyTx P crc tcbs z) (timedRx P crc (fileCallbacks start data finish))
        (fresh (z.outgoing (nextBlock P crc tcbs v offset g.expectedBlk))
          ⟨[], .wait ⟨.header, w⟩⟩ [] ll rl)
        (fresh ⟨sendByte eot, .wait (.eotReply { v with userData := u })⟩
          ⟨[], .wait ⟨.header, w'⟩⟩ [] ll' (rl ++ es)) := by
  have hsize := hf.size_lt
  induction hleft : f.contents.length - offset using Nat.strongRecOn
    generalizing v offset w g ll rl with
  | ind left ih =>
    subst hleft
    by_cases hlt : offset < f.contents.length
    · have hpos : 0 < bytesAt f.contents offset := by
        have := txBlockSize_cases (f.contents.length - offset)
        unfold bytesAt
        omega
      have hbytes : bytesAt f.contents offset ≤ f.contents.length - offset := Nat.min_le_left _ _
      have hcount : blocksFor (f.contents.length - offset) =
          blocksFor (f.contents.length - (offset + bytesAt f.contents offset)) + 1 := by
        rw [blocksFor_succ (Nat.sub_pos_of_lt hlt), ← Nat.sub_sub]
        rfl
      obtain ⟨u, w₁, ll₁, es₁, hw₁, hcalls, hlog₁, hblock⟩ := reaches_noisyBlock crc tcbs start data finish
        hrec hg (hoffset hlt) hsize hlt hs hidx hinfo hw ll rl
      obtain ⟨u₂, w', g', ll', es, hw', hg', hcover, hlog, hrest⟩ := ih
        (f.contents.length - (offset + bytesAt f.contents offset)) (by omega)
        { v with userData := u } hidx hinfo (offset + bytesAt f.contents offset) (by omega) w₁
        (g.next P (blockAt f.contents offset).length) hw₁ hg
        (fileOffset_next (hoffset hlt) hsize) ll₁ (rl ++ es₁) rfl
      refine ⟨u₂, w', g', ll', es₁ ++ es, hw', hg', ?_, ?_, ?_⟩
      · have htake : ((f.contents.drop offset).take (bytesAt f.contents offset)).length =
            bytesAt f.contents offset := by
          rw [List.length_take, List.length_drop]
          omega
        have hsplit : f.contents.drop offset =
            (f.contents.drop offset).take (bytesAt f.contents offset) ++
              f.contents.drop (offset + bytesAt f.contents offset) := by
          rw [← List.drop_drop, List.take_append_drop]
        have hcons := Covers.cons htake hcover
        rw [← hsplit] at hcons
        rw [List.filterMap_append, hcalls]
        exact hcons
      · rw [hlog, hlog₁, hcount, List.append_assoc]
        rfl
      · rw [← List.append_assoc]
        exact hblock.trans hrest
    · have hend : f.contents.drop offset = [] := List.drop_of_length_le (by omega)
      have hnext : nextBlock P crc tcbs v offset g.expectedBlk =
          ⟨sendByte eot, .wait (.eotReply v)⟩ := by
        unfold nextBlock
        rw [hinfo]
        exact if_neg hlt
      have hnone : blocksFor (f.contents.length - offset) = 0 := by
        rw [Nat.sub_eq_zero_of_le (Nat.le_of_not_lt hlt)]
        rfl
      refine ⟨v.userData, w, g, ll, [], hw, hg, ?_, ?_, ?_⟩
      · rw [hend]
        exact Covers.nil offset
      · rw [hnone]
        exact (List.append_nil _).symm
      · rw [hnext, outgoing_of_none z rfl, List.append_nil]
        exact Timed.Reaches.refl _

end Blocks

end ZephyrModem.Ymodem
