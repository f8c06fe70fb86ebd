import ZephyrModem.Xmodem.Frames

/-!
# Streams of unknown length

With `total_len` 0 the end of the stream is up to `data_cb`. `xmodem_transmit` takes the
value 0, which `modem/xmodem.h` documents as success, for the end from the second block on.
-/

namespace ZephyrModem.Xmodem
open ZephyrModem.Reactive

variable {υ : Type} (P : Platform) (crc : CrcService) (cbs : TxCallbacks υ) (cfg : Config)

def supply (n : Byte) (u : υ) : ℤ × List Byte × υ :=
  cbs.dataCb n (List.replicate (txBlockSize cfg) 0x1A) u

/-- `data_cb` supplies `k` more blocks, numbered from `n` on, and then fails. -/
def Supplies : ℕ → Byte → υ → Prop
  | 0, n, u => (supply cbs cfg n u).1 < 0
  | k + 1, n, u => (supply cbs cfg n u).1 = 0 ∧ Supplies k (n + 1) (supply cbs cfg n u).2.2

def suppliedPackets (c : Bool) : ℕ → Byte → υ → List Byte
  | 0, _, _ => []
  | k + 1, n, u => packet crc c n (supply cbs cfg n u).2.1 ++
      suppliedPackets c k (n + 1) (supply cbs cfg n u).2.2

abbrev unknownStep : Resume Read Event (TxSite υ) Status := transmitStep P crc cbs cfg 0

/-- The peer acknowledges every packet. -/
def AcksPackets (userData : υ) (reads : List Read) : Prop :=
  ∀ v ∈ visits (unknownStep P crc cbs cfg) (xmodemTransmit userData).next reads,
    ∀ w retries payload, v.1 = .reply w retries payload → v.2 = .ok ack

/-- All `k` blocks go out before EOT, and before the return of OK every block that `data_cb`
supplied has been sent. -/
structure Uncut (userData : υ) (k : ℕ) (reads : List Read) : Prop where
  returns : (run (unknownStep P crc cbs cfg) (xmodemTransmit userData).next reads).next = .done .ok →
    ∀ l₁ n buf l₂, (run (unknownStep P crc cbs cfg) (xmodemTransmit userData).next reads).events =
      l₁ ++ .dataCb n buf 0 :: l₂ → ∃ c, writeBytes (packet crc c n buf) <:+: l₂
  sends : ∀ retries, (run (unknownStep P crc cbs cfg) (xmodemTransmit userData).next reads).next =
      .wait (.eotReply retries) →
    ∃ c, suppliedPackets crc cbs cfg c k 1 userData <+:
      (run (unknownStep P crc cbs cfg) (xmodemTransmit userData).next reads).events.filterMap
        Event.wire

/-- No stream of `k` blocks is cut by a peer that acknowledges every packet. -/
def NeverCut (userData : υ) (k : ℕ) : Prop :=
  ∀ reads, AcksPackets P crc cbs cfg userData reads → Uncut P crc cbs cfg userData k reads

/-! ### One round of the block loop -/

variable {P crc cbs cfg}

theorem blockSizeAt_zero (bytesSent : ℕ) : blockSizeAt P cfg 0 bytesSent = txBlockSize cfg := by
  apply if_neg
  rintro ⟨hpos, -⟩
  exact absurd hpos (Nat.lt_irrefl 0)

theorem nextBlock_fails {v : TxLocals υ} (h : (supply cbs cfg v.blockNum v.userData).1 < 0) :
    ∃ es, nextBlock P crc cbs cfg 0 v = ⟨es, .done .errorIo⟩ := by
  unfold supply at h
  simp only [nextBlock, blockSizeAt_zero, if_pos h, true_or, if_true]
  exact ⟨_, rfl⟩

theorem nextBlock_start {v : TxLocals υ} (hv : v.bytesSent = 0)
    (h : (supply cbs cfg v.blockNum v.userData).1 = 0) :
    nextBlock P crc cbs cfg 0 v =
      (sendPacket crc cfg { v with userData := (supply cbs cfg v.blockNum v.userData).2.2 } 0
        (supply cbs cfg v.blockNum v.userData).2.1).after
          [.dataCb v.blockNum (supply cbs cfg v.blockNum v.userData).2.1 0] := by
  unfold supply at h ⊢
  simp only [nextBlock, blockSizeAt_zero, h, hv, gt_iff_lt, Nat.lt_irrefl, and_false, true_or, if_true,
    if_false]
  rfl

/-- A later one is taken for the end. -/
theorem nextBlock_ends {v : TxLocals υ} (hv : 0 < v.bytesSent)
    (h : (supply cbs cfg v.blockNum v.userData).1 = 0) :
    nextBlock P crc cbs cfg 0 v = (sendEot cfg 0).after
      [.dataCb v.blockNum (supply cbs cfg v.blockNum v.userData).2.1 0] := by
  unfold supply at h ⊢
  simp only [nextBlock, blockSizeAt_zero, h, hv, and_self, true_or, if_true]
  rfl

theorem length_supply (n : Byte) (u : υ) : (supply cbs cfg n u).2.1.length = txBlockSize cfg := by
  unfold supply
  rw [cbs.dataCb_length, List.length_replicate]

theorem sent_pos (n : Byte) (u : υ) : 0 < P.toSize (0 + (supply cbs cfg n u).2.1.length) := by
  have hmod := P.sizeMod_ge
  have hsize : txBlockSize cfg = 1024 ∨ txBlockSize cfg = 128 := by
    unfold txBlockSize
    split
    · exact .inl rfl
    · exact .inr rfl
  rw [length_supply, P.toSize_of_lt (by omega)]
  omega

/-! ### Streams of two blocks and more -/

theorem start_first (c : Bool) {u : υ} (h : (supply cbs cfg 1 u).1 = 0) (hmax : 0 < cfg.maxRetries) :
    nextBlock P crc cbs cfg 0 ⟨c, 1, 0, u⟩ =
      ⟨.dataCb 1 (supply cbs cfg 1 u).2.1 0 :: writeBytes (packet crc c 1 (supply cbs cfg 1 u).2.1),
        .wait (.reply ⟨c, 1, 0, (supply cbs cfg 1 u).2.2⟩ 0 (supply cbs cfg 1 u).2.1)⟩ := by
  rw [nextBlock_start rfl h, sendPacket, if_pos hmax]
  rfl

/-- The peer asks for CRC and acknowledges the first packet and EOT. -/
theorem run_cut (P : Platform) (crc : CrcService) {u : υ} {k : ℕ} (hmax : 0 < cfg.maxRetries)
    (h : Supplies cbs cfg (k + 2) 1 u) :
    AcksPackets P crc cbs cfg u [.ok charC, .ok ack, .ok ack] ∧
    run (unknownStep P crc cbs cfg) (xmodemTransmit u).next [.ok charC, .ok ack, .ok ack] =
      ⟨.dataCb 1 (supply cbs cfg 1 u).2.1 0 :: writeBytes (packet crc true 1 (supply cbs cfg 1 u).2.1) ++
        .dataCb 2 (supply cbs cfg 2 (supply cbs cfg 1 u).2.2).2.1 0 :: sendByte eot, .done .ok⟩ := by
  obtain ⟨hfirst, hsecond, -⟩ := h
  have hstart : unknownStep P crc cbs cfg (.start 0 u) (.ok charC) =
      ⟨.dataCb 1 (supply cbs cfg 1 u).2.1 0 :: writeBytes (packet crc true 1 (supply cbs cfg 1 u).2.1),
        .wait (.reply ⟨true, 1, 0, (supply cbs cfg 1 u).2.2⟩ 0 (supply cbs cfg 1 u).2.1)⟩ := by
    rw [← start_first (P := P) true hfirst hmax]
    simp only [transmitStep, if_true]
  have hreply : unknownStep P crc cbs cfg
      (.reply ⟨true, 1, 0, (supply cbs cfg 1 u).2.2⟩ 0 (supply cbs cfg 1 u).2.1) (.ok ack) =
      ⟨.dataCb 2 (supply cbs cfg 2 (supply cbs cfg 1 u).2.2).2.1 0 :: sendByte eot,
        .wait (.eotReply 0)⟩ := by
    have hends : nextBlock P crc cbs cfg 0
        ⟨true, 1 + 1, P.toSize (0 + (supply cbs cfg 1 u).2.1.length), (supply cbs cfg 1 u).2.2⟩ = _ :=
      nextBlock_ends (sent_pos 1 u) hsecond
    simp only [transmitStep, if_true]
    rw [hends, sendEot, if_pos hmax]
    rfl
  have heot : unknownStep P crc cbs cfg (.eotReply 0) (.ok ack) = ⟨[], .done .ok⟩ := by
    simp only [transmitStep, if_true]
  constructor
  · intro v hv w retries payload hsite
    simp only [xmodemTransmit, visits_wait, hstart, hreply, heot, visits_nil, List.mem_cons,
      List.not_mem_nil, or_false] at hv
    rcases hv with rfl | rfl | rfl
    · cases hsite
    · rfl
    · cases hsite
  · simp only [xmodemTransmit, run_wait, hstart, hreply, heot, run_nil, Out.after, List.append_nil]

theorem not_neverCut {u : υ} {k : ℕ} (hmax : 0 < cfg.maxRetries) (h : Supplies cbs cfg (k + 2) 1 u) :
    ¬ NeverCut P crc cbs cfg u (k + 2) := by
  intro hnever
  obtain ⟨hacks, hrun⟩ := run_cut P crc hmax h
  obtain ⟨c, hinfix⟩ := (hnever _ hacks).returns (congrArg Out.next hrun) _ _ _ _
    (congrArg Out.events hrun)
  have hlen := hinfix.length_le
  simp [writeBytes, sendByte, packet] at hlen

/-! ### Streams of one block -/

/-- Nothing but the first block has been asked for; afterwards only a failure can come. -/
def FirstBlock (cbs : TxCallbacks υ) (cfg : Config) (u : υ) : Next (TxSite υ) Status → Prop
  | .wait (.start _ u') => u' = u
  | .wait (.reply v _ payload) => 0 < cfg.maxRetries ∧ v.blockNum = 1 ∧ v.bytesSent = 0 ∧
      v.userData = (supply cbs cfg 1 u).2.2 ∧ payload = (supply cbs cfg 1 u).2.1
  | .wait (.eotReply _) => False
  | .done st => st ≠ .ok

theorem startAgain_firstBlock (retries : Byte) (u : υ) :
    FirstBlock cbs cfg u (startAgain cfg retries u).next := by
  unfold startAgain
  dsimp only
  split
  · show Status.errorTimeout ≠ .ok
    decide
  · rfl

theorem first_firstBlock (c : Bool) {u : υ} (h : (supply cbs cfg 1 u).1 = 0) :
    FirstBlock cbs cfg u (nextBlock P crc cbs cfg 0 ⟨c, 1, 0, u⟩).next := by
  rw [nextBlock_start rfl h, sendPacket]
  split
  · rename_i hmax
    exact ⟨hmax, rfl, rfl, rfl, rfl⟩
  · show Status.errorTimeout ≠ .ok
    decide

theorem firstBlock_step {u : υ} (hfirst : (supply cbs cfg 1 u).1 = 0)
    (hsecond : 0 < cfg.maxRetries → (supply cbs cfg 2 (supply cbs cfg 1 u).2.2).1 < 0)
    {s : TxSite υ} {r : Read}
    (hack : ∀ w retries payload, s = .reply w retries payload → r = .ok ack)
    (h : FirstBlock cbs cfg u (.wait s)) :
    FirstBlock cbs cfg u (unknownStep P crc cbs cfg s r).next := by
  cases s with
  | start retries u' =>
    obtain rfl : u' = u := h
    rcases transmitStep_start P crc cbs cfg 0 retries u' r with
      ⟨b, -, -, hstep⟩ | ⟨-, hstep⟩ | ⟨-, hstep⟩ <;> rw [unknownStep, hstep]
    · exact first_firstBlock (b = charC) hfirst
    · show Status.errorCancel ≠ .ok
      decide
    · exact startAgain_firstBlock retries u'
  | reply v retries payload =>
    obtain ⟨hmax, hnum, hsent, hu, rfl⟩ := h
    obtain rfl := hack v retries _ rfl
    simp only [transmitStep, if_true]
    have hnext : (supply cbs cfg (v.blockNum + 1) v.userData).1 < 0 := by
      rw [hnum, hu]
      exact hsecond hmax
    obtain ⟨es, hfails⟩ : ∃ es, nextBlock P crc cbs cfg 0 { v with
        blockNum := v.blockNum + 1
        bytesSent := P.toSize (v.bytesSent + (supply cbs cfg 1 u).2.1.length) } =
          ⟨es, .done .errorIo⟩ := nextBlock_fails hnext
    rw [hfails]
    show Status.errorIo ≠ .ok
    decide
  | eotReply retries => exact absurd h id

theorem neverCut_of_firstBlock {u : υ} (k : ℕ) (hfirst : (supply cbs cfg 1 u).1 = 0)
    (hsecond : 0 < cfg.maxRetries → (supply cbs cfg 2 (supply cbs cfg 1 u).2.2).1 < 0) :
    NeverCut P crc cbs cfg u k := by
  intro reads hacks
  have hrun := trace_invariant (unknownStep P crc cbs cfg) (fun _ n => FirstBlock cbs cfg u n)
    (fun s r => ∀ w retries payload, s = .reply w retries payload → r = .ok ack)
    (fun _ s r hack h => firstBlock_step hfirst hsecond hack h)
    (xmodemTransmit u).next reads [] hacks rfl
  constructor
  · intro hdone
    rw [hdone] at hrun
    exact absurd rfl hrun
  · intro retries hwait
    rw [hwait] at hrun
    exact absurd hrun id

/-- The streams that are not cut are those of a single block, and those of which nothing is
sent at all. -/
theorem neverCut_iff {υ : Type} (P : Platform) (crc : CrcService) (cbs : TxCallbacks υ) (cfg : Config)
    (userData : υ) (k : ℕ) (hk : 1 ≤ k) (h : Supplies cbs cfg k 1 userData) :
    NeverCut P crc cbs cfg userData k ↔ k = 1 ∨ cfg.maxRetries = 0 := by
  have hzero : cfg.maxRetries = 0 → ¬ 0 < cfg.maxRetries := by
    intro hmax
    rw [hmax]
    decide
  have hpos : cfg.maxRetries ≠ 0 → 0 < cfg.maxRetries := UInt8.pos_iff_ne_zero.mpr
  cases k with
  | zero => omega
  | succ k =>
    cases k with
    | zero =>
      obtain ⟨hfirst, hnone⟩ := h
      exact iff_of_true (neverCut_of_firstBlock 1 hfirst fun _ => hnone) (.inl rfl)
    | succ k =>
      constructor
      · intro hnever
        right
        by_contra hmax
        exact not_neverCut (hpos hmax) h hnever
      · rintro (hk | hmax)
        · omega
        · exact neverCut_of_firstBlock (k + 2) h.1 fun hm => absurd hm (hzero hmax)

/-- A stream of as many blocks as `user_data` says, all of padding. -/
def countdown : TxCallbacks ℕ where
  dataCb _ buf u := if u = 0 then (-1, buf, u) else (0, buf, u - 1)
  dataCb_length := by
    intro n buf u
    split <;> rfl

theorem neverCut_one_block :
    NeverCut platform32 referenceCrc countdown configInit 1 1 := by
  refine (neverCut_iff platform32 referenceCrc countdown configInit 1 1 (by decide) ⟨rfl, ?_⟩).mpr
    (.inl rfl)
  show (-1 : ℤ) < 0
  decide

theorem not_neverCut_two_blocks :
    ¬ NeverCut platform32 referenceCrc countdown configInit 2 2 := by
  refine not_neverCut (by decide) ⟨rfl, rfl, ?_⟩
  show (-1 : ℤ) < 0
  decide

end ZephyrModem.Xmodem
