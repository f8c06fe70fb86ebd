import ZephyrModem.Counter
import ZephyrModem.Reactive.Transcript
import ZephyrModem.Xmodem.File
import ZephyrModem.Xmodem.Frames

/-!
# What `xmodem_transmit` writes, between what it reads

From the start byte on, the transcript is that of one block after another. A block is
a call of `data_cb` and the same packet over and over, each time with the reply read
after it; the next block begins after an ACK.
-/

namespace ZephyrModem.Xmodem
open ZephyrModem.Reactive

/-- A block as it goes out: its packet, as often as it is written, with the reply read
after it, unless none has been read yet. -/
structure SentBlock where
  packet : RawPacket
  res : ℤ
  replies : List (Option Read)
  deriving Repr, DecidableEq

namespace SentBlock

/-- The packet on the line, and the reply. -/
def attempt (p : RawPacket) (reply : Option Read) : List (Item Read Event) :=
  (writeBytes p.bytes).map .event ++ (reply.map .read).toList

def items (b : SentBlock) : List (Item Read Event) :=
  .event (.dataCb b.packet.blkNum b.packet.payload b.res) :: b.replies.flatMap (attempt b.packet)

def Acked (b : SentBlock) : Prop := b.replies.getLast? = some (some (.ok ack))

/-- Block `i` of a transmission that may write a packet `cfg.maxRetries` times. -/
structure WellFormed (crc : CrcService) (cfg : Config) (c : Bool) (i : ℕ) (b : SentBlock) : Prop where
  framed : b.packet.Framed c
  verified : b.packet.Verified crc c
  size : b.packet.payload.length = txBlockSize cfg
  number : b.packet.blkNum.toNat = i % 256
  written : 1 ≤ b.replies.length
  limit : b.replies.length ≤ cfg.maxRetries.toNat

end SentBlock

/-- What is left after the packets: reads, the bytes CAN and EOT, and a call of `data_cb`
for a block that does not go out. -/
def Closes : Item Read Event → Prop
  | .event (.write b) => b = can ∨ b = eot
  | _ => True

def buffers (tr : List (Item Read Event)) : List (List Byte) := delivered (tr.filterMap Item.event?)

theorem buffers_append (as bs : List (Item Read Event)) :
    buffers (as ++ bs) = buffers as ++ buffers bs := by
  simp [buffers, delivered]

theorem buffers_attempt (p : RawPacket) (reply : Option Read) :
    buffers (SentBlock.attempt p reply) = [] := by
  rw [SentBlock.attempt, buffers_append, buffers, filterMap_event, delivered_writeBytes]
  cases reply <;> rfl

theorem buffers_items (b : SentBlock) : buffers b.items = [b.packet.payload] := by
  have hnone : buffers (b.replies.flatMap (SentBlock.attempt b.packet)) = [] := by
    induction b.replies with
    | nil => rfl
    | cons r rs ih => rw [List.flatMap_cons, buffers_append, buffers_attempt, ih]; rfl
  rw [SentBlock.items, ← List.singleton_append, buffers_append, hnone]
  rfl

theorem buffers_blocks (bs : List SentBlock) :
    buffers (bs.flatMap SentBlock.items) = bs.map fun b => b.packet.payload := by
  induction bs with
  | nil => rfl
  | cons b bs ih => rw [List.flatMap_cons, buffers_append, buffers_items, ih]; rfl

section Trace

variable {υ : Type} (P : Platform) (crc : CrcService) (cbs : TxCallbacks υ) (cfg : Config)
  (totalLen : ℕ)

def blocksOf : ℕ := (totalLen + txBlockSize cfg - 1) / txBlockSize cfg

/-- A transcript from the first block on, in check mode `c`. -/
structure PacketTrace (c : Bool) (tr : List (Item Read Event)) (n : Next (TxSite υ) Status)
    (blocks : List SentBlock) (closing : List (Item Read Event)) : Prop where
  items : tr = blocks.flatMap SentBlock.items ++ closing
  wellFormed : ∀ i (h : i < blocks.length), blocks[i].WellFormed crc cfg c (i + 1)
  acked : ∀ i (h : i + 1 < blocks.length), blocks[i].Acked
  closing : ∀ x ∈ closing, Closes x
  complete : n = .done .ok → blocks.length = blocksOf cfg totalLen ∧
    buffers tr = blocks.map fun b => b.packet.payload

/-! ### One block -/

theorem items_reply (p : RawPacket) (res : ℤ) (rs : List Read) (r : Read) :
    (⟨p, res, rs.map some ++ [none]⟩ : SentBlock).items ++ [.read r] =
      (⟨p, res, (rs ++ [r]).map some⟩ : SentBlock).items := by
  simp [SentBlock.items, SentBlock.attempt]

theorem items_again (p : RawPacket) (res : ℤ) (rs : List Read) :
    (⟨p, res, rs.map some⟩ : SentBlock).items ++ (writeBytes p.bytes).map .event =
      (⟨p, res, rs.map some ++ [none]⟩ : SentBlock).items := by
  simp [SentBlock.items, SentBlock.attempt]

theorem sent_wellFormed {c : Bool} {k : ℕ} {payload : List Byte}
    (hlen : payload.length = txBlockSize cfg) (res : ℤ) {replies : List (Option Read)}
    (hwritten : 1 ≤ replies.length) (hlimit : replies.length ≤ cfg.maxRetries.toNat) :
    (⟨sentPacket crc c (UInt8.ofNat k) payload, res, replies⟩ : SentBlock).WellFormed
      crc cfg c k where
  framed := sentPacket_framed crc c _ payload (hlen ▸ txBlockSize_cases cfg)
  verified := sentPacket_verified crc c _ payload
  size := hlen
  number := UInt8.toNat_ofNat'
  written := hwritten
  limit := hlimit

/-! ### The rest of the transmission -/

/-- Blocks that the receiver has acknowledged, from the first on. -/
structure Settled (c : Bool) (blocks : List SentBlock) : Prop where
  wellFormed : ∀ i (h : i < blocks.length), blocks[i].WellFormed crc cfg c (i + 1)
  acked : ∀ b ∈ blocks, b.Acked

variable {crc cfg}

theorem Settled.snoc_wellFormed {c : Bool} {blocks : List SentBlock} (h : Settled crc cfg c blocks)
    {b : SentBlock} (hb : b.WellFormed crc cfg c (blocks.length + 1)) (i : ℕ)
    (hi : i < (blocks ++ [b]).length) :
    (blocks ++ [b])[i].WellFormed crc cfg c (i + 1) := by
  rw [List.length_append, List.length_singleton] at hi
  by_cases hlast : i = blocks.length
  · subst hlast
    simpa using hb
  · rw [List.getElem_append_left (by omega)]
    exact h.wellFormed i (by omega)

theorem Settled.snoc {c : Bool} {blocks : List SentBlock} (h : Settled crc cfg c blocks)
    {b : SentBlock} (hb : b.WellFormed crc cfg c (blocks.length + 1)) (hack : b.Acked) :
    Settled crc cfg c (blocks ++ [b]) where
  wellFormed := h.snoc_wellFormed hb
  acked := by
    intro x hx
    rcases List.mem_append.mp hx with hx | hx
    · exact h.acked x hx
    · rw [List.mem_singleton.mp hx]
      exact hack

variable (crc cfg)

/-- The locals while `k` blocks are acknowledged, which are no more than there are, unless
`bytes_sent` wraps before that. -/
structure AtBlock (c : Bool) (k : ℕ) (v : TxLocals υ) : Prop where
  crcMode : v.crcMode = c
  blockNum : v.blockNum = UInt8.ofNat (k + 1)
  bytesSent : v.bytesSent = P.toSize (k * txBlockSize cfg)
  left : k ≤ blocksOf cfg totalLen ∨ P.sizeMod ≤ blocksOf cfg totalLen * txBlockSize cfg

def Stands (c : Bool) (tr : List (Item Read Event)) : Next (TxSite υ) Status → Prop
  | .wait (.start ..) => False
  | .wait (.reply v retries payload) =>
    retries < cfg.maxRetries ∧ payload.length = txBlockSize cfg ∧
      ∃ (blocks : List SentBlock) (res : ℤ) (rs : List Read),
        Settled crc cfg c blocks ∧ rs.length = retries.toNat ∧
        AtBlock P cfg totalLen c blocks.length v ∧ v.bytesSent < totalLen ∧
        tr = blocks.flatMap SentBlock.items ++
          (⟨sentPacket crc c v.blockNum payload, res, rs.map some ++ [none]⟩ : SentBlock).items
  | .wait (.eotReply _) =>
    ∃ blocks closing, Settled crc cfg c blocks ∧ blocks.length = blocksOf cfg totalLen ∧
      (∀ x ∈ closing, Closes x) ∧ buffers closing = [] ∧
      tr = blocks.flatMap SentBlock.items ++ closing
  | .done st => ∃ blocks closing,
    PacketTrace crc cfg totalLen c tr (.done st : Next (TxSite υ) Status) blocks closing

theorem le_blocksOf : totalLen ≤ blocksOf cfg totalLen * txBlockSize cfg := by
  have hpos := txBlockSize_pos cfg
  have hdiv := Nat.lt_div_mul_add hpos (a := totalLen + txBlockSize cfg - 1)
  rw [blocksOf]
  omega

theorem blocksOf_lt (htotal : 0 < totalLen) :
    blocksOf cfg totalLen * txBlockSize cfg < totalLen + txBlockSize cfg := by
  have hpos := txBlockSize_pos cfg
  have hdiv := Nat.div_mul_le_self (totalLen + txBlockSize cfg - 1) (txBlockSize cfg)
  rw [blocksOf]
  omega

theorem toSize_mul_add_le (k : ℕ) :
    P.toSize (k * txBlockSize cfg) + txBlockSize cfg ≤ P.sizeMod := by
  obtain ⟨m, hm⟩ := txBlockSize_dvd P cfg
  obtain ⟨j, hj⟩ := (Nat.dvd_mod_iff (txBlockSize_dvd P cfg)).mpr
    (Nat.dvd_mul_left (txBlockSize cfg) k)
  have hlt : P.toSize (k * txBlockSize cfg) < P.sizeMod := P.toSize_lt _
  change P.toSize (k * txBlockSize cfg) = _ at hj
  rw [hj, hm] at hlt ⊢
  exact Nat.mul_le_mul_left _ (Nat.lt_of_mul_lt_mul_left hlt)

variable {P cfg totalLen}

theorem AtBlock.bytesSent_eq {c : Bool} {k : ℕ} {v : TxLocals υ} (h : AtBlock P cfg totalLen c k v)
    (hfit : blocksOf cfg totalLen * txBlockSize cfg < P.sizeMod) :
    k ≤ blocksOf cfg totalLen ∧ v.bytesSent = k * txBlockSize cfg := by
  rcases h.left with hle | hwrap
  · refine ⟨hle, ?_⟩
    rw [h.bytesSent]
    exact P.toSize_of_lt (Nat.lt_of_le_of_lt (Nat.mul_le_mul_right _ hle) hfit)
  · omega

theorem AtBlock.all {c : Bool} {k : ℕ} {v : TxLocals υ} (h : AtBlock P cfg totalLen c k v)
    (htotal : 0 < totalLen) (hend : ¬ v.bytesSent < totalLen) : k = blocksOf cfg totalLen := by
  have hlt := blocksOf_lt cfg totalLen htotal
  by_cases hfit : blocksOf cfg totalLen * txBlockSize cfg < P.sizeMod
  · obtain ⟨hle, hsent⟩ := h.bytesSent_eq hfit
    have hblocks : blocksOf cfg totalLen * txBlockSize cfg < (k + 1) * txBlockSize cfg := by
      rw [Nat.add_mul, Nat.one_mul]
      omega
    have hk := Nat.lt_of_mul_lt_mul_right hblocks
    omega
  · have hsent := h.bytesSent
    have hsize := toSize_mul_add_le P cfg k
    omega

theorem AtBlock.next {c : Bool} {k : ℕ} {v : TxLocals υ} (h : AtBlock P cfg totalLen c k v)
    (hmore : v.bytesSent < totalLen) {payload : List Byte} (hlen : payload.length = txBlockSize cfg) :
    AtBlock P cfg totalLen c (k + 1)
      { v with blockNum := v.blockNum + 1, bytesSent := P.toSize (v.bytesSent + payload.length) } where
  crcMode := h.crcMode
  blockNum := by
    simp only [h.blockNum]
    rw [UInt8.ofNat_add (k + 1) 1]
    rfl
  bytesSent := by
    simp only [h.bytesSent, hlen, Platform.toSize, Nat.mod_add_mod, Nat.add_mul, Nat.one_mul]
  left := by
    by_cases hfit : blocksOf cfg totalLen * txBlockSize cfg < P.sizeMod
    · obtain ⟨hle, hsent⟩ := h.bytesSent_eq hfit
      have htotal := le_blocksOf cfg totalLen
      have hblocks : k * txBlockSize cfg < blocksOf cfg totalLen * txBlockSize cfg := by omega
      exact .inl (Nat.lt_of_mul_lt_mul_right hblocks)
    · exact .inr (by omega)

/-! ### The steps -/

theorem closes_sendByte {b : Byte} (hb : b = can ∨ b = eot) :
    ∀ x ∈ (sendByte b).map (Item.event (ι := Read)), Closes x := by
  intro x hx
  obtain ⟨e, he, rfl⟩ := List.mem_map.mp hx
  rw [List.mem_singleton.mp he]
  exact hb

theorem stands_failed {c : Bool} {blocks : List SentBlock} {closing : List (Item Read Event)}
    {st : Status} (hst : st ≠ .ok)
    (hwell : ∀ i (h : i < blocks.length), blocks[i].WellFormed crc cfg c (i + 1))
    (hacked : ∀ i (h : i + 1 < blocks.length), blocks[i].Acked) (hclosing : ∀ x ∈ closing, Closes x) :
    Stands P crc cfg totalLen c (blocks.flatMap SentBlock.items ++ closing)
      (.done st : Next (TxSite υ) Status) := by
  refine ⟨blocks, closing, rfl, hwell, hacked, hclosing, ?_⟩
  intro h
  cases h
  exact absurd rfl hst

theorem Settled.flatMap_snoc (blocks : List SentBlock) (b : SentBlock) (tr : List (Item Read Event)) :
    blocks.flatMap SentBlock.items ++ (b.items ++ tr) = (blocks ++ [b]).flatMap SentBlock.items ++ tr := by
  rw [List.flatMap_append, List.flatMap_singleton, List.append_assoc]

theorem Settled.snoc_failed {c : Bool} {blocks : List SentBlock} (h : Settled crc cfg c blocks)
    {b : SentBlock} (hb : b.WellFormed crc cfg c (blocks.length + 1))
    {closing : List (Item Read Event)} (hclosing : ∀ x ∈ closing, Closes x) {st : Status}
    (hst : st ≠ .ok) :
    Stands P crc cfg totalLen c (blocks.flatMap SentBlock.items ++ (b.items ++ closing))
      (.done st : Next (TxSite υ) Status) := by
  rw [Settled.flatMap_snoc]
  apply stands_failed crc hst (h.snoc_wellFormed hb) ?_ hclosing
  intro i hi
  rw [List.length_append, List.length_singleton] at hi
  rw [List.getElem_append_left (by omega)]
  exact h.acked _ (List.getElem_mem _)

/-- At the condition of the retransmission loop. -/
theorem stands_sendPacket {c : Bool} {blocks : List SentBlock} (h : Settled crc cfg c blocks)
    {v : TxLocals υ} (hv : AtBlock P cfg totalLen c blocks.length v) (hmore : v.bytesSent < totalLen)
    {payload : List Byte} (hlen : payload.length = txBlockSize cfg) {retries : Byte}
    (hle : retries ≤ cfg.maxRetries) (res : ℤ) {rs : List Read} (hrs : rs.length = retries.toNat) :
    Stands P crc cfg totalLen c
      (blocks.flatMap SentBlock.items ++
        ((⟨sentPacket crc c v.blockNum payload, res, rs.map some⟩ : SentBlock).items ++
          (sendPacket crc cfg v retries payload).events.map .event))
      (sendPacket crc cfg v retries payload).next := by
  have hnat : retries.toNat ≤ cfg.maxRetries.toNat := hle
  rcases sendPacket_cases crc cfg v retries payload with ⟨hlt, hsend⟩ | ⟨hge, hsend⟩ <;> rw [hsend]
  · refine ⟨hlt, hlen, blocks, res, rs, h, hrs, hv, hmore, ?_⟩
    rw [← items_again, hv.crcMode]
    rfl
  · have hclosing := closes_sendByte (b := can) (.inl rfl)
    cases rs with
    | nil =>
      apply stands_failed crc (by decide) h.wellFormed
      · intro i hi
        exact h.acked _ (List.getElem_mem _)
      · intro x hx
        rcases List.mem_append.mp hx with hx | hx
        · rw [List.mem_singleton.mp hx]
          trivial
        · exact hclosing x hx
    | cons r rs =>
      apply h.snoc_failed crc ?_ hclosing (by decide)
      rw [hv.blockNum]
      apply sent_wellFormed crc cfg hlen res
      · simp
      · rw [List.length_map]
        omega

theorem stands_sendEot {c : Bool} {blocks : List SentBlock} (h : Settled crc cfg c blocks)
    (hall : blocks.length = blocksOf cfg totalLen) {closing : List (Item Read Event)}
    (hclosing : ∀ x ∈ closing, Closes x) (hnone : buffers closing = []) (retries : Byte) :
    Stands P crc cfg totalLen c
      (blocks.flatMap SentBlock.items ++ (closing ++ (sendEot (υ := υ) cfg retries).events.map .event))
      (sendEot (υ := υ) cfg retries).next := by
  rcases sendEot_cases (υ := υ) cfg retries with hsend | hsend <;> rw [hsend]
  · refine ⟨blocks, closing ++ (sendByte eot).map .event, h, hall, ?_, ?_, rfl⟩
    · intro x hx
      rcases List.mem_append.mp hx with hx | hx
      · exact hclosing x hx
      · exact closes_sendByte (.inr rfl) x hx
    · rw [buffers_append, hnone]
      rfl
  · rw [List.map_nil, List.append_nil]
    apply stands_failed crc (by decide) h.wellFormed ?_ hclosing
    intro i hi
    exact h.acked _ (List.getElem_mem _)

theorem Settled.acked_lt {c : Bool} {blocks : List SentBlock} (h : Settled crc cfg c blocks) (i : ℕ)
    (hi : i + 1 < blocks.length) : blocks[i].Acked := h.acked _ (List.getElem_mem _)

/-- At the condition of the block loop. -/
theorem stands_nextBlock (cbs : TxCallbacks υ) (htotal : 0 < totalLen) {c : Bool}
    {blocks : List SentBlock} (h : Settled crc cfg c blocks) {v : TxLocals υ}
    (hv : AtBlock P cfg totalLen c blocks.length v) :
    Stands P crc cfg totalLen c
      (blocks.flatMap SentBlock.items ++
        (nextBlock P crc cbs cfg totalLen v).events.map .event)
      (nextBlock P crc cbs cfg totalLen v).next := by
  by_cases hmore : v.bytesSent < totalLen
  · have hlen := cbs.dataCb_length v.blockNum (List.replicate (txBlockSize cfg) 0x1A) v.userData
    rw [List.length_replicate] at hlen
    generalize hcall : cbs.dataCb v.blockNum (List.replicate (txBlockSize cfg) 0x1A) v.userData =
      called at hlen
    obtain ⟨res, payload, u⟩ := called
    simp only [nextBlock, blockSizeAt_eq, hmore, or_true, if_true, hcall]
    by_cases hneg : res < 0
    · simp only [if_pos hneg]
      apply stands_failed crc (by decide) h.wellFormed h.acked_lt
      intro x hx
      rcases List.mem_cons.mp hx with rfl | hx
      · trivial
      · exact closes_sendByte (.inl rfl) x hx
    · have htotal' : ¬ (res = 0 ∧ totalLen = 0 ∧ v.bytesSent > 0) := by omega
      simp only [if_neg hneg, if_neg htotal']
      have hv' : AtBlock P cfg totalLen c blocks.length { v with userData := u } :=
        ⟨hv.crcMode, hv.blockNum, hv.bytesSent, hv.left⟩
      have hnone : ([] : List Read).length = (0 : Byte).toNat := rfl
      exact stands_sendPacket crc h hv' hmore hlen (Nat.zero_le _) res hnone
  · have hdone : ¬ (totalLen = 0 ∨ v.bytesSent < totalLen) := by omega
    simp only [nextBlock, if_neg hdone]
    have hnone : ∀ x ∈ ([] : List (Item Read Event)), Closes x := by simp
    exact stands_sendEot crc h (hv.all htotal hmore) hnone rfl 0

theorem stands_step (cbs : TxCallbacks υ) (htotal : 0 < totalLen) {c : Bool}
    {tr : List (Item Read Event)} {s : TxSite υ} (r : Read)
    (h : Stands P crc cfg totalLen c tr (.wait s)) :
    Stands P crc cfg totalLen c
      (tr ++ .read r :: (transmitStep P crc cbs cfg totalLen s r).events.map .event)
      (transmitStep P crc cbs cfg totalLen s r).next := by
  cases s with
  | start retries u => exact h.elim
  | reply v retries payload =>
    obtain ⟨hlt, hlen, blocks, res, rs, hblocks, hrs, hv, hmore, rfl⟩ := h
    obtain ⟨hsucc, hle⟩ := succ_of_lt hlt
    have hrs' : (rs ++ [r]).length = (retries + 1).toNat := by
      rw [List.length_append, hrs, hsucc]
      rfl
    have htr : ∀ es, blocks.flatMap SentBlock.items ++
          (⟨sentPacket crc c v.blockNum payload, res, rs.map some ++ [none]⟩ : SentBlock).items ++
          .read r :: es =
        blocks.flatMap SentBlock.items ++
          ((⟨sentPacket crc c v.blockNum payload, res, (rs ++ [r]).map some⟩ : SentBlock).items ++
            es) := by
      intro es
      rw [← items_reply, List.append_assoc, List.append_assoc]
      rfl
    have hwell : (⟨sentPacket crc c v.blockNum payload, res, (rs ++ [r]).map some⟩ :
        SentBlock).WellFormed crc cfg c (blocks.length + 1) := by
      rw [hv.blockNum]
      apply sent_wellFormed crc cfg hlen res
      · simp
      · rw [List.length_map, hrs']
        exact hle
    have hagain := stands_sendPacket crc hblocks hv hmore hlen hle res hrs'
    rw [htr]
    rcases transmitStep_reply P crc cbs cfg totalLen v retries payload r with
      ⟨rfl, hstep⟩ | ⟨es, hes, hstep⟩ | ⟨-, hstep⟩ <;> rw [hstep]
    · have hacked := hblocks.snoc hwell (by simp [SentBlock.Acked])
      have hnext := stands_nextBlock crc cbs htotal hacked (v := { v with
          blockNum := v.blockNum + 1
          bytesSent := P.toSize (v.bytesSent + payload.length) })
        (by rw [List.length_append]; exact hv.next hmore hlen)
      rw [← Settled.flatMap_snoc] at hnext
      exact hnext
    · apply hblocks.snoc_failed crc hwell ?_ (by decide)
      rcases hes with rfl | rfl
      · intro x hx
        cases hx
      · intro x hx
        rw [List.map_append] at hx
        rcases List.mem_append.mp hx with hx | hx <;> exact closes_sendByte (.inl rfl) x hx
    · exact hagain
  | eotReply retries =>
    obtain ⟨blocks, closing, hblocks, hall, hclosing, hnone, rfl⟩ := h
    have hclosing' : ∀ x ∈ closing ++ [.read r], Closes x := by
      intro x hx
      rcases List.mem_append.mp hx with hx | hx
      · exact hclosing x hx
      · rw [List.mem_singleton.mp hx]
        trivial
    have hnone' : buffers (closing ++ [.read r]) = [] := by
      rw [buffers_append, hnone]
      rfl
    by_cases hack : r = .ok ack
    · simp only [transmitStep, if_pos hack]
      refine ⟨blocks, closing ++ [.read r], List.append_assoc .., hblocks.wellFormed,
        hblocks.acked_lt, hclosing', ?_⟩
      intro _
      refine ⟨hall, ?_⟩
      rw [List.append_assoc, buffers_append, buffers_blocks]
      change _ ++ buffers (closing ++ [.read r]) = _
      rw [hnone', List.append_nil]
    · simp only [transmitStep, if_neg hack]
      have hagain := stands_sendEot (υ := υ) (P := P) crc hblocks hall hclosing' hnone' (retries + 1)
      rw [List.append_assoc] at hagain
      rw [List.append_assoc]
      exact hagain

theorem Stands.packetTrace {c : Bool} {tr : List (Item Read Event)} {n : Next (TxSite υ) Status}
    (h : Stands P crc cfg totalLen c tr n) :
    ∃ blocks closing, PacketTrace crc cfg totalLen c tr n blocks closing := by
  cases n with
  | done st => exact h
  | wait s =>
    cases s with
    | start retries u => exact h.elim
    | reply v retries payload =>
      obtain ⟨hlt, hlen, blocks, res, rs, hblocks, hrs, hv, -, rfl⟩ := h
      have hwell : (⟨sentPacket crc c v.blockNum payload, res, rs.map some ++ [none]⟩ :
          SentBlock).WellFormed crc cfg c (blocks.length + 1) := by
        rw [hv.blockNum]
        apply sent_wellFormed crc cfg hlen res
        · simp
        · rw [List.length_append, List.length_map, hrs]
          exact hlt
      refine ⟨_, [], ?_, hblocks.snoc_wellFormed hwell, ?_, by simp, by intro h; cases h⟩
      · rw [← Settled.flatMap_snoc, List.append_nil]
      · intro i hi
        rw [List.length_append, List.length_singleton] at hi
        rw [List.getElem_append_left (by omega)]
        exact hblocks.acked _ (List.getElem_mem _)
    | eotReply retries =>
      obtain ⟨blocks, closing, hblocks, hall, hclosing, -, rfl⟩ := h
      exact ⟨blocks, closing, rfl, hblocks.wellFormed, hblocks.acked_lt, hclosing, by intro h; cases h⟩

/-! ### The start byte -/

theorem nextBlock_ne_start (cbs : TxCallbacks υ) (v : TxLocals υ) (retries : Byte) (u : υ) :
    (nextBlock P crc cbs cfg totalLen v).next ≠ .wait (.start retries u) := by
  unfold nextBlock sendPacket sendEot
  dsimp only
  split_ifs <;> exact fun h => by cases h

theorem startAgain_events (retries : Byte) (u : υ) : (startAgain cfg retries u).events = [] := by
  unfold startAgain
  dsimp only
  split <;> rfl

theorem silent_step (cbs : TxCallbacks υ) {s : TxSite υ} {r : Read} {retries : Byte} {u : υ}
    (h : (transmitStep P crc cbs cfg totalLen s r).next = .wait (.start retries u)) :
    (∃ retries' u', s = .start retries' u') ∧ (transmitStep P crc cbs cfg totalLen s r).events = [] := by
  cases s with
  | start retries' u' =>
    refine ⟨⟨retries', u', rfl⟩, ?_⟩
    rcases transmitStep_start P crc cbs cfg totalLen retries' u' r with
      ⟨b, -, -, hstep⟩ | ⟨-, hstep⟩ | ⟨-, hstep⟩ <;> rw [hstep] at h ⊢
    · exact absurd h (nextBlock_ne_start crc cbs _ _ _)
    · exact startAgain_events retries' u'
  | reply v retries' payload =>
    exfalso
    rcases transmitStep_reply P crc cbs cfg totalLen v retries' payload r with
      ⟨-, hstep⟩ | ⟨es, -, hstep⟩ | ⟨-, hstep⟩ <;> rw [hstep] at h
    · exact nextBlock_ne_start crc cbs _ _ _ h
    · cases h
    · rcases sendPacket_cases crc cfg v (retries' + 1) payload with ⟨-, he⟩ | ⟨-, he⟩ <;>
        rw [he] at h <;> cases h
  | eotReply retries' =>
    exfalso
    by_cases hack : r = .ok ack
    · simp only [transmitStep, if_pos hack] at h
      cases h
    · simp only [transmitStep, if_neg hack] at h
      rcases sendEot_cases (υ := υ) cfg (retries' + 1) with he | he <;> rw [he] at h <;> cases h

theorem silent_run (cbs : TxCallbacks υ) (userData : υ) {pre : List Read} {retries : Byte} {u : υ}
    (h : (run (transmitStep P crc cbs cfg totalLen) (xmodemTransmit userData).next pre).next =
      .wait (.start retries u)) :
    transcript (transmitStep P crc cbs cfg totalLen) (xmodemTransmit userData).next pre =
      pre.map .read := by
  apply transcript_silent _ h
  refine trace_invariant _ (fun tr n => ∀ retries u, n = .wait (.start retries u) → tr = [])
    (fun _ _ => True) ?_ _ pre [] (fun _ _ => trivial) ?_ retries u h
  · intro tr s r _ hs retries u hnext
    obtain ⟨⟨retries', u', rfl⟩, hevents⟩ := silent_step crc cbs hnext
    rw [hs retries' u' rfl, hevents]
    rfl
  · intro _ _ _
    rfl

end Trace

/-- After the start byte, `xmodem_transmit` writes block after block, each block at most
`max_retries` times in a row and the next one after an ACK, and then its closing signals. -/
theorem transmit_packets {υ : Type} (P : Platform) (crc : CrcService) (cbs : TxCallbacks υ)
    (cfg : Config) {totalLen : ℕ} (htotal : 0 < totalLen) (userData : υ) {pre : List Read}
    {retries : Byte} {u : υ}
    (hpre : (run (transmitStep P crc cbs cfg totalLen) (xmodemTransmit userData).next pre).next =
      .wait (.start retries u)) {b : Byte} (hb : b = charC ∨ b = nak) (rest : List Read) :
    ∃ tr blocks closing,
      transcript (transmitStep P crc cbs cfg totalLen) (xmodemTransmit userData).next
          (pre ++ .ok b :: rest) = (pre ++ [ReadResult.ok b]).map .read ++ tr ∧
        PacketTrace crc cfg totalLen (b = charC) tr
          (run (transmitStep P crc cbs cfg totalLen) (xmodemTransmit userData).next
            (pre ++ .ok b :: rest)).next blocks closing := by
  have hfirst : transmitStep P crc cbs cfg totalLen (.start retries u) (.ok b) =
      nextBlock P crc cbs cfg totalLen ⟨b = charC, 1, 0, u⟩ := by
    rcases hb with rfl | rfl <;> rfl
  have hsettled : Settled crc cfg (b = charC) [] := ⟨by simp, by simp⟩
  have hstart : AtBlock P cfg totalLen (b = charC) 0 (⟨b = charC, 1, 0, u⟩ : TxLocals υ) := by
    refine ⟨rfl, rfl, ?_, .inl (Nat.zero_le _)⟩
    rw [Nat.zero_mul]
    exact (Nat.zero_mod _).symm
  have hopen := stands_nextBlock crc cbs htotal hsettled hstart
  rw [List.flatMap_nil, List.nil_append] at hopen
  have hrun := transcript_invariant (transmitStep P crc cbs cfg totalLen)
    (Stands P crc cfg totalLen (b = charC)) (fun tr s r h => stands_step crc cbs htotal r h) _ rest _ hopen
  obtain ⟨blocks, closing, htrace⟩ := hrun.packetTrace
  have hnext : (run (transmitStep P crc cbs cfg totalLen) (xmodemTransmit userData).next
      (pre ++ .ok b :: rest)).next = (run (transmitStep P crc cbs cfg totalLen)
        (nextBlock P crc cbs cfg totalLen ⟨b = charC, 1, 0, u⟩).next rest).next := by
    rw [run_append, hpre, run_wait, hfirst]
    rfl
  rw [← hnext] at htrace
  refine ⟨_, blocks, closing, ?_, htrace⟩
  rw [transcript_append, silent_run crc cbs userData hpre, hpre, transcript_wait, hfirst,
    List.map_append, List.append_assoc]
  rfl

/-- Three bytes in one block, which is acknowledged at the second attempt. -/
theorem transmit_packets_three_bytes :
    ∃ tr blocks closing,
      transcript (transmitStep platform32 referenceCrc (fileCallbacks [1, 2, 3]) configInit 3)
          (xmodemTransmit 0).next ([.timeout] ++ .ok charC :: [.timeout, .ok ack, .ok ack]) =
        ([ReadResult.timeout] ++ [ReadResult.ok charC]).map .read ++ tr ∧
      PacketTrace referenceCrc configInit 3 (charC = charC) tr
        (run (transmitStep platform32 referenceCrc (fileCallbacks [1, 2, 3]) configInit 3)
          (xmodemTransmit 0).next ([.timeout] ++ .ok charC :: [.timeout, .ok ack, .ok ack])).next
        blocks closing :=
  transmit_packets platform32 referenceCrc (fileCallbacks [1, 2, 3]) configInit (by decide) 0 rfl
    (.inl rfl) _

end ZephyrModem.Xmodem
