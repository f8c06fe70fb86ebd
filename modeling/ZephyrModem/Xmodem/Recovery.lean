import ZephyrModem.Xmodem.File
import ZephyrModem.Xmodem.Frames

/-!
# Lock-step transfer over a damaging line

In lock-step each packet is answered before the next one is sent and no byte of
an earlier attempt is left over. The line may replace a packet by a damaged one.
The transmitter repeats a block until its packet comes through undamaged; the
receiver rejects every damaged packet without changing what it has stored.
-/

namespace ZephyrModem.Xmodem
open ZephyrModem.Reactive

/-! ### The lock-step executor -/

/-- Both sides after an exchange. `replies` are the receiver's bytes that the
transmitter has not read yet, `block` the number of blocks fetched from the
file, `attempt` the number of packets already sent for the current one. -/
structure LockStep (υ : Type) where
  tx : Next (TxSite ℕ) Status
  rx : Next (RxState υ) RxResult
  replies : List Byte
  block : ℕ
  attempt : ℕ
  log : List Event

/-- Attempt `j` (from 0) at block `n` (from 1), as the line delivers it. -/
abbrev Damage := ℕ → ℕ → Option RawPacket

section Executor

variable {υ : Type} (P : Platform) (crc : CrcService) (cbs : RxCallbacks υ)
  (tcfg rcfg : Config) (file : List Byte) (damage : Damage)

/-- What the receiver does with all the bytes of one attempt; while it drains
the line, its read times out after the last byte. -/
def answer (n : Next (RxState υ) RxResult) (bs : List Byte) : RxOut υ :=
  let o := feed (receiveStep P crc cbs rcfg) n bs
  match o.next with
  | .wait ⟨.purge bad, v⟩ => (receiveStep P crc cbs rcfg ⟨.purge bad, v⟩ .timeout).after o.events
  | _ => o

/-- The bytes that arrive: a packet may be damaged, EOT may not. -/
def deliver (n : Next (TxSite ℕ) Status) (block attempt : ℕ) (sent : List Byte) : List Byte :=
  match n with
  | .wait (.reply ..) =>
    match damage block attempt with
    | some p => p.bytes
    | none => sent
  | _ => sent

/-- One exchange: the transmitter reads the replies and sends, the receiver answers. -/
def exchange (s : LockStep υ) : LockStep υ :=
  let o := run (txStep P crc tcfg file) s.tx (s.replies.map .ok)
  let fetched := delivered o.events ≠ []
  let block := if fetched then s.block + 1 else s.block
  let attempt := if fetched then 0 else s.attempt + 1
  let a := answer P crc cbs rcfg s.rx
    (deliver damage o.next block attempt (o.events.filterMap Event.wire))
  ⟨o.next, a.next, a.events.filterMap Event.wire, block, attempt, s.log ++ a.events⟩

/-- `n` exchanges. -/
def lockstep : ℕ → LockStep υ → LockStep υ
  | 0, s => s
  | n + 1, s => lockstep n (exchange P crc cbs tcfg rcfg file damage s)

/-- Both functions called; the handshake byte is on the line. -/
def lockstepInit (userData : υ) : LockStep υ where
  tx := (xmodemTransmit 0).next
  rx := (xmodemReceive rcfg userData).next
  replies := (xmodemReceive rcfg userData).events.filterMap Event.wire
  block := 0
  attempt := 0
  log := (xmodemReceive rcfg userData).events

/-- Every damaged packet keeps its header byte and its length and is detected;
fewer than `max_retries` of the attempts at a block are damaged. -/
structure Recoverable : Prop where
  header : ∀ n j p, damage n j = some p →
    p.header = if txBlockSize tcfg = blockSize1024 then stx else soh
  payload : ∀ n j p, damage n j = some p → p.payload.length = txBlockSize tcfg
  check : ∀ n j p, damage n j = some p → p.check.length = if rcfg.mode ≠ .standard then 2 else 1
  detected : ∀ n j p, damage n j = some p → ¬ p.Verified crc (rcfg.mode ≠ .standard)
  few : ∀ n, ((List.range tcfg.maxRetries.toNat).filter fun j => (damage n j).isSome).length ≤
    tcfg.maxRetries.toNat - 1

/-- The transfer ends well: both sides return OK, every block of the padded file
is stored once and in order, and the reported total is the padded length. -/
def Recovers (userData : υ) : Prop :=
  ∃ n, let s := lockstep P crc cbs tcfg rcfg file damage n (lockstepInit rcfg userData)
    s.tx = .done .ok ∧
    s.rx = .done ⟨.ok, some (paddedFile (txBlockSize tcfg) file).length⟩ ∧
    delivered s.log = fileBlocks (txBlockSize tcfg) file ∧
    (delivered s.log).flatten = paddedFile (txBlockSize tcfg) file

end Executor

/-! ### The invariant at an attempt -/

theorem lockstep_add {υ : Type} (P : Platform) (crc : CrcService) (cbs : RxCallbacks υ)
    (tcfg rcfg : Config) (file : List Byte) (damage : Damage) (m n : ℕ) (s : LockStep υ) :
    lockstep P crc cbs tcfg rcfg file damage (m + n) s =
      lockstep P crc cbs tcfg rcfg file damage n (lockstep P crc cbs tcfg rcfg file damage m s) := by
  induction m generalizing s with
  | zero => rw [Nat.zero_add, lockstep]
  | succ m ih => rw [Nat.add_right_comm, lockstep, ih, lockstep]

section Invariant

variable {υ : Type} {P : Platform} {crc : CrcService} {cbs : RxCallbacks υ}
  {tcfg rcfg : Config} {file : List Byte} {damage : Damage} {c : Bool}

/-- The receiver stands at a packet boundary with the first `i` blocks stored. -/
structure Stored (tcfg : Config) (c : Bool) (file : List Byte) (i : ℕ) (n : Next (RxState υ) RxResult)
    (log : List Event) : Prop where
  at_header : ∃ v : RxLocals υ, n = .wait ⟨.header, v⟩ ∧ v.expectedBlock = UInt8.ofNat (i + 1) ∧
    v.totalBytes = i * txBlockSize tcfg ∧ v.crcMode = c
  blocks : delivered log = (List.range i).map (fileBlock (txBlockSize tcfg) file)

/-- Attempt `j` at block `i` is about to be sent: the transmitter's reaction to
the replies is that attempt. -/
structure Attempting (P : Platform) (crc : CrcService) (tcfg : Config) (c : Bool) (file : List Byte)
    (i j : ℕ) (s : LockStep υ) : Prop where
  block_lt : i < blockCount (txBlockSize tcfg) file
  attempt_lt : j < tcfg.maxRetries.toNat
  reaction : run (txStep P crc tcfg file) s.tx (s.replies.map .ok) =
    ⟨(if j = 0 then [fileCall tcfg file i] else []) ++
        writeBytes (filePacket crc tcfg file c i),
      .wait (txReply tcfg file c i (UInt8.ofNat j))⟩
  block_eq : s.block = if j = 0 then i else i + 1
  attempt_eq : j ≠ 0 → s.attempt + 1 = j
  stored : Stored tcfg c file i s.rx s.log

/-- All blocks are stored and EOT is about to be sent. -/
structure Finishing (P : Platform) (crc : CrcService) (tcfg : Config) (c : Bool) (file : List Byte)
    (s : LockStep υ) : Prop where
  reaction : run (txStep P crc tcfg file) s.tx (s.replies.map .ok) =
    ⟨sendByte eot, .wait (.eotReply 0)⟩
  stored : Stored tcfg c file (blockCount (txBlockSize tcfg) file) s.rx s.log

theorem exchange_attempt {i j : ℕ} {s : LockStep υ} (h : Attempting P crc tcfg c file i j s) :
    exchange P crc cbs tcfg rcfg file damage s =
      let a := answer P crc cbs rcfg s.rx (match damage (i + 1) j with
        | some p => p.bytes
        | none => filePacket crc tcfg file c i)
      ⟨.wait (txReply tcfg file c i (UInt8.ofNat j)), a.next,
        a.events.filterMap Event.wire, i + 1, j, s.log ++ a.events⟩ := by
  simp only [exchange, h.reaction]
  by_cases hj : j = 0
  · subst hj
    simp [h.block_eq, fileCall, deliver, txReply]
  · simp [h.block_eq, hj, h.attempt_eq hj, deliver, txReply]

theorem answer_damaged {v : RxLocals υ} {p : RawPacket} (hp : p.Framed v.crcMode)
    (hd : ¬ p.Verified crc v.crcMode) :
    answer P crc cbs rcfg (.wait ⟨.header, v⟩) p.bytes =
      ⟨sendByte nak, .wait ⟨.header, { v with retries := v.retries + 1 }⟩⟩ := by
  rw [answer, feed_packet P crc cbs rcfg v p hp, if_neg hd]
  simp [receiveStep, afterPurge, Out.after]

theorem answer_expected (P : Platform) (rcfg : Config) (v : RxLocals υ) {p : RawPacket} (hp : p.Framed v.crcMode)
    (hd : p.Verified crc v.crcMode) (hn : p.blkNum = v.expectedBlock)
    (hcb : (cbs.dataCb v.expectedBlock p.payload v.userData).1 = 0) :
    answer P crc cbs rcfg (.wait ⟨.header, v⟩) p.bytes =
      ⟨.dataCb v.expectedBlock p.payload 0 :: sendByte ack, .wait ⟨.header, { v with
        expectedBlock := v.expectedBlock + 1
        totalBytes := P.toSize (v.totalBytes + p.payload.length)
        retries := 0
        req := ack
        userData := (cbs.dataCb v.expectedBlock p.payload v.userData).2 }⟩⟩ := by
  rw [answer, feed_packet P crc cbs rcfg v p hp, if_pos hd, hn, acceptPacket_stored P cbs v _ hcb]

theorem run_reply (x : TxSite ℕ) (b : Byte) :
    run (txStep P crc tcfg file) (.wait x) ([b].map .ok) = txStep P crc tcfg file x (.ok b) := by
  simp [run_wait, Out.after]

theorem ofNat_lt_maxRetries {j : ℕ} (h : j < tcfg.maxRetries.toNat) :
    UInt8.ofNat j < tcfg.maxRetries := by
  have hm : tcfg.maxRetries.toNat < 256 := tcfg.maxRetries.toNat_lt
  rw [UInt8.lt_iff_toNat_lt, UInt8.toNat_ofNat']
  omega

theorem attempt_damaged (cbs : RxCallbacks υ) (rcfg : Config) {i j : ℕ} {s : LockStep υ} {p : RawPacket}
    (h : Attempting P crc tcfg c file i j s) (hd : damage (i + 1) j = some p)
    (hframe : p.Framed c) (hbad : ¬ p.Verified crc c) (hj : j + 1 < tcfg.maxRetries.toNat) :
    Attempting P crc tcfg c file i (j + 1) (exchange P crc cbs tcfg rcfg file damage s) := by
  obtain ⟨v, hrx, hexp, htot, hc⟩ := h.stored.at_header
  subst hc
  rw [exchange_attempt h, hd, hrx]
  simp only [answer_damaged hframe hbad]
  refine ⟨h.block_lt, hj, ?_, by simp, by simp, ?_⟩
  · rw [wire_sendByte, run_reply, txStep_again P crc tcfg file v.crcMode i _ _
      (.inr ⟨nak, rfl, by decide, by decide⟩)]
    rw [← UInt8.ofNat_one, ← UInt8.ofNat_add,
      sendPacket_file crc tcfg file v.crcMode i _ (ofNat_lt_maxRetries hj)]
    simp
  · exact ⟨⟨_, rfl, hexp, htot, rfl⟩, by simpa using h.stored.blocks⟩

theorem attempt_clean {i j : ℕ} {s : LockStep υ} (h : Attempting P crc tcfg c file i j s)
    (hd : damage (i + 1) j = none) (hstore : ∀ n buf u, (cbs.dataCb n buf u).1 = 0)
    (hfit : blockCount (txBlockSize tcfg) file * txBlockSize tcfg < P.sizeMod) :
    if i + 1 < blockCount (txBlockSize tcfg) file then
      Attempting P crc tcfg c file (i + 1) 0 (exchange P crc cbs tcfg rcfg file damage s)
    else Finishing P crc tcfg c file (exchange P crc cbs tcfg rcfg file damage s) := by
  obtain ⟨v, hrx, hexp, htot, hc⟩ := h.stored.at_header
  subst hc
  have hbs : (fileBlock (txBlockSize tcfg) file i).length = blockSize128 ∨
      (fileBlock (txBlockSize tcfg) file i).length = blockSize1024 := by
    rw [fileBlock_length]
    exact txBlockSize_cases tcfg
  have hmax : 0 < tcfg.maxRetries.toNat := Nat.lt_of_le_of_lt (Nat.zero_le j) h.attempt_lt
  have hle : (i + 1) * txBlockSize tcfg ≤ blockCount (txBlockSize tcfg) file * txBlockSize tcfg :=
    Nat.mul_le_mul_right _ h.block_lt
  have hsum : P.toSize (v.totalBytes + txBlockSize tcfg) = (i + 1) * txBlockSize tcfg := by
    rw [htot, ← Nat.succ_mul]
    exact P.toSize_of_lt (Nat.lt_of_le_of_lt hle hfit)
  have hnext : v.expectedBlock + 1 = UInt8.ofNat (i + 1 + 1) := by
    rw [hexp, UInt8.ofNat_add (i + 1) 1]
    rfl
  have hanswer := answer_expected P rcfg v (sentPacket_framed crc v.crcMode (UInt8.ofNat (i + 1)) _ hbs)
    (sentPacket_verified crc v.crcMode _ _) hexp.symm (hstore _ _ _)
  rw [sentPacket_bytes] at hanswer
  rw [exchange_attempt h, hd, hrx]
  simp only [filePacket, hanswer, sentPacket, fileBlock_length, hsum, hnext]
  have hstored : ∀ log, delivered log = (List.range i).map (fileBlock (txBlockSize tcfg) file) →
      ∀ w : RxLocals υ, w.expectedBlock = UInt8.ofNat (i + 1 + 1) →
      w.totalBytes = (i + 1) * txBlockSize tcfg → w.crcMode = v.crcMode →
      Stored tcfg v.crcMode file (i + 1) (.wait ⟨.header, w⟩)
        (log ++ .dataCb v.expectedBlock (fileBlock (txBlockSize tcfg) file i) 0 :: sendByte ack) := by
    intro log hlog w he ht hm
    refine ⟨⟨w, rfl, he, ht, hm⟩, ?_⟩
    simp [hlog, List.range_succ]
  have hreact := txStep_ack P crc tcfg file v.crcMode i (UInt8.ofNat j) h.block_lt hfit
  split
  · rename_i hlt
    rw [if_pos hlt, sendPacket_file crc tcfg file v.crcMode (i + 1) 0 (by simpa using ofNat_lt_maxRetries hmax)]
      at hreact
    refine ⟨hlt, hmax, ?_, by simp, by simp, hstored _ h.stored.blocks _ rfl rfl rfl⟩
    rw [wire_dataCb, wire_sendByte, run_reply, hreact]
    rfl
  · rename_i hlt
    rw [if_neg hlt, sendEot, if_pos (by simpa using ofNat_lt_maxRetries hmax)] at hreact
    have hlast : i + 1 = blockCount (txBlockSize tcfg) file := by
      have := h.block_lt
      omega
    refine ⟨?_, hlast ▸ hstored _ h.stored.blocks _ rfl rfl rfl⟩
    rw [wire_dataCb, wire_sendByte, run_reply, hreact]

theorem exists_clean {n m : ℕ}
    (h : ((List.range m).filter fun j => (damage n j).isSome).length ≤ m - 1) (hm : 0 < m) :
    ∃ j < m, damage n j = none := by
  by_contra hno
  have hall : (List.range m).filter (fun j => (damage n j).isSome) = List.range m := by
    rw [List.filter_eq_self]
    intro j hj
    rw [Option.isSome_iff_ne_none]
    exact fun h0 => hno ⟨j, List.mem_range.mp hj, h0⟩
  rw [hall, List.length_range] at h
  omega

theorem block_through {i : ℕ} {s : LockStep υ} (h : Attempting P crc tcfg c file i 0 s)
    (hframe : ∀ n j p, damage n j = some p → p.Framed c ∧ ¬ p.Verified crc c)
    (hclean : ∃ j < tcfg.maxRetries.toNat, damage (i + 1) j = none)
    (hstore : ∀ n buf u, (cbs.dataCb n buf u).1 = 0)
    (hfit : blockCount (txBlockSize tcfg) file * txBlockSize tcfg < P.sizeMod) :
    ∃ n, if i + 1 < blockCount (txBlockSize tcfg) file then
        Attempting P crc tcfg c file (i + 1) 0 (lockstep P crc cbs tcfg rcfg file damage n s)
      else Finishing P crc tcfg c file (lockstep P crc cbs tcfg rcfg file damage n s) := by
  obtain ⟨k, hk, hnone⟩ := hclean
  -- the attempts left until the clean one
  suffices ∀ d j s, j + d = k → Attempting P crc tcfg c file i j s →
      ∃ n, if i + 1 < blockCount (txBlockSize tcfg) file then
          Attempting P crc tcfg c file (i + 1) 0 (lockstep P crc cbs tcfg rcfg file damage n s)
        else Finishing P crc tcfg c file (lockstep P crc cbs tcfg rcfg file damage n s) from
    this k 0 s (by omega) h
  intro d
  induction d with
  | zero =>
    intro j s hj hs
    obtain rfl : j = k := by omega
    exact ⟨1, attempt_clean hs hnone hstore hfit⟩
  | succ d ih =>
    intro j s hj hs
    cases hdam : damage (i + 1) j with
    | none => exact ⟨1, attempt_clean hs hdam hstore hfit⟩
    | some p =>
      obtain ⟨hf, hbad⟩ := hframe _ _ _ hdam
      obtain ⟨n, hn⟩ := ih (j + 1) _ (by omega)
        (attempt_damaged cbs rcfg hs hdam hf hbad (by omega))
      exact ⟨n + 1, hn⟩

theorem blocks_through (cbs : RxCallbacks υ) (rcfg : Config)
    (hframe : ∀ n j p, damage n j = some p → p.Framed c ∧ ¬ p.Verified crc c)
    (hclean : ∀ i, ∃ j < tcfg.maxRetries.toNat, damage (i + 1) j = none)
    (hstore : ∀ n buf u, (cbs.dataCb n buf u).1 = 0)
    (hfit : blockCount (txBlockSize tcfg) file * txBlockSize tcfg < P.sizeMod) {i : ℕ}
    {s : LockStep υ} (h : Attempting P crc tcfg c file i 0 s) :
    ∃ n, Finishing P crc tcfg c file (lockstep P crc cbs tcfg rcfg file damage n s) := by
  -- induction on the number of blocks left
  induction hd : blockCount (txBlockSize tcfg) file - i generalizing i s with
  | zero =>
    have := h.block_lt
    omega
  | succ d ih =>
    obtain ⟨n, hn⟩ := block_through h hframe (hclean i) hstore hfit
    split at hn
    · obtain ⟨m, hm⟩ := ih hn (by omega)
      exact ⟨n + m, by rwa [lockstep_add]⟩
    · exact ⟨n, hn⟩

theorem finish (cbs : RxCallbacks υ) (rcfg : Config) (damage : Damage) {s : LockStep υ}
    (h : Finishing P crc tcfg c file s) :
    let s' := lockstep P crc cbs tcfg rcfg file damage 2 s
    s'.tx = .done .ok ∧
    s'.rx = .done ⟨.ok, some (blockCount (txBlockSize tcfg) file * txBlockSize tcfg)⟩ ∧
    delivered s'.log = fileBlocks (txBlockSize tcfg) file := by
  obtain ⟨v, hrx, -, htot, -⟩ := h.stored.at_header
  have hone : exchange P crc cbs tcfg rcfg file damage s =
      ⟨.wait (.eotReply 0), .done ⟨.ok, some v.totalBytes⟩, [ack], s.block, s.attempt + 1,
        s.log ++ sendByte ack⟩ := by
    simp only [exchange, h.reaction, hrx]
    simp [deliver, answer, feed_cons, feed_nil, receiveStep, headerByte, Out.after]
  have hreply : run (txStep P crc tcfg file) (.wait (.eotReply 0)) ([ack].map .ok) = ⟨[], .done .ok⟩ := by
    rw [run_reply]
    simp [txStep, transmitStep]
  simp only [lockstep, hone]
  simp only [exchange, hreply]
  simp [deliver, answer, feed, htot, h.stored.blocks, fileBlocks]

end Invariant

/-! ### The byte count -/

section Total

variable {υ : Type} (P : Platform) (crc : CrcService) (cbs : RxCallbacks υ)
  (tcfg rcfg : Config) (file : List Byte) (damage : Damage)

/-- The receiver's byte count is a `size_t`. -/
def TotalFits (P : Platform) : Next (RxState υ) RxResult → Prop
  | .wait s => s.locals.totalBytes < P.sizeMod
  | .done r => ∀ t, r.totalReceived = some t → t < P.sizeMod

theorem receiveStep_totalFits (s : RxState υ) (r : Read) (h : TotalFits P (.wait s)) :
    TotalFits P (receiveStep P crc cbs rcfg s r).next := by
  have ht : s.locals.totalBytes < P.sizeMod := h
  rcases receiveStep_cases P crc cbs rcfg s r with ⟨site, -, he⟩ | ⟨es, -, -, he⟩ | ⟨-, -, he⟩ |
    ⟨-, -, he⟩ | ⟨bad, -, he⟩ | ⟨n, buf, -, he⟩ <;> rw [he]
  · exact ht
  · simp [rxFail, TotalFits]
  · simpa [TotalFits] using ht
  · rcases headerTimeout_cases rcfg s.locals with he | ⟨c, q, -, he⟩ <;> rw [he]
    · simp [rxFail, TotalFits]
    · exact ht
  · rcases afterPurge_cases rcfg bad s.locals with he | he <;> rw [he]
    · simp [rxFail, TotalFits]
    · exact ht
  · rcases acceptPacket_cases P cbs s.locals n buf with ⟨-, -, he⟩ | ⟨-, -, he⟩ | ⟨es, st, -, he⟩ <;>
      rw [he]
    · exact P.toSize_lt _
    · exact ht
    · simp [rxFail, TotalFits]

theorem answer_totalFits (n : Next (RxState υ) RxResult) (bs : List Byte) (h : TotalFits P n) :
    TotalFits P (answer P crc cbs rcfg n bs).next := by
  have hfeed : TotalFits P (feed (receiveStep P crc cbs rcfg) n bs).next :=
    run_invariant _ (TotalFits P) (receiveStep_totalFits P crc cbs rcfg) n _ h
  simp only [answer]
  split
  · rename_i bad v hn
    rw [hn] at hfeed
    exact receiveStep_totalFits P crc cbs rcfg ⟨.purge bad, v⟩ .timeout hfeed
  · exact hfeed

theorem lockstep_totalFits (n : ℕ) (s : LockStep υ) (h : TotalFits P s.rx) :
    TotalFits P (lockstep P crc cbs tcfg rcfg file damage n s).rx := by
  induction n generalizing s with
  | zero => exact h
  | succ n ih => exact ih _ (answer_totalFits P crc cbs rcfg s.rx _ h)

/-- No total of `SIZE_MAX + 1` bytes or more is ever reported. -/
theorem padded_fits_of_recovers (userData : υ)
    (h : Recovers P crc cbs tcfg rcfg file damage userData) :
    (paddedFile (txBlockSize tcfg) file).length < P.sizeMod := by
  obtain ⟨n, -, hrx, -⟩ := h
  have hfit := lockstep_totalFits P crc cbs tcfg rcfg file damage n (lockstepInit rcfg userData)
    P.sizeMod_pos
  rw [hrx] at hfit
  exact hfit _ rfl

end Total

/-! ### Recovery -/

variable {υ : Type} (P : Platform) (crc : CrcService) (cbs : RxCallbacks υ)
  (tcfg rcfg : Config) (file : List Byte) (damage : Damage) (userData : υ)

theorem lockstepInit_attempting (hfile : 0 < file.length) (hr : 0 < tcfg.maxRetries.toNat) :
    Attempting P crc tcfg (rcfg.mode ≠ .standard) file 0 0 (lockstepInit rcfg userData) := by
  have hbs := txBlockSize_pos tcfg
  refine ⟨?_, hr, ?_, rfl, by simp, ⟨_, rfl, rfl, by simp [rxInit], rfl⟩, rfl⟩
  · rw [lt_blockCount_iff hbs]
    omega
  · have hstart : txStep P crc tcfg file (.start 0 0)
          (.ok (if rcfg.mode ≠ .standard then charC else nak)) =
        nextBlock P crc (fileCallbacks file) tcfg file.length
          ⟨rcfg.mode ≠ .standard, 1, 0, 0⟩ := by
      by_cases hm : rcfg.mode = .standard <;>
        simp [txStep, transmitStep, hm, charC, nak]
    have hfirst := nextBlock_file P crc tcfg file (decide (rcfg.mode ≠ .standard)) 0 0 1
      (by omega) (by omega) rfl
    rw [Nat.zero_mul] at hfirst
    simp only [lockstepInit, xmodemTransmit, xmodemReceive, rxInit, wire_sendByte]
    rw [run_reply, hstart, hfirst, sendPacket_file crc tcfg file _ 0 0 (by simpa using ofNat_lt_maxRetries hr)]
    rfl

/-- Recovery from damage, for every file whose padded length is a `size_t`. -/
theorem recovers_of_padded_fits (hfile : 0 < file.length)
    (hfit : (paddedFile (txBlockSize tcfg) file).length < P.sizeMod) (hr : 1 ≤ tcfg.maxRetries.toNat)
    (hstore : ∀ n buf u, (cbs.dataCb n buf u).1 = 0) (hdamage : Recoverable crc tcfg rcfg damage) :
    Recovers P crc cbs tcfg rcfg file damage userData := by
  have hbs := txBlockSize_pos tcfg
  rw [paddedFile_length hbs] at hfit
  have hframe : ∀ n j p, damage n j = some p →
      p.Framed (rcfg.mode ≠ .standard) ∧ ¬ p.Verified crc (rcfg.mode ≠ .standard) := by
    intro n j p hp
    have hh := hdamage.header n j p hp
    have hl := hdamage.payload n j p hp
    refine ⟨⟨?_, ?_, ?_⟩, hdamage.detected n j p hp⟩
    · rw [hh]
      split <;> simp
    · rw [hl, RawPacket.blockLen, hh]
      rcases txBlockSize_cases tcfg with h | h <;> simp [h, blockSize128, blockSize1024, soh, stx]
    · simpa using hdamage.check n j p hp
  have hclean : ∀ i, ∃ j < tcfg.maxRetries.toNat, damage (i + 1) j = none :=
    fun i => exists_clean (hdamage.few (i + 1)) hr
  obtain ⟨n, hn⟩ := blocks_through cbs rcfg hframe hclean hstore hfit
    (lockstepInit_attempting P crc tcfg rcfg file userData hfile hr)
  obtain ⟨htx, hrx, hlog⟩ := finish cbs rcfg damage hn
  refine ⟨n + 2, ?_⟩
  rw [lockstep_add]
  exact ⟨htx, by rw [hrx, paddedFile_length hbs], hlog, by rw [hlog, fileBlocks_flatten hbs]⟩

def crcConfig : Config := ⟨.crc, 10⟩

/-- Two attempts at the first block have a wrong payload, one at the second block has a wrong
complement of its number. -/
def hitBlocks : Damage := fun n j =>
  if n = 1 ∧ j < 2 then some ⟨soh, 1, 0xFE, List.replicate 128 0, [0, 0]⟩
  else if n = 2 ∧ j = 0 then some ⟨soh, 2, 0xFE, List.replicate 128 0x41, [0, 0]⟩
  else none

theorem hitBlocks_cases {n j : ℕ} {p : RawPacket} (h : hitBlocks n j = some p) :
    p = ⟨soh, 1, 0xFE, List.replicate 128 0, [0, 0]⟩ ∨
      p = ⟨soh, 2, 0xFE, List.replicate 128 0x41, [0, 0]⟩ := by
  unfold hitBlocks at h
  split at h
  · exact .inl (Option.some.inj h).symm
  · split at h
    · exact .inr (Option.some.inj h).symm
    · cases h

theorem recoverable_hitBlocks : Recoverable referenceCrc crcConfig crcConfig hitBlocks where
  header n j p h := by
    rcases hitBlocks_cases h with rfl | rfl
    · rfl
    · rfl
  payload n j p h := by
    rcases hitBlocks_cases h with rfl | rfl
    · exact List.length_replicate
    · exact List.length_replicate
  check n j p h := by
    rcases hitBlocks_cases h with rfl | rfl
    · rfl
    · rfl
  detected n j p h := by
    rcases hitBlocks_cases h with rfl | rfl
    · rintro ⟨-, hcheck⟩
      have hne : ([0, 0] : List Byte) ≠ checkBytes referenceCrc true (List.replicate 128 0) := by
        simp only [checkBytes, if_true, modemCrc16_reference]
        decide +kernel
      exact hne hcheck
    · rintro ⟨hnumber, -⟩
      exact absurd hnumber (by decide)
  few n := by
    by_cases hone : n = 1
    · subst hone
      decide
    by_cases htwo : n = 2
    · subst htwo
      decide
    · simp [hitBlocks, hone, htwo]

/-- Both blocks of a file of 200 bytes are damaged on their way. -/
theorem recovers_two_blocks :
    Recovers platform32 referenceCrc acceptingStorage crcConfig crcConfig
      (List.replicate 200 0x41) hitBlocks () :=
  recovers_of_padded_fits platform32 referenceCrc acceptingStorage crcConfig crcConfig
    (List.replicate 200 0x41) hitBlocks () (by rw [List.length_replicate]; decide)
    (by
      rw [paddedFile_length (txBlockSize_pos _), blockCount, List.length_replicate]
      decide)
    (by decide) (fun _ _ _ => rfl) recoverable_hitBlocks

/-- A file of `SIZE_MAX` bytes has no padded length that is a `size_t`: the
transfer does not end well even on an undamaged line. -/
theorem not_recovers_at_size_limit :
    0 < (List.replicate (2 ^ 32 - 1) (0x41 : Byte)).length ∧
    (List.replicate (2 ^ 32 - 1) (0x41 : Byte)).length < platform32.sizeMod ∧
    Recoverable referenceCrc configInit configInit (fun _ _ => none) ∧
    ¬ Recovers platform32 referenceCrc acceptingStorage configInit configInit
      (List.replicate (2 ^ 32 - 1) 0x41) (fun _ _ => none) () := by
  refine ⟨by rw [List.length_replicate]; decide, by rw [List.length_replicate]; decide,
    ⟨by simp, by simp, by simp, by simp, by simp⟩, fun h => ?_⟩
  have hfit := padded_fits_of_recovers _ _ _ _ _ _ _ _ h
  rw [paddedFile_length (txBlockSize_pos _), blockCount, List.length_replicate] at hfit
  exact absurd hfit (by decide)

end ZephyrModem.Xmodem
