import ZephyrModem.Transfer.Groups
import ZephyrModem.Ymodem.Completeness

/-!
# The storage calls of `ymodem_receive`

Every way out of the loop of a file calls `on_file_end`; within a file the blocks
are numbered in order, and the offset passed counts what came before modulo
`SIZE_MAX + 1`.
-/

namespace ZephyrModem.Ymodem
open ZephyrModem.Reactive ZephyrModem.Transfer
open ZephyrModem.Xmodem (Byte Read soh stx eot ack nak can charC)

section CallProtocol

variable {υ : Type} (P : Platform) (crc : CrcService)

/-- The sizes of the blocks accepted so far for the file in progress. -/
def blocksBefore (cbs : RxCallbacks υ) (userData : υ) (pre : List Read) : List ℕ :=
  blocksOf crc (visits (receiveStep P crc cbs) (ymodemReceive userData).next pre)

/-- Block by block: the number of a block decides whether it is accepted, an accepted
block leads to one `on_data` at most, whose offset is `offsetOf` the sizes of the
blocks before, and no other read leads to one. -/
structure BlocksInOrder (offsetOf : List ℕ → ℕ) (cbs : RxCallbacks υ) (userData : υ)
    (reads : List Read) : Prop where
  number : ∀ pre r post s f n buf, reads = pre ++ r :: post →
    (received P crc cbs userData pre).next = .wait s → AcceptsBlock crc s r f n buf →
    (acceptedBlock crc s r = some buf.length ↔
      n = UInt8.ofNat ((blocksBefore P crc cbs userData pre).length + 1))
  once : ∀ pre r post s, reads = pre ++ r :: post →
    (received P crc cbs userData pre).next = .wait s →
    ((receiveStep P crc cbs s r).events.filter Event.isData).length ≤
      (acceptedBlock crc s r).toList.length
  offset : ∀ pre r post s buf len offset res, reads = pre ++ r :: post →
    (received P crc cbs userData pre).next = .wait s →
    .onData buf len offset res ∈ (receiveStep P crc cbs s r).events →
    offset = offsetOf (blocksBefore P crc cbs userData pre)

/-- The protocol of the storage calls. -/
structure FollowsProtocol (offsetOf : List ℕ → ℕ) (cbs : RxCallbacks υ) (userData : υ)
    (reads : List Read) : Prop where
  groups : Bracketed (received P crc cbs userData reads).events
    (received P crc cbs userData reads).next
  blocks : BlocksInOrder P crc offsetOf cbs userData reads
  returnsOk : (received P crc cbs userData reads).next = .done .ok →
    ∃ pre r post s buf, reads = pre ++ r :: post ∧
      (received P crc cbs userData pre).next = .wait s ∧ AcceptsBlock0 crc s r buf ∧
      (parseBlock0 P buf 128).filename = []

variable (start : FileInfo → υ → ℤ × υ) (data : List Byte → ℕ → ℕ → υ → ℤ × υ)
  (finish : FileInfo → Status → υ → υ)

/-! ### Groups -/

/-- The file of the state is the one that is open. -/
def FileOpen (log : List Event) : Next (RxState υ) Status → Prop
  | .wait s =>
    match s.locals.phase with
    | .block0 => Closed log
    | .data f => Opened f.info log
  | .done _ => Closed log

variable {crc} in
theorem fileOpen_block0 {log : List Event} {s : RxState υ} (h : FileOpen log (.wait s))
    (hs : s.locals.phase = .block0) : Closed log := by
  simpa only [FileOpen, hs] using h

variable {crc} in
theorem fileOpen_data {log : List Event} {s : RxState υ} {f : FileLocals}
    (h : FileOpen log (.wait s)) (hs : s.locals.phase = .data f) : Opened f.info log := by
  simpa only [FileOpen, hs] using h

theorem FileOpen.quiet {log es : List Event} {s t : RxState υ} (h : FileOpen log (.wait s))
    (hp : t.locals.phase = s.locals.phase) (he : Writes es) : FileOpen (log ++ es) (.wait t) := by
  cases hs : s.locals.phase with
  | block0 =>
    have hclosed := (fileOpen_block0 h hs).quiet he.calls
    simpa only [FileOpen, hp, hs] using hclosed
  | data f =>
    have hopen := (fileOpen_data h hs).quiet he.calls
    simpa only [FileOpen, hp, hs] using hopen

theorem calls_fileFails {es : List Event} (he : Writes es) (f : FileLocals) (st : Status) (u : υ) :
    calls (fileFails (fileCallbacks start data finish) es f st u).events =
      [.onFileEnd f.info st] := by
  simp only [fileFails, calls_append, he.calls]
  rfl

theorem fileOpen_step (log : List Event) (s : RxState υ) (r : Read)
    (h : FileOpen log (.wait s)) :
    FileOpen (log ++ (receiveStep P crc (fileCallbacks start data finish) s r).events)
      (receiveStep P crc (fileCallbacks start data finish) s r).next := by
  rcases receiveStep_cases P crc (fileCallbacks start data finish) s r with ⟨site, -, he⟩ |
    ⟨ws, v, -, hws, hp, -, he⟩ | ⟨f, -, -, hp, he⟩ | ⟨ws, st, hws, -, hp, he⟩ |
    ⟨ws, f, st, hws, -, hp, he⟩ | ⟨f, -, hp, he⟩ | ⟨buf, ⟨hp, -⟩, he⟩ | ⟨f, n, buf, ⟨hp, -⟩, he⟩ <;>
    rw [he]
  · exact h.quiet rfl writes_nil
  · exact h.quiet hp hws.writes
  · exact h.quiet rfl (writes_sendByte nak)
  · exact (fileOpen_block0 h hp).quiet hws.writes.calls
  · exact (fileOpen_data h hp).finish (calls_fileFails start data finish hws.writes f st _)
  · simp only [endFile, hp]
    exact (fileOpen_data h hp).finish rfl
  · have hclosed := fileOpen_block0 h hp
    by_cases hname : (parseBlock0 P buf 128).filename = []
    · rw [acceptBlock0_end P _ _ _ hname]
      exact hclosed.quiet rfl
    · rw [acceptBlock0_file P _ _ _ hname]
      exact hclosed.start rfl
  · have hopen := fileOpen_data h hp
    unfold acceptBlock
    split_ifs
    · show Opened f.info _
      simp only [callData, fileCallbacks]
      split
      · exact hopen.data (d := ⟨buf, writeLen P f buf.length, f.fileOffset, _⟩) rfl
      · exact hopen.quiet rfl
    · exact h.quiet rfl (writes_sendByte ack)
    · exact hopen.finish (calls_fileFails start data finish (writes_sendByte can) f _ _)

theorem fileOpen_received (userData : υ) (reads : List Read) :
    FileOpen (received P crc (fileCallbacks start data finish) userData reads).events
      (received P crc (fileCallbacks start data finish) userData reads).next :=
  trace_invariant (receiveStep P crc (fileCallbacks start data finish)) FileOpen
    (fun _ _ => True) (fun log s r _ => fileOpen_step P crc start data finish log s r) _ reads _
    (fun _ _ => trivial) (closed_of_writes (writes_sendByte charC))

theorem FileOpen.bracketed {log : List Event} {n : Next (RxState υ) Status} (h : FileOpen log n) :
    Bracketed log n := by
  cases n with
  | done st => exact h
  | wait s =>
    cases hs : s.locals.phase with
    | block0 => exact .inl (fileOpen_block0 h hs)
    | data f => exact .inr ⟨f.info, fileOpen_data h hs⟩

/-! ### Blocks -/

theorem afterBlocks_expectedBlk (info : FileInfo) (bs : List ℕ) :
    (afterBlocks P ⟨info, 1, 0⟩ bs).expectedBlk = UInt8.ofNat (bs.length + 1) := by
  induction bs using List.reverseRecOn with
  | nil => rfl
  | append_singleton bs b ih =>
    rw [afterBlocks_snoc, List.length_append, List.length_singleton, UInt8.ofNat_add _ 1]
    show (afterBlocks P ⟨info, 1, 0⟩ bs).expectedBlk + 1 = _
    rw [ih]
    rfl

theorem afterBlocks_fileOffset (info : FileInfo) (bs : List ℕ) :
    (afterBlocks P ⟨info, 1, 0⟩ bs).fileOffset = P.toSize bs.sum := by
  induction bs using List.reverseRecOn with
  | nil => exact (P.toSize_of_lt P.sizeMod_pos).symm
  | append_singleton bs b ih =>
    rw [afterBlocks_snoc, List.sum_append, List.sum_singleton]
    show P.toSize ((afterBlocks P ⟨info, 1, 0⟩ bs).fileOffset + b) = _
    rw [ih]
    exact Nat.mod_add_mod _ _ _

theorem afterBlocks_before {userData : υ} {pre : List Read} {s : RxState υ} {f : FileLocals}
    (hpre : (received P crc (fileCallbacks start data finish) userData pre).next = .wait s)
    (hp : s.locals.phase = .data f) :
    afterBlocks P ⟨f.info, 1, 0⟩ (blocksBefore P crc (fileCallbacks start data finish) userData pre) = f := by
  have htracks := tracks_run P crc start data finish userData pre
  rw [received, Out.after_next] at hpre
  rw [hpre] at htracks
  exact (htracks.2 s rfl f hp).1

theorem acceptedBlock_iff_number {s : RxState υ} {r : Read} {f : FileLocals} {n : Byte}
    {buf : List Byte} (h : AcceptsBlock crc s r f n buf) :
    acceptedBlock crc s r = some buf.length ↔ n = f.expectedBlk := by
  rw [acceptedBlock_eq_some_iff]
  constructor
  · intro haccepted
    obtain ⟨f', buf', ⟨hp', hi', lo', hs', -, -⟩, -⟩ := haccepted
    obtain ⟨hp, hi, lo, hs, -, -⟩ := h
    rw [hp] at hp'
    cases hp'
    rw [hs] at hs'
    cases hs'
    rfl
  · intro hn
    subst hn
    exact ⟨f, buf, h, rfl⟩

theorem filter_isData_length_le (cbs : RxCallbacks υ) (s : RxState υ) (r : Read) :
    ((receiveStep P crc cbs s r).events.filter Event.isData).length ≤
      (acceptedBlock crc s r).toList.length := by
  cases hb : acceptedBlock crc s r with
  | none =>
    have hnone : (receiveStep P crc cbs s r).events.filter Event.isData = [] := by
      apply List.filter_eq_nil_iff.mpr
      intro e he hdata
      cases e with
      | onData buf len offset res =>
        obtain ⟨f, ha, -⟩ := (onData_mem_iff P crc cbs s r buf len offset res).mp he
        rw [(acceptedBlock_eq_some_iff crc s r buf.length).mpr ⟨f, buf, ha, rfl⟩] at hb
        cases hb
      | write b | onFileStart info res | onFileEnd info st | getFileInfo i | readData i o l d res =>
        cases hdata
    rw [hnone]
    exact Nat.le_refl _
  | some b =>
    obtain ⟨f, buf, ha, -⟩ := (acceptedBlock_eq_some_iff crc s r b).mp hb
    rw [ha.step P crc cbs, acceptBlock, if_pos rfl]
    simp only [callData]
    split
    · exact Nat.zero_le _
    · split
      · exact Nat.le_refl _
      · exact Nat.zero_le _

theorem blocksInOrder (userData : υ) (reads : List Read) :
    BlocksInOrder P crc (fun bs => P.toSize bs.sum) (fileCallbacks start data finish) userData reads where
  number := by
    intro pre r post s f n buf _ hpre ha
    have hf := afterBlocks_before P crc start data finish hpre ha.1
    rw [acceptedBlock_iff_number crc ha, ← hf, afterBlocks_expectedBlk]
  once := fun _ r _ s _ _ => filter_isData_length_le P crc _ s r
  offset := by
    intro pre r post s buf len offset res _ hpre hin
    obtain ⟨f, ha, -, -, hoff, -⟩ := (onData_mem_iff P crc _ s r buf len offset res).mp hin
    have hf := afterBlocks_before P crc start data finish hpre ha.1
    rw [hoff, ← hf, afterBlocks_fileOffset]

/-- The protocol of the storage calls, the offsets being `size_t` values. -/
theorem followsProtocol (userData : υ) (reads : List Read) :
    FollowsProtocol P crc (fun bs => P.toSize bs.sum) (fileCallbacks start data finish) userData
      reads where
  groups := (fileOpen_received P crc start data finish userData reads).bracketed
  blocks := blocksInOrder P crc start data finish userData reads
  returnsOk := by
    intro h
    rw [received, Out.after_next] at h
    rcases exists_of_run_done _ h with hinit | ⟨pre, r, post, s, hreads, hpre, hlast⟩
    · cases hinit
    · obtain ⟨buf, ha, hname⟩ := done_ok_site P crc _ hlast
      exact ⟨pre, r, post, s, buf, hreads, hpre, ha, hname⟩

/-! ### A file longer than `SIZE_MAX` -/

def zeroBlock : List Byte := List.replicate 1024 0

/-- Blocks of 1024 zeros, numbered from 1. -/
def zeroBlocks (k : ℕ) : List Byte :=
  (List.range k).flatMap fun i => packet crc (UInt8.ofNat (i + 1)) zeroBlock

theorem packetDone_zeroBlock {info : FileInfo} (hsize : info.size = 0) (n : Byte) (offset : ℕ) :
    packetDone P acceptingFiles ⟨0, .data ⟨info, n, offset⟩, ()⟩ n zeroBlock =
      ⟨.onData zeroBlock 1024 offset 0 :: sendByte ack,
        .wait ⟨.header, ⟨0, .data ⟨info, n + 1, P.toSize (offset + 1024)⟩, ()⟩⟩⟩ := by
  have hlen : zeroBlock.length = 1024 := List.length_replicate
  have hfull : writeLen P ⟨info, n, offset⟩ 1024 = 1024 := by
    simp [writeLen, hsize]
  simp only [packetDone, acceptBlock, if_true, hlen, hfull]
  rfl

theorem feed_zeroBlocks (info : FileInfo) (hsize : info.size = 0) (k : ℕ) :
    ∃ es, feed (receiveStep P crc acceptingFiles) (.wait ⟨.header, ⟨0, .data ⟨info, 1, 0⟩, ()⟩⟩)
        (zeroBlocks crc k) =
      ⟨es, .wait ⟨.header, ⟨0, .data ⟨info, UInt8.ofNat (k + 1), P.toSize (1024 * k)⟩, ()⟩⟩⟩ ∧
      ∀ log, storedLen (log ++ es) = storedLen log + 1024 * k := by
  induction k with
  | zero =>
    refine ⟨[], feed_nil _ _, ?_⟩
    intro log
    rw [List.append_nil]
    rfl
  | succ k ih =>
    obtain ⟨es, hfeed, hstored⟩ := ih
    have hlen : zeroBlock.length = 1024 := List.length_replicate
    have hblocks : zeroBlocks crc (k + 1) =
        zeroBlocks crc k ++ packet crc (UInt8.ofNat (k + 1)) zeroBlock := by
      rw [zeroBlocks, List.range_succ, List.flatMap_append, List.flatMap_singleton]
      rfl
    have hstep := packetDone_zeroBlock P hsize (UInt8.ofNat (k + 1)) (P.toSize (1024 * k))
    refine ⟨es ++ .onData zeroBlock 1024 (P.toSize (1024 * k)) 0 :: sendByte ack, ?_, ?_⟩
    · rw [hblocks, feed_append, hfeed, feed_packet P crc _ _ _ _ (.inr hlen), hstep, Out.after]
      have hnum : UInt8.ofNat (k + 1) + 1 = UInt8.ofNat (k + 1 + 1) := (UInt8.ofNat_add _ 1).symm
      have hoff : P.toSize (P.toSize (1024 * k) + 1024) = P.toSize (1024 * (k + 1)) := by
        rw [Nat.mul_succ]
        exact Nat.mod_add_mod _ _ _
      rw [hnum, hoff]
    · intro log
      rw [← List.append_assoc, storedLen_append, List.foldl_cons, foldl_storedStep_writes
        (writes_sendByte ack)]
      show storedLen (log ++ es) + 1024 = _
      rw [hstored]
      omega

def unsizedFile : FileInfo := ⟨[0x66], 0⟩

theorem unsizedFile_fits : Fits P unsizedFile where
  name_ne_nil := by decide
  name_length := by decide
  name_noNul := by decide
  size_lt := P.sizeMod_pos
  size_le := Nat.zero_le _

/-- Block 0 and blocks of zeros until the offset has wrapped, and one more. -/
def wrapStream (k : ℕ) : List Byte :=
  packet crc 0 (block0Payload unsizedFile) ++ zeroBlocks crc k ++ packet crc (UInt8.ofNat (k + 1)) zeroBlock

theorem storedBy_unsized {f : FileLocals} (hsize : f.info.size = 0) (bs : List ℕ) :
    storedBy P f bs = bs.sum := by
  induction bs generalizing f with
  | nil => rfl
  | cons b bs ih =>
    have hfull : writeLen P f b = b := by
      simp [writeLen, hsize]
    rw [storedBy, hfull, ih (f := f.next P b) hsize, List.sum_cons]

/-- After `SIZE_MAX + 1` bytes the offset passed is 0 again. -/
theorem not_blocksInOrder_of_wrap {k : ℕ} (hk : 1024 * k = P.sizeMod) :
    ¬ BlocksInOrder P crc List.sum acceptingFiles () ((wrapStream crc k).map .ok) := by
  intro h
  have hlen : zeroBlock.length = 1024 := List.length_replicate
  obtain ⟨es, hfeed, hstored⟩ := feed_zeroBlocks P crc unsizedFile rfl k
  let n : Byte := UInt8.ofNat (k + 1)
  let v : RxLocals Unit := ⟨0, .data ⟨unsizedFile, n, P.toSize (1024 * k)⟩, ()⟩
  let opening : List Event := sendByte ack ++ sendByte charC ++ [.onFileStart unsizedFile 0]
  let pre : List Byte := packet crc 0 (block0Payload unsizedFile) ++ zeroBlocks crc k ++
    (packet crc n zeroBlock).dropLast
  have hrun : feed (receiveStep P crc acceptingFiles) (ymodemReceive ()).next pre =
      ⟨opening ++ es, .wait (lastRead crc v n zeroBlock)⟩ := by
    have hstart : callFileStart acceptingFiles unsizedFile () = ([.onFileStart unsizedFile 0], ()) := rfl
    rw [feed_append, feed_append, feed_block0 P crc acceptingFiles (unsizedFile_fits P), hstart]
    simp only [hfeed, Out.after_next, Out.after_events]
    rw [feed_packet_init P crc acceptingFiles v n zeroBlock (.inr hlen), Out.after, List.append_nil]
  have hnext : (run (receiveStep P crc acceptingFiles) (ymodemReceive ()).next (pre.map .ok)).next =
      .wait (lastRead crc v n zeroBlock) := by
    unfold feed at hrun
    rw [hrun]
  have hpre : (received P crc acceptingFiles () (pre.map .ok)).next =
      .wait (lastRead crc v n zeroBlock) := by
    rw [received, Out.after_next, hnext]
  have hin : .onData zeroBlock 1024 (P.toSize (1024 * k)) 0 ∈ (receiveStep P crc acceptingFiles
      (lastRead crc v n zeroBlock) (.ok (crcLo (modemCrc16 crc zeroBlock)))).events := by
    rw [receiveStep_lastRead]
    show _ ∈ (packetDone P acceptingFiles ⟨0, .data ⟨unsizedFile, n, P.toSize (1024 * k)⟩, ()⟩ n
      zeroBlock).events
    rw [packetDone_zeroBlock P rfl]
    exact List.mem_cons_self ..
  have hsplit : (wrapStream crc k).map ReadResult.ok =
      pre.map .ok ++ [.ok (crcLo (modemCrc16 crc zeroBlock))] := by
    rw [wrapStream, packet_eq_append crc (UInt8.ofNat (k + 1)) zeroBlock, ← List.append_assoc,
      List.map_append]
    rfl
  have hoffset := h.offset _ _ [] _ _ _ _ _ hsplit hpre hin
  -- the bytes stored count the blocks without wrapping
  have htracks := tracks_run P crc (fun _ u => (0, u)) (fun _ _ _ u => (0, u)) (fun _ _ u => u) ()
    (pre.map .ok)
  have hsum : (blocksBefore P crc acceptingFiles () (pre.map .ok)).sum = 1024 * k := by
    have hfile := (htracks.2 _ hnext _ rfl).2.1
    rw [storedBy_unsized P rfl] at hfile
    refine hfile.trans ?_
    show storedLen (feed (receiveStep P crc acceptingFiles) (ymodemReceive ()).next pre).events = _
    rw [hrun, hstored opening]
    exact Nat.zero_add _
  rw [hsum, hk] at hoffset
  have hmod := P.sizeMod_pos
  have hzero : P.toSize P.sizeMod = 0 := Nat.mod_self _
  omega

end CallProtocol

theorem not_followsProtocol_wrap :
    ¬ ∀ reads, FollowsProtocol platform32 referenceCrc List.sum acceptingFiles () reads := by
  intro h
  have hk : 1024 * 4194304 = platform32.sizeMod := by decide
  exact not_blocksInOrder_of_wrap platform32 referenceCrc hk (h _).blocks

end ZephyrModem.Ymodem
