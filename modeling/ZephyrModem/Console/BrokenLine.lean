import ZephyrModem.Console.Copy
import ZephyrModem.Reactive.Broken
import ZephyrModem.Ymodem.DeadLine

/-!
# A line that breaks under the console's receiver

Wherever a transfer is when the line breaks, the target has the files of the batch up to
some point, and of one more at most its first bytes, written over what was there.
-/

namespace ZephyrModem.Console
open ZephyrModem.Storage ZephyrModem.Transfer ZephyrModem.Reactive ZephyrModem.Reactive.Duplex
open ZephyrModem.Ymodem (TxSite RxState transmitStep receiveStep ymodemTransmit ymodemReceive
  txParty rxParty Sendable batchStream)

/-- What has arrived of a batch: whole files, and the first bytes of one more. -/
inductive Begun : List File → List File → Prop
  | nothing (batch : List File) : Begun [] batch
  | part (f : File) (n : ℕ) (batch : List File) : Begun [⟨f.name, f.contents.take n⟩] (f :: batch)
  | whole {received batch : List File} (f : File) (h : Begun received batch) :
    Begun (f :: received) (f :: batch)

variable {P : Platform} {crc : CrcService} {fs : FileSystem UInt8 Path} {settings : StorageSettings}

/-! ### The first calls of a report -/

theorem covers_prefix {pre cs : List Call} (hpre : pre <+: cs) {offset : ℕ} {contents : List UInt8}
    (h : Covers offset cs contents) : ∃ n, Covers offset pre (contents.take n) := by
  induction pre generalizing cs offset contents with
  | nil => exact ⟨0, List.take_zero⟩
  | cons c pre ih =>
    obtain ⟨post, rfl⟩ := hpre
    cases c with
    | fileStart name size => exact absurd h id
    | fileEnd name size ok => exact absurd h id
    | data o len bytes =>
      obtain ⟨ho, hlen, rest, rfl, hrest⟩ := h
      obtain ⟨n, hn⟩ := ih (List.prefix_append pre post) hrest
      refine ⟨bytes.length + n, ho, hlen, rest.take n, ?_, hn⟩
      rw [List.take_length_add_append]

/-- A log broken off within the report of a batch leaves a part of the batch stored. -/
theorem replay_broken (hfs : Reliable fs) {batch : List File} {pre cs : List Call}
    (hpre : pre <+: cs) (hreports : Reports batch cs) (hnames : ∀ f ∈ batch, f.name ≠ [])
    (hchunk : Chunked cs) {s : State} (hclosed : s.ctx.zfileOpen = false)
    (hstorable : Storable settings s.files batch) :
    ∃ received, Begun received batch ∧
      (replay (Console.store P fs settings) pre s).files = received.foldl (put settings) s.files := by
  induction batch generalizing pre cs s with
  | nil =>
    obtain rfl : cs = [] := hreports
    obtain rfl := List.prefix_nil.mp hpre
    exact ⟨[], .nothing [], rfl⟩
  | cons f batch ih =>
    obtain ⟨chunks, rest, rfl, hcover, hrest⟩ := hreports
    have hname : f.name ≠ [] := hnames f (List.mem_cons_self ..)
    have hbound : Chunked chunks := by
      intro offset len bytes hin
      exact hchunk offset len bytes (by simp [hin])
    have hmore : Chunked rest := by
      intro offset len bytes hin
      exact hchunk offset len bytes (by simp [hin])
    have hsplit : Call.fileStart f.name f.contents.length ::
        (chunks ++ .fileEnd f.name f.contents.length true :: rest) = fileCalls f chunks ++ rest := by
      simp [fileCalls]
    rw [hsplit] at hpre
    rcases List.prefix_or_prefix_of_prefix hpre (List.prefix_append _ rest) with hfile | ⟨post, rfl⟩
    · -- the log ends within the calls of this file
      rcases List.prefix_cons_iff.mp hfile with rfl | ⟨pre', rfl, hpre'⟩
      · exact ⟨[], .nothing _, rfl⟩
      rcases List.prefix_concat_iff.mp hpre' with rfl | hchunks
      · obtain ⟨hfiles, -⟩ := replay_fileCalls (P := P) hfs hname hcover hbound hclosed hstorable.head
        exact ⟨[f], .whole f (.nothing batch), hfiles⟩
      · obtain ⟨n, hn⟩ := covers_prefix hchunks hcover
        have hfew : Chunked pre' := fun o l b hin => hbound o l b (hchunks.subset hin)
        exact ⟨[⟨f.name, f.contents.take n⟩], .part f n batch,
          replay_begun hfs hname hn hfew hclosed hstorable.head⟩
    · have hpost : post <+: rest := (List.prefix_append_right_inj _).mp hpre
      obtain ⟨hfiles, hdone⟩ := replay_fileCalls (P := P) hfs hname hcover hbound hclosed hstorable.head
      obtain ⟨received, hbegun, hstored⟩ := ih hpost hrest
        (fun g hg => hnames g (List.mem_cons_of_mem _ hg)) hmore hdone (by
          rw [hfiles]
          exact hstorable.tail)
      refine ⟨f :: received, .whole f hbegun, ?_⟩
      rw [replay_append, hstored, hfiles, List.foldl_cons]

/-! ### The receiver without a line -/

theorem call_timeout {cbs : Ymodem.RxCallbacks State} {s : RxState State} {e : Ymodem.Event}
    (h : e ∈ (receiveStep P crc cbs s .timeout).events) {c : Call} (hc : e.call .ok = some c) :
    ∃ name size ok, c = .fileEnd name size ok := by
  rcases Ymodem.mem_receiveStep_events P crc cbs h with ⟨b, rfl⟩ | ⟨info, st, -, rfl⟩ |
    ⟨f, -, -, -, rfl⟩ | ⟨buf, res, ⟨-, hi, lo, -, hlo, -⟩, -, -⟩ | ⟨f, buf, g, ⟨-, hi, lo, -, hlo, -⟩, -⟩
  · cases hc
  · cases hc
    exact ⟨_, _, _, rfl⟩
  · cases hc
    exact ⟨_, _, _, rfl⟩
  · cases hlo
  · cases hlo

variable (P crc fs settings) in
/-- Time-outs do not change what is stored. -/
theorem storedFiles_cut (name : Option Path) (files : Files UInt8 Path) (log : List Ymodem.Event)
    (n : Next (RxState State) Ymodem.Status) (k : ℕ) :
    storedFiles P fs settings name files (log ++
        (run (receiveStep P crc (ymodemRxCallbacks P fs settings)) n
          (List.replicate k .timeout)).events) =
      storedFiles P fs settings name files log := by
  rw [storedFiles, replay_append]
  refine replay_endings P fs settings Ymodem.Status.ok ?_ _
  intro e he c hc
  obtain ⟨pre, i, post, t, hreads, -, hin⟩ := exists_of_mem_events _ he
  have hi : i = .timeout := by
    refine List.eq_of_mem_replicate (n := k) ?_
    rw [hreads]
    simp
  rw [hi] at hin
  exact call_timeout hin hc

variable (P crc fs settings) in
theorem returns_received (u : State) (reads : List Xmodem.Read) :
    Returns (receiveStep P crc (ymodemRxCallbacks P fs settings))
      (Ymodem.received P crc (ymodemRxCallbacks P fs settings) u reads).next := by
  cases hnext : (Ymodem.received P crc (ymodemRxCallbacks P fs settings) u reads).next with
  | done st => exact returns_done st
  | wait s =>
    apply Ymodem.returns_receive
    intro hsite
    obtain ⟨pre, rs, -, htrail, -, -⟩ := Ymodem.received_trail u reads hnext
    rw [hsite] at htrail
    exact htrail.1

theorem receive_timeout_ne_ok (cbs : Ymodem.RxCallbacks State) (s : RxState State) :
    (receiveStep P crc cbs s .timeout).next ≠ .done .ok := by
  intro h
  obtain ⟨buf, ⟨-, hi, lo, -, hlo, -⟩, -⟩ := Ymodem.done_ok_site P crc cbs h
  cases hlo

theorem transmit_timeout_ne_ok {υ : Type} (tcbs : TxCallbacks υ) (s : TxSite υ) :
    (transmitStep P crc tcbs s .timeout).next ≠ .done .ok := by
  cases s with
  | startC v retries =>
    simp only [transmitStep, reduceCtorEq, if_false]
    split <;> simp
  | ackBlock0 v => simp [transmitStep]
  | secondC v => simp [transmitStep]
  | reply v b retries =>
    simp only [transmitStep, reduceCtorEq, if_false, Ymodem.sendBlock]
    split <;> simp
  | eotReply v => simp [transmitStep, Ymodem.nextFile]
  | secondEotReply v => simp [transmitStep, Ymodem.nextFile]

/-- The last thing written before OK is the ACK of the Block 0 that ends the batch. -/
theorem received_ok_last {cbs : Ymodem.RxCallbacks State} {u : State} {reads : List Xmodem.Read}
    (h : (Ymodem.received P crc cbs u reads).next = .done .ok) :
    ∃ log, (Ymodem.received P crc cbs u reads).events = log ++ [.write Xmodem.ack] := by
  rcases exists_of_run_done _ h with hstart | ⟨pre, i, post, s, rfl, hpre, hlast⟩
  · cases hstart
  · obtain ⟨buf, ha, hname⟩ := Ymodem.done_ok_site P crc cbs hlast
    refine ⟨[.write Xmodem.charC] ++ (run (receiveStep P crc cbs) (ymodemReceive u).next pre).events, ?_⟩
    rw [Ymodem.received, run_eq_of_done _ post hpre hlast, ha.step P crc cbs,
      Ymodem.acceptBlock0_end P cbs _ _ hname, Out.after_events, List.append_assoc]
    rfl

/-! ### The break -/

theorem Begun.refl (batch : List File) : Begun batch batch := by
  induction batch with
  | nil => exact .nothing []
  | cons f batch ih => exact .whole f ih

section Unbroken

variable {υ : Type} {tcbs : TxCallbacks υ} {batch : List File} {name : Option Path}
  {files : Files UInt8 Path} {u : υ} {ll rl : List Ymodem.Event}
  {t : Duplex UInt8 Ymodem.Event (TxSite υ) Ymodem.Status Ymodem.Event (RxState State) Ymodem.Status}

theorem cut_returns (hbefore : Reaches (txParty P crc tcbs)
      (rxParty P crc (ymodemRxCallbacks P fs settings))
      (Duplex.init (ymodemTransmit tcbs u) (ymodemReceive ⟨initialCtx name, files⟩)) t) :
    ∃ k r, (cutRight (rxParty P crc (ymodemRxCallbacks P fs settings)) t k).next = .done r := by
  obtain ⟨reads, hside⟩ := hbefore.rightSide
  obtain ⟨k, r, hreturns⟩ := returns_received P crc fs settings
    ⟨initialCtx name, files⟩ reads
  have hnext : t.rightSide.next = (Ymodem.received P crc (ymodemRxCallbacks P fs settings)
      ⟨initialCtx name, files⟩ reads).next := congrArg Out.next hside
  rw [← hnext] at hreturns
  exact ⟨k, r, hreturns⟩

/-- What is stored behind a break, with the log of a run to the end. -/
theorem cut_stored (hfs : Reliable fs) (hnames : ∀ f ∈ batch, f.name ≠ [])
    (hstorable : Storable settings files batch)
    (hreports : Reports batch (rl.filterMap (Event.call .ok)))
    (hchunk : Chunked (rl.filterMap (Event.call Ymodem.Status.ok)))
    (hbehind : Reaches (txParty P crc tcbs) (rxParty P crc (ymodemRxCallbacks P fs settings)) t
      ⟨⟨[], .done .ok⟩, ⟨[], .done .ok⟩, [], [], ll, rl⟩) (k : ℕ) :
    ∃ received, Begun received batch ∧ storedFiles P fs settings name files
        (cutRight (rxParty P crc (ymodemRxCallbacks P fs settings)) t k).events =
      received.foldl (put settings) files ∧
      ((cutRight (rxParty P crc (ymodemRxCallbacks P fs settings)) t k).next = .done .ok →
        received = batch) := by
  have hfinal : Final (⟨⟨[], .done .ok⟩, ⟨[], .done .ok⟩, [], [], ll, rl⟩ : Duplex UInt8 Ymodem.Event
      (TxSite υ) Ymodem.Status Ymodem.Event (RxState State) Ymodem.Status) := ⟨⟨.ok, rfl⟩, .ok, rfl⟩
  have hkept := storedFiles_cut P crc fs settings name files
    t.rightSide.events t.rightSide.next k
  by_cases hok : (cutRight (rxParty P crc (ymodemRxCallbacks P fs settings)) t k).next = .done .ok
  · have hdone := returned_before (receive_timeout_ne_ok _) hok
    obtain ⟨hlog, -⟩ := hbehind.right_returned hfinal hdone
    have hwhole : storedFiles P fs settings name files rl = batch.foldl (put settings) files := by
      rw [storedFiles, replay_eq_store]
      exact replay_reports hfs hreports hnames hchunk rfl hstorable
    refine ⟨batch, .refl batch, ?_, fun _ => rfl⟩
    rw [← hwhole]
    exact hkept.trans (congrArg _ hlog)
  · obtain ⟨received, hbegun, hstored⟩ := replay_broken (P := P) hfs
      ((hbehind.rightSide_prefix hfinal).filterMap (Event.call .ok)) hreports hnames hchunk
      (s := ⟨initialCtx name, files⟩) rfl hstorable
    refine ⟨received, hbegun, ?_, fun h => absurd h hok⟩
    rw [← hstored, ← replay_eq_store]
    exact hkept

/-- The transmitter returns OK behind all that the receiver does. -/
theorem transmitted_log (hrun : Reaches (txParty P crc tcbs)
      (rxParty P crc (ymodemRxCallbacks P fs settings))
      (Duplex.init (ymodemTransmit tcbs u) (ymodemReceive ⟨initialCtx name, files⟩))
      ⟨⟨[], .done .ok⟩, ⟨[], .done .ok⟩, [], [], ll, rl⟩)
    (hbehind : Reaches (txParty P crc tcbs) (rxParty P crc (ymodemRxCallbacks P fs settings)) t
      ⟨⟨[], .done .ok⟩, ⟨[], .done .ok⟩, [], [], ll, rl⟩) {k : ℕ}
    (hok : (cutLeft (txParty P crc tcbs) t k).next = .done .ok) : t.rightLog = rl := by
  have hdone : t.left.next = .done .ok := returned_before (transmit_timeout_ne_ok tcbs) hok
  obtain ⟨reads, hside⟩ := hrun.rightSide
  have hreceived : (Ymodem.received P crc (ymodemRxCallbacks P fs settings)
      ⟨initialCtx name, files⟩ reads).next = .done .ok := (congrArg Out.next hside).symm
  have hlog : rl ++ [] = (Ymodem.received P crc (ymodemRxCallbacks P fs settings)
      ⟨initialCtx name, files⟩ reads).events := congrArg Out.events hside
  obtain ⟨log, hlast⟩ := received_ok_last hreceived
  rw [List.append_nil, hlast] at hlog
  exact hbehind.left_returned hdone rfl hlog rfl

end Unbroken

theorem map_resultCode_done {σ σ' κ : Type} [DecidableEq κ] {f : σ → σ'} {ok : κ} {n : Next σ κ}
    (h : n.map f (resultCode ok) = .done 0) : n = .done ok := by
  cases n with
  | wait x => cases h
  | done st => rw [resultCode_eq_zero.mp (Next.done.inj h)]

/-- What a break at `t` leaves: the receive command returns, a part of the batch is stored,
all of it if the command returns 0 and already when the transmitter returns OK. -/
def SurvivesBreak {υ : Type} (P : Platform) (crc : CrcService) (tcbs : TxCallbacks υ)
    (fs : FileSystem UInt8 Path) (settings : StorageSettings) (input : ConsoleInput)
    (batch : List File) (name : Option Path) (files : Files UInt8 Path)
    (t : Duplex UInt8 Ymodem.Event (TxSite υ) Ymodem.Status Ymodem.Event (ℕ × RxState State) ℤ) :
    Prop :=
  (∃ k r, (cutRight (rxConsole P crc fs settings input) t k).next = .done r) ∧
  (∀ k, ∃ received, Begun received batch ∧
    storedFiles P fs settings name files (cutRight (rxConsole P crc fs settings input) t k).events =
      received.foldl (put settings) files ∧
    ((cutRight (rxConsole P crc fs settings input) t k).next = .done 0 → received = batch)) ∧
  ∀ k, (cutLeft (txParty P crc tcbs) t k).next = .done .ok →
    storedFiles P fs settings name files t.rightLog = batch.foldl (put settings) files

/-- The run of a batch as far as its second file, with the first one stored. -/
theorem reaches_first (crc : CrcService) {υ : Type} {tcbs : TxCallbacks υ} {f : File}
    {rest : List File} (hs : Serves P.sizeMod tcbs (f :: rest)) (hf : Sendable P f)
    (hwidth : P.sizeBits ≤ P.ulongBits) (hfs : Reliable fs) {files : Files UInt8 Path}
    (hstorable : Storable settings files [f]) (name : Option Path) (u : υ) :
    ∃ t, Reaches (txParty P crc tcbs) (rxParty P crc (ymodemRxCallbacks P fs settings))
        (Duplex.init (ymodemTransmit tcbs u) (ymodemReceive ⟨initialCtx name, files⟩)) t ∧
      storedFiles P fs settings name files t.rightLog = [f].foldl (put settings) files ∧
      t.leftLog.filterMap Event.wire <+: batchStream crc (f :: rest) := by
  have hstart : Reaches (txParty P crc tcbs) (rxParty P crc (ymodemRxCallbacks P fs settings))
      (Ymodem.start tcbs u ⟨initialCtx name, files⟩)
      (Ymodem.between tcbs 0 u ⟨initialCtx name, files⟩ [.getFileInfo 0] [.write Xmodem.charC]) :=
    (flushLeft [Event.getFileInfo 0] _ _ [] [] [] []).trans
      (flushRight _ [Event.write Xmodem.charC] _ [] [] [Event.getFileInfo 0] [])
  obtain ⟨v, v', sent, chunks, es, hcover, hcalls, hsent, -, hfile⟩ := Ymodem.reaches_file crc
    (ymodemOnFileStart fs settings) (ymodemOnFileData P fs settings) ymodemOnFileEnd hs hf hwidth 0
    rfl u ⟨initialCtx name, files⟩ [.getFileInfo 0] [.write Xmodem.charC]
  have hreports : Reports [f] ((Event.write Xmodem.charC :: es).filterMap (Event.call .ok)) := by
    have hone := Reports.cons hcover (show Reports [] [] from rfl)
    rw [List.filterMap_cons_none rfl, hcalls]
    simpa using hone
  have hall := hstart.trans hfile
  refine ⟨_, hall, ?_, ?_⟩
  · rw [storedFiles, replay_eq_store]
    exact replay_reports hfs hreports (fun g hg => by rw [List.mem_singleton.mp hg]; exact hf.name_ne_nil)
      (chunked_reached hall rfl hreports) rfl hstorable
  · refine ⟨batchStream crc rest, ?_⟩
    show (Event.getFileInfo 0 :: sent).filterMap Event.wire ++ batchStream crc rest = _
    rw [List.filterMap_cons_none rfl, hsent, batchStream, batchStream, List.flatMap_cons,
      List.append_assoc]

end ZephyrModem.Console
