import ZephyrModem.Console.BrokenLine
import ZephyrModem.Zmodem.Bounds
import ZephyrModem.Zmodem.DeadLine
import ZephyrModem.Zmodem.Stream

/-!
# A ZMODEM stream on the target

What `zmodem_transmit` writes for a batch, read by `modem rx z` up to any byte; the line
is dead behind it. Every byte of it goes through `console_read_byte`.
-/

namespace ZephyrModem.Console
open ZephyrModem.Storage ZephyrModem.Transfer ZephyrModem.Reactive
open ZephyrModem.Zmodem (RxState receiveStep zmodemReceive wireStream Sendable)

variable {P : Platform} {crc : CrcService} {stale : List UInt8 → List UInt8}
  {fs : FileSystem UInt8 Path} {settings : StorageSettings}

variable (P crc stale) in
/-- What the receiver reports fits the buffer of the asynchronous writer. -/
theorem chunked_stream (cbs : Zmodem.RxCallbacks State) (u : State) (reads : List Xmodem.Read) :
    Chunked ((run (receiveStep P crc stale cbs) (zmodemReceive crc u).next reads).events.filterMap
      (Event.call Zmodem.Status.ok)) := by
  intro offset len bytes hin
  obtain ⟨e, he, hcall⟩ := List.mem_filterMap.mp hin
  cases e with
  | onData buf l o res =>
    cases hcall
    obtain ⟨rfl, hlen⟩ := Zmodem.onData_length P crc stale cbs u he
    exact hlen
  | write b => cases hcall
  | onFileStart info res => cases hcall
  | onFileEnd info status => cases hcall
  | getFileInfo idx => cases hcall
  | readData idx offset len data res => cases hcall

variable (P crc stale) in
theorem stream_timeout_ne_ok (cbs : Zmodem.RxCallbacks State) (s : RxState State) :
    (receiveStep P crc stale cbs s .timeout).next ≠ .done .ok := by
  intro h
  obtain ⟨hs, hd, -, hr, -⟩ := Zmodem.done_ok_site P crc stale cbs h
  rw [Zmodem.readHeaderRx, Zmodem.readHeader_timeout] at hr
  cases hr

theorem call_stream_timeout {cbs : Zmodem.RxCallbacks State} {s : RxState State} {e : Event Zmodem.Status}
    (h : e ∈ (receiveStep P crc stale cbs s .timeout).events) {c : Call}
    (hc : e.call Zmodem.Status.ok = some c) : ∃ name size good, c = .fileEnd name size good := by
  have hsub : ∀ c p a, Zmodem.readSubpacketRx crc 1024 c p .timeout ≠ .done (some a) := by
    intro c p a hr
    rw [(Zmodem.readSubpacketRx_cancel crc 1024 c p).2] at hr
    cases hr
  rcases Zmodem.mem_receiveStep_events P crc stale cbs h with ⟨b, rfl⟩ | ⟨info, st, -, rfl⟩ |
    ⟨f, hd, -, -, rfl⟩ | ⟨c', p, a, res, -, hr, -⟩ | ⟨f, c', p, sub, ender, g, -, hr, -⟩
  · cases hc
  · cases hc
    exact ⟨_, _, _, rfl⟩
  · cases hc
    exact ⟨_, _, _, rfl⟩
  · exact absurd hr (hsub c' p a)
  · exact absurd hr (hsub c' p _)

variable (P crc stale) in
/-- The receiver on some bytes and a dead line behind them. -/
theorem run_broken (cbs : Zmodem.RxCallbacks State) (n : Next (RxState State) Zmodem.Status)
    (bytes : List UInt8) (k : ℕ) : ∃ st rest,
      run (receiveStep P crc stale cbs) n (bytes.map .ok ++ List.replicate (k + 1) .timeout) =
        ⟨(feed (receiveStep P crc stale cbs) n bytes).events ++ rest, .done st⟩ ∧
      (st = .ok ↔ (feed (receiveStep P crc stale cbs) n bytes).next = .done .ok) ∧
      ∀ e ∈ rest, ∀ c, e.call Zmodem.Status.ok = some c → ∃ name size good, c = .fileEnd name size good := by
  rw [run_append]
  show ∃ st rest, (run _ (feed (receiveStep P crc stale cbs) n bytes).next _).after
    (feed (receiveStep P crc stale cbs) n bytes).events = _ ∧ _
  cases hnext : (feed (receiveStep P crc stale cbs) n bytes).next with
  | done st =>
    refine ⟨st, [], ?_, ?_, fun e he => absurd he List.not_mem_nil⟩
    · rw [run_done]
      rfl
    · rw [Next.done.injEq]
  | wait s =>
    obtain ⟨es, st, -, hstep, -⟩ := Zmodem.receiveStep_timeout P crc stale cbs s
    have hne := stream_timeout_ne_ok P crc stale cbs s
    have hend : ∀ e ∈ (receiveStep P crc stale cbs s .timeout).events, ∀ c,
        e.call Zmodem.Status.ok = some c → ∃ name size good, c = .fileEnd name size good :=
      fun e he c hc => call_stream_timeout he hc
    rw [hstep] at hne hend
    refine ⟨st, es, ?_, ?_, hend⟩
    · rw [List.replicate_succ, run_wait, hstep, run_done]
      simp [Out.after]
    · refine ⟨fun h => absurd (congrArg Next.done h) hne, fun h => ?_⟩
      cases h

variable (P crc stale fs settings) in
/-- The command on some bytes and a dead line behind them. -/
theorem consoleModemRxZmodem_broken (name : Option Path) (files : Files UInt8 Path)
    (bytes : List UInt8) (k : ℕ) : ∃ code,
      (consoleModemRxZmodem P crc stale fs settings name files
        (bytes.map .ok ++ List.replicate (k + 1) .timeout)).result = some code ∧
      (code = 0 ↔ (feed (receiveStep P crc stale (zmodemRxCallbacks P fs settings))
        (zmodemReceive crc (⟨initialCtx name, files⟩ : State)).next bytes).next = .done .ok) ∧
      (consoleModemRxZmodem P crc stale fs settings name files
        (bytes.map .ok ++ List.replicate (k + 1) .timeout)).state.files =
          (replay (store P fs settings) ((feed (receiveStep P crc stale (zmodemRxCallbacks P fs settings))
            (zmodemReceive crc (⟨initialCtx name, files⟩ : State)).next bytes).events.filterMap
              (Event.call Zmodem.Status.ok)) ⟨initialCtx name, files⟩).files := by
  obtain ⟨st, rest, hrun, hst, hend⟩ := run_broken P crc stale (zmodemRxCallbacks P fs settings)
    (zmodemReceive crc (⟨initialCtx name, files⟩ : State)).next bytes k
  refine ⟨resultCode .ok st, ?_, ?_, ?_⟩
  · simp only [consoleModemRxZmodem, Zmodem.received, hrun, Out.after_next, resultOf]
  · rw [← hst, resultCode_eq_zero]
  · simp only [consoleModemRxZmodem, Zmodem.received, hrun, Out.after_events]
    rw [← List.append_assoc, replay_append]
    refine (replay_endings P fs settings Zmodem.Status.ok hend _).trans ?_
    refine congrArg State.files ((replay_eq_calls P fs settings Zmodem.Status.ok _ _).trans ?_)
    rw [List.filterMap_append, zmodemReceive, Zmodem.sendHexHeader, call_writeBytes, List.nil_append]

/-- The stream breaks off after any byte. What is stored is a part of the batch, all of it
where the command returns 0, which it does on the whole stream. -/
theorem stream_stored {υ : Type} (P : Platform) (crc : CrcService) (stale : List UInt8 → List UInt8)
    (uninit : ℕ → UInt8) (tcbs : TxCallbacks υ) (fs : FileSystem UInt8 Path)
    (settings : StorageSettings) (input : ConsoleInput) (canCount : ℕ) (batch : List File)
    (name : Option Path) (files : Files UInt8 Path) (u : υ) (hs : Serves P.sizeMod tcbs batch)
    (hbatch : ∀ f ∈ batch, Sendable P f) (hne : ∀ f ∈ batch, f.contents ≠ [])
    (hwidth : P.sizeBits ≤ P.ulongBits) (hfs : Reliable fs) (hstorable : Storable settings files batch)
    (hquiet : input.Quiet (wireStream P crc uninit tcbs batch.length u)) {bytes : List UInt8}
    (hbytes : bytes <+: wireStream P crc uninit tcbs batch.length u) (k : ℕ) :
    ∃ received code, Begun received batch ∧
      (consoleModemRxZmodem P crc stale fs settings name files (results input.readByte canCount
        (bytes.map .ok ++ List.replicate (k + 1) .timeout))).state.files =
          received.foldl (put settings) files ∧
      (consoleModemRxZmodem P crc stale fs settings name files (results input.readByte canCount
        (bytes.map .ok ++ List.replicate (k + 1) .timeout))).result = some code ∧
      (code = 0 → received = batch) ∧
      (bytes = wireStream P crc uninit tcbs batch.length u → code = 0) := by
  rw [((hquiet.of_prefix hbytes).passes canCount).results (patient_readByte input)]
  obtain ⟨code, hresult, hcode, hfiles⟩ := consoleModemRxZmodem_broken P crc stale fs settings
    name files bytes k
  obtain ⟨es, hdecodes, hreports⟩ := Zmodem.feed_wireStream crc stale uninit
    (zmodemOnFileStart fs settings) (zmodemOnFileData P fs settings) zmodemOnFileEnd u
    ⟨initialCtx name, files⟩ hs hbatch hne hwidth
  have hfeed : feed (receiveStep P crc stale (zmodemRxCallbacks P fs settings))
      (zmodemReceive crc (⟨initialCtx name, files⟩ : State)).next
      (wireStream P crc uninit tcbs batch.length u) = ⟨es, .done .ok⟩ := hdecodes
  have hnames : ∀ f ∈ batch, f.name ≠ [] := fun f hf => (hbatch f hf).name_ne_nil
  have hchunk : Chunked (es.filterMap (Event.call Zmodem.Status.ok)) := by
    have hall := chunked_stream P crc stale (zmodemRxCallbacks P fs settings) ⟨initialCtx name, files⟩
      ((wireStream P crc uninit tcbs batch.length u).map .ok)
    rwa [← feed, hfeed] at hall
  obtain ⟨more, hmore⟩ := hbytes
  rw [← hmore, feed_append] at hfeed
  by_cases hok : (feed (receiveStep P crc stale (zmodemRxCallbacks P fs settings))
      (zmodemReceive crc (⟨initialCtx name, files⟩ : State)).next bytes).next = .done .ok
  · rw [hok, feed_done] at hfeed
    have hall : (feed (receiveStep P crc stale (zmodemRxCallbacks P fs settings))
        (zmodemReceive crc (⟨initialCtx name, files⟩ : State)).next bytes).events = es := by
      simpa [Out.after] using hfeed
    refine ⟨batch, code, .refl batch, ?_, hresult, fun _ => rfl, fun _ => hcode.mpr hok⟩
    rw [hfiles, hall]
    exact replay_reports hfs hreports hnames hchunk rfl hstorable
  · have hpre : (feed (receiveStep P crc stale (zmodemRxCallbacks P fs settings))
        (zmodemReceive crc (⟨initialCtx name, files⟩ : State)).next bytes).events <+: es :=
      ⟨_, congrArg Out.events hfeed⟩
    obtain ⟨received, hbegun, hstored⟩ := replay_broken (P := P) hfs
      (hpre.filterMap (Event.call .ok)) hreports hnames hchunk (s := ⟨initialCtx name, files⟩) rfl
      hstorable
    refine ⟨received, code, hbegun, hfiles.trans hstored, hresult,
      fun h => absurd (hcode.mp h) hok, fun h => absurd ?_ hok⟩
    obtain rfl : more = [] := List.append_right_eq_self.mp (hmore.trans h.symm)
    rw [feed_nil] at hfeed
    exact congrArg Out.next hfeed

/-- Two files, the second one with a byte that is escaped. -/
def streamedFiles : List File := [⟨[0x66], [9]⟩, ⟨[0x67], [0x18, 0x41]⟩]

theorem quiet_streamedFiles : ConsoleInput.Quiet ⟨false, true, 0x03⟩
    (wireStream platform32 referenceCrc (fun _ => 0) (batchCallbacks streamedFiles) 2 ()) := by
  refine .inr (.inr ⟨⟨?_, ?_⟩, ?_⟩)
  · decide +kernel
  · decide +kernel
  · decide +kernel

/-- They are received in full with the default abort key, the first one over a longer file. -/
theorem stream_stored_two_files :
    (consoleModemRxZmodem platform32 referenceCrc (fun _ => []) reliableFs alwaysOverwrite none
      threeBytes.files (results (ConsoleInput.readByte ⟨false, true, 0x03⟩) 1
        ((wireStream platform32 referenceCrc (fun _ => 0) (batchCallbacks streamedFiles) 2 ()).map .ok ++
          List.replicate 1 .timeout))).result = some 0 ∧
    (consoleModemRxZmodem platform32 referenceCrc (fun _ => []) reliableFs alwaysOverwrite none
      threeBytes.files (results (ConsoleInput.readByte ⟨false, true, 0x03⟩) 1
        ((wireStream platform32 referenceCrc (fun _ => 0) (batchCallbacks streamedFiles) 2 ()).map .ok ++
          List.replicate 1 .timeout))).state.files =
      streamedFiles.foldl (put alwaysOverwrite) threeBytes.files := by
  have hsend : ∀ f ∈ streamedFiles, Sendable platform32 f := by
    intro f hf
    rw [streamedFiles, List.mem_cons, List.mem_singleton] at hf
    rcases hf with rfl | rfl
    · exact ⟨by decide, by decide, by decide, by decide⟩
    · exact ⟨by decide, by decide, by decide, by decide⟩
  obtain ⟨received, code, -, hfiles, hresult, hall, hzero⟩ := stream_stored platform32 referenceCrc
    (fun _ => []) (fun _ => 0) _ reliableFs alwaysOverwrite ⟨false, true, 0x03⟩ 1 streamedFiles none
    threeBytes.files () (batchCallbacks_serves (by decide)) hsend (by decide) (by decide)
    reliable_reliableFs (.inl rfl) quiet_streamedFiles (List.prefix_refl _) 0
  rw [hall (hzero rfl)] at hfiles
  rw [hzero rfl] at hresult
  exact ⟨hresult, hfiles⟩

end ZephyrModem.Console
