import ZephyrModem.Console.BrokenLine
import ZephyrModem.Console.XmodemCopy
import ZephyrModem.Xmodem.DeadLine
import ZephyrModem.Xmodem.Safety

/-!
# A line that breaks under an XMODEM copy

The target has whole blocks of the file, from its beginning on, written over what was there.
-/

namespace ZephyrModem.Console
open ZephyrModem.Storage ZephyrModem.Transfer ZephyrModem.Reactive ZephyrModem.Reactive.Duplex
open ZephyrModem.Xmodem (TxSite RxState RxResult transmitStep receiveStep xmodemTransmit
  xmodemReceive receiver delivered sentCount fileBlock blockSize1024)

variable {P : Platform} {crc : CrcService} {fs : FileSystem UInt8 Path} {settings : StorageSettings}

/-! ### Without a line -/

/-- On a time-out nothing is delivered, and OK is not returned. -/
theorem receive_timeout (cbs : Xmodem.RxCallbacks State) (cfg : Xmodem.Config) (s : RxState State) :
    delivered (receiveStep P crc cbs cfg s .timeout).events = [] ∧
      ∀ n, (receiveStep P crc cbs cfg s .timeout).next ≠ .done ⟨.ok, n⟩ := by
  rcases Xmodem.receiveStep_cases P crc cbs cfg s .timeout with ⟨site, -, he⟩ | ⟨es, -, hes, he⟩ |
    ⟨-, hread, -⟩ | ⟨-, -, he⟩ | ⟨bad, -, he⟩ | ⟨n, buf, hlast, -⟩
  · rw [he]
    exact ⟨rfl, fun n h => by cases h⟩
  · rw [he]
    refine ⟨?_, fun n h => by cases h⟩
    rcases hes with rfl | rfl <;> rfl
  · cases hread
  · rw [he]
    rcases Xmodem.headerTimeout_cases cfg s.locals with h | ⟨c, q, -, h⟩ <;> rw [h]
    · exact ⟨rfl, fun n h => by cases h⟩
    · exact ⟨rfl, fun n h => by cases h⟩
  · rw [he]
    rcases Xmodem.afterPurge_cases cfg bad s.locals with h | h <;> rw [h]
    · exact ⟨rfl, fun n h => by cases h⟩
    · exact ⟨rfl, fun n h => by cases h⟩
  · generalize s.site = site at hlast
    cases hlast

theorem xmodem_transmit_timeout {υ : Type} (cbs : Xmodem.TxCallbacks υ) (cfg : Xmodem.Config)
    (totalLen : ℕ) (s : TxSite υ) :
    (transmitStep P crc cbs cfg totalLen s .timeout).next ≠ .done .ok := by
  cases s with
  | start retries u =>
    simp only [transmitStep, Xmodem.startAgain]
    split <;> simp
  | reply v retries payload =>
    simp only [transmitStep, Xmodem.sendPacket]
    split <;> simp
  | eotReply retries =>
    simp only [transmitStep, reduceCtorEq, if_false, Xmodem.sendEot]
    split <;> simp

theorem delivered_cut (cbs : Xmodem.RxCallbacks State) (cfg : Xmodem.Config)
    (n : Next (RxState State) RxResult) (k : ℕ) :
    delivered (run (receiveStep P crc cbs cfg) n (List.replicate k .timeout)).events = [] := by
  refine List.filterMap_eq_nil_iff.mpr ?_
  intro e he
  obtain ⟨pre, i, post, s, hreads, -, hin⟩ := exists_of_mem_events _ he
  have hi : i = .timeout := by
    refine List.eq_of_mem_replicate (n := k) ?_
    rw [hreads]
    simp
  rw [hi] at hin
  exact List.filterMap_eq_nil_iff.mp (receive_timeout cbs cfg s).1 e hin

/-- The last thing written before OK is the ACK of EOT. -/
theorem xmodem_ok_last {cbs : Xmodem.RxCallbacks State} {cfg : Xmodem.Config} {u : State}
    {reads : List Xmodem.Read} {n : Option ℕ}
    (h : (Xmodem.receive P crc cbs cfg u reads).next = .done ⟨.ok, n⟩) :
    ∃ log, (Xmodem.receive P crc cbs cfg u reads).events = log ++ [.write Xmodem.ack] := by
  rcases exists_of_run_done _ h with hstart | ⟨pre, i, post, s, rfl, hpre, hlast⟩
  · cases hstart
  · refine ⟨(xmodemReceive cfg u).events ++
      (run (receiveStep P crc cbs cfg) (xmodemReceive cfg u).next pre).events, ?_⟩
    rw [Xmodem.receive, run_eq_of_done _ post hpre hlast, Xmodem.receiveStep_done_ok P crc cbs cfg hlast,
      Out.after_events, List.append_assoc]
    rfl

/-! ### The blocks that have come -/

theorem take_blocks (bs : ℕ) (file : List UInt8) {n : ℕ} (hn : n ≤ sentCount bs file) :
    ((List.range n).map (fileBlock bs file)).flatten = (Xmodem.sentFile bs file).take (n * bs) := by
  have hsplit : List.range (sentCount bs file) =
      List.range n ++ (List.range (sentCount bs file - n)).map (n + ·) := by
    rw [← List.range_add]
    congr 1
    omega
  rw [Xmodem.sentFile, hsplit, List.map_append, List.flatten_append,
    List.take_left' (Xmodem.flatten_blocks_length bs file n)]

/-- A part of the log delivers the first blocks. -/
theorem delivered_part {bs : ℕ} {file : List UInt8} {part log : List Xmodem.Event}
    (hpart : part <+: log)
    (hlog : delivered log = (List.range (sentCount bs file)).map (fileBlock bs file)) :
    ∃ n, n ≤ sentCount bs file ∧ delivered part = (List.range n).map (fileBlock bs file) := by
  have hprefix : delivered part <+: delivered log := hpart.filterMap _
  refine ⟨(delivered part).length, ?_, ?_⟩
  · have hle := hprefix.length_le
    rwa [hlog, List.length_map, List.length_range] at hle
  · rw [hlog] at hprefix
    have htake := List.prefix_iff_eq_take.mp hprefix
    have hle := hprefix.length_le
    rw [List.length_map, List.length_range] at hle
    rw [← List.map_take, List.take_range, Nat.min_eq_left hle] at htake
    exact htake

theorem xmodemStored_part (hfs : Reliable fs) {name contents : List UInt8} {files : Files UInt8 Path}
    (hmode : settings.overwriteMode = .always ∨ files (fullPath settings name) = none)
    {log : List Xmodem.Event} {n : ℕ} (hn : n ≤ sentCount blockSize1024 contents)
    (hlog : delivered log = (List.range n).map (fileBlock blockSize1024 contents)) :
    xmodemStored P fs settings name files log = put settings files
      ⟨name, (Xmodem.sentFile blockSize1024 contents).take (n * blockSize1024)⟩ := by
  rw [xmodemStored_blocks hfs hmode hlog, take_blocks _ _ hn]

/-! ### The break -/

theorem map_xmodemResult_done {σ σ' : Type} {f : σ → σ'} {n : Next σ RxResult}
    (h : n.map f xmodemResult = .done 0) : ∃ m, n = .done ⟨.ok, m⟩ := by
  cases n with
  | wait x => cases h
  | done r =>
    refine ⟨r.totalReceived, ?_⟩
    rw [← resultCode_eq_zero.mp (Next.done.inj h)]

section Unbroken

variable {υ : Type} {L : Party UInt8 Xmodem.Event (TxSite υ) Xmodem.Status} {rxRetries : UInt8}
  {s u : State} {l : Out Xmodem.Event (TxSite υ) Xmodem.Status} {n : Option ℕ}
  {ll rl : List Xmodem.Event} {name contents : List UInt8} {files : Files UInt8 Path}
  {t : Duplex UInt8 Xmodem.Event (TxSite υ) Xmodem.Status Xmodem.Event (RxState State) RxResult}

variable (P crc fs settings t) in
theorem copy_cut_returns (hretries : rxRetries ≠ 255) :
    ∃ k r, (cutRight (receiver P crc (xmodemRxCallbacks P fs settings) (xmodemConfig rxRetries)) t
      k).next = .done r := by
  cases hnext : t.rightSide.next with
  | done r =>
    refine ⟨0, r, ?_⟩
    rw [cutRight, List.replicate_zero, run_nil]
    exact hnext
  | wait x =>
    have hlimit : (xmodemConfig rxRetries).maxRetries ≠ 255 := hretries
    obtain ⟨k, r, hreturns⟩ := Xmodem.returns_receive P crc (xmodemRxCallbacks P fs settings) hlimit x
    refine ⟨k, r, ?_⟩
    rw [cutRight, hnext]
    exact hreturns

/-- What is stored behind a break, with the log of a run to the end. -/
theorem copy_cut_stored (hfs : Reliable fs)
    (hmode : settings.overwriteMode = .always ∨ files (fullPath settings name) = none)
    (hlog : delivered rl = (List.range (sentCount blockSize1024 contents)).map
      (fileBlock blockSize1024 contents))
    (hbehind : Reaches L (receiver P crc (xmodemRxCallbacks P fs settings) (xmodemConfig rxRetries)) t
      ⟨⟨[], .done .ok⟩, ⟨[], .done ⟨.ok, n⟩⟩, [], [], ll, rl⟩) (k : ℕ) :
    ∃ m, xmodemStored P fs settings name files
        (cutRight (receiver P crc (xmodemRxCallbacks P fs settings) (xmodemConfig rxRetries)) t
          k).events =
      put settings files ⟨name, (Xmodem.sentFile blockSize1024 contents).take (m * blockSize1024)⟩ ∧
      ((∃ n', (cutRight (receiver P crc (xmodemRxCallbacks P fs settings) (xmodemConfig rxRetries)) t
        k).next = .done ⟨.ok, n'⟩) → m = sentCount blockSize1024 contents) := by
  have hfinal : Final (⟨⟨[], .done .ok⟩, ⟨[], .done ⟨.ok, n⟩⟩, [], [], ll, rl⟩ : Duplex UInt8
      Xmodem.Event (TxSite υ) Xmodem.Status Xmodem.Event (RxState State) RxResult) :=
    ⟨⟨.ok, rfl⟩, _, rfl⟩
  have hkept : delivered (cutRight (receiver P crc (xmodemRxCallbacks P fs settings)
      (xmodemConfig rxRetries)) t k).events = delivered t.rightSide.events := by
    rw [cutRight, Out.after_events, Xmodem.delivered_append]
    exact List.append_right_eq_self.mpr (delivered_cut _ _ _ _)
  by_cases hok : ∃ n', (cutRight (receiver P crc (xmodemRxCallbacks P fs settings)
      (xmodemConfig rxRetries)) t k).next = .done ⟨.ok, n'⟩
  · obtain ⟨n', hok⟩ := hok
    have hdone := returned_before (fun s => (receive_timeout _ _ s).2 n') hok
    obtain ⟨hall, -⟩ := hbehind.right_returned hfinal hdone
    refine ⟨sentCount blockSize1024 contents, ?_, fun _ => rfl⟩
    refine xmodemStored_part hfs hmode (Nat.le_refl _) ?_
    rw [hkept, hall]
    exact hlog
  · obtain ⟨m, hm, hpart⟩ := delivered_part (hbehind.rightSide_prefix hfinal) hlog
    refine ⟨m, xmodemStored_part hfs hmode hm ?_, fun h => absurd h hok⟩
    rw [hkept]
    exact hpart

/-- The transmitter returns OK behind all that the receiver does. -/
theorem copy_transmitted_log {cfg : Xmodem.Config}
    (hrun : Reaches L (receiver P crc (xmodemRxCallbacks P fs settings) cfg)
      (Duplex.init l (xmodemReceive cfg u))
      ⟨⟨[], .done .ok⟩, ⟨[], .done ⟨.ok, n⟩⟩, [], [], ll, rl⟩)
    (hbehind : Reaches L (receiver P crc (xmodemRxCallbacks P fs settings) cfg) t
      ⟨⟨[], .done .ok⟩, ⟨[], .done ⟨.ok, n⟩⟩, [], [], ll, rl⟩)
    (hdone : t.left.next = .done .ok) : t.rightLog = rl := by
  obtain ⟨reads, hside⟩ := hrun.rightSide
  have hreceived : (Xmodem.receive P crc (xmodemRxCallbacks P fs settings) cfg u reads).next =
      .done ⟨.ok, n⟩ := (congrArg Out.next hside).symm
  have hlog : rl ++ [] =
      (Xmodem.receive P crc (xmodemRxCallbacks P fs settings) cfg u reads).events :=
    congrArg Out.events hside
  obtain ⟨log, hlast⟩ := xmodem_ok_last hreceived
  rw [List.append_nil, hlast] at hlog
  exact hbehind.left_returned hdone rfl hlog rfl

end Unbroken

/-- What a break at `t` leaves: the receive command returns, the target has the first blocks
of the padded file, all of them if its command returns 0 and already when the transmitting
one returns 0. -/
def CopySurvivesBreak (P : Platform) (crc : CrcService) (rd : ReadAccess UInt8 Path)
    (fs : FileSystem UInt8 Path) (settings : StorageSettings) (txRetries rxRetries : UInt8)
    (txInput rxInput : ConsoleInput) (source files : Files UInt8 Path)
    (path name contents : List UInt8)
    (t : Duplex UInt8 Xmodem.Event (ℕ × TxSite State) ℤ Xmodem.Event (ℕ × RxState State) ℤ) : Prop :=
  (rxRetries ≠ 255 → ∃ k r,
    (cutRight (rxXmodemConsole P crc fs settings rxRetries rxInput) t k).next = .done r) ∧
  (∀ k, ∃ m, xmodemStored P fs settings name files
      (cutRight (rxXmodemConsole P crc fs settings rxRetries rxInput) t k).events =
    put settings files ⟨name, (Xmodem.sentFile blockSize1024 contents).take (m * blockSize1024)⟩ ∧
    ((cutRight (rxXmodemConsole P crc fs settings rxRetries rxInput) t k).next = .done 0 →
      m = sentCount blockSize1024 contents)) ∧
  ∀ k, (cutLeft (txXmodemConsole P crc rd txRetries txInput path source) t k).next = .done 0 →
    xmodemStored P fs settings name files t.rightLog =
      put settings files ⟨name, Xmodem.sentFile blockSize1024 contents⟩

/-- The line breaks in any state of a copy whose packets and replies the monitors let pass. -/
theorem broken_copy (P : Platform) (crc : CrcService) (rd : ReadAccess UInt8 Path)
    (fs : FileSystem UInt8 Path) (settings : StorageSettings) (txRetries rxRetries : UInt8)
    (txInput rxInput : ConsoleInput) (txCount rxCount : ℕ)
    (source files : Files UInt8 Path) (path name contents : List UInt8) (hrd : rd.Reliable)
    (hfs : Reliable fs) (hthere : source path = some contents) (hfits : path.length < pathSize)
    (hsize : (Xmodem.sentFile blockSize1024 contents).length < P.sizeMod) (hretries : 0 < txRetries)
    (hmode : settings.overwriteMode = .always ∨ files (fullPath settings name) = none)
    (hreplies : txInput.Quiet (Xmodem.fileReplies (xmodemConfig rxRetries) blockSize1024 contents))
    (hstream : rxInput.Quiet (Xmodem.fileStream crc (xmodemConfig txRetries) contents true)) {j : ℕ}
    {t : Duplex UInt8 Xmodem.Event (ℕ × TxSite State) ℤ Xmodem.Event (ℕ × RxState State) ℤ}
    (ht : PatientRun (txXmodemConsole P crc rd txRetries txInput path source)
      (rxXmodemConsole P crc fs settings rxRetries rxInput) j
      (Duplex.init (consoleModemTxXmodem rd txCount path source)
        (rxXmodemStart fs settings rxRetries rxCount name files)) t) :
    CopySurvivesBreak P crc rd fs settings txRetries rxRetries txInput rxInput source files path name
      contents t := by
  obtain ⟨hblocks, hlen⟩ := blocks_fit hsize
  obtain ⟨s, hplace, hopen, hstarts⟩ := copy_starts rxRetries hrd hfs hthere hfits hmode
  obtain ⟨n, ll, rl, hdelivered, hsent, hanswered, hrun⟩ := reaches_copied crc
    (takes_xmodemRxCallbacks hfs) (xmodemConfig rxRetries) hrd hlen hblocks hretries hplace hopen
  have hsending := (txOpened_sendingFrom hrd hthere hfits).2.1
  have hparty : SameParty (Prod.map id (TxSite.map Subtype.val)) (resultCode .ok)
      ((sendingParty crc txRetries hrd hlen path).filtered txInput.readByte)
      (txXmodemConsole P crc rd txRetries txInput path source) :=
    sameParty_txXmodemConsole hrd hlen hsending.fileSize
  have hreceiver : SameParty id xmodemResult
      ((receiver P crc (xmodemRxCallbacks P fs settings) (xmodemConfig rxRetries)).filtered
        rxInput.readByte)
      (rxXmodemConsole P crc fs settings rxRetries rxInput) := sameParty_rxXmodemConsole
  rw [← hanswered] at hreplies
  have hquiet : rxInput.Quiet (ll.filterMap Xmodem.Event.wire) := by
    rw [hsent]
    exact hstream
  obtain ⟨i, i', hfiltered⟩ := hrun.filtered (passing_init (hreplies.passes txCount))
    (passing_init (hquiet.passes rxCount))
  rw [hstarts] at ht
  obtain ⟨t₀, rfl, hmonitored, -⟩ := PatientRun.unbroken hparty hreceiver hfiltered
    ⟨⟨_, rfl⟩, _, rfl⟩ ht
  -- the run that breaks, as the two functions make it without the monitors
  obtain ⟨t₁, a, b, rfl, hbefore, hbehind⟩ := hrun.unfiltered ⟨⟨_, rfl⟩, _, rfl⟩
    (passing_init (hreplies.passes txCount)) (passing_init (hquiet.passes rxCount)) hmonitored
  have hcut : ∀ k, cutRight (rxXmodemConsole P crc fs settings rxRetries rxInput)
      ((t₁.liftBoth a b).map (Prod.map id (TxSite.map Subtype.val)) (resultCode .ok) id xmodemResult)
      k = ((cutRight (receiver P crc (xmodemRxCallbacks P fs settings) (xmodemConfig rxRetries)) t₁
        k).map (Prod.mk b) id).map id xmodemResult := by
    intro k
    rw [cutRight_map hreceiver, cutRight_filtered (patient_readByte rxInput)]
  refine ⟨?_, ?_, ?_⟩
  · intro hlimit
    obtain ⟨k, r, hreturns⟩ := copy_cut_returns P crc fs settings t₁ hlimit
    refine ⟨k, xmodemResult r, ?_⟩
    rw [hcut, Out.map_next, Out.map_next, hreturns]
    rfl
  · intro k
    obtain ⟨m, hstored, hall⟩ := copy_cut_stored hfs hmode hdelivered hbehind k
    rw [hcut, Out.map_events, Out.map_events, Out.map_next, Out.map_next]
    refine ⟨m, hstored, fun h => hall ?_⟩
    obtain ⟨n', hdone⟩ := map_xmodemResult_done h
    exact ⟨n', Next.done_of_map hdone⟩
  · intro k hok
    rw [cutLeft_map hparty, cutLeft_filtered (patient_readByte txInput), Out.map_next,
      Out.map_next] at hok
    have hdone : t₁.left.next = .done .ok := returned_before (xmodem_transmit_timeout _ _ _)
      (Next.done_of_map (map_resultCode_done hok))
    have hwhole : t₁.rightLog = rl := copy_transmitted_log hrun hbehind hdone
    show xmodemStored P fs settings name files t₁.rightLog = _
    rw [hwhole]
    exact xmodemStored_blocks hfs hmode hdelivered

/-- The copy as far as the ACK of its first block. -/
theorem reaches_first_block (crc : CrcService) {υ : Type} {cbs : Xmodem.RxCallbacks υ}
    {Inv : υ → Prop} {contents : List UInt8} (htakes : Xmodem.Takes cbs Inv) (tcfg rcfg : Xmodem.Config)
    (hmax : 0 < tcfg.maxRetries) {u : υ} (hu : Inv u) : ∃ t : Xmodem.System υ,
      Reaches (Xmodem.transmitter P crc tcfg contents) (receiver P crc cbs rcfg)
        (Duplex.init (xmodemTransmit 0) (xmodemReceive rcfg u)) t ∧
      Xmodem.SentBlocks crc tcfg contents (rcfg.mode ≠ .standard) (Xmodem.rxInit rcfg u).req 1 t.leftLog
        t.rightLog := by
  obtain ⟨w, -, hblock⟩ := Xmodem.reaches_acked P crc cbs tcfg rcfg contents []
    (Xmodem.sendByte (Xmodem.rxInit rcfg u).req) htakes (i := 0) (v := Xmodem.rxInit rcfg u)
    ⟨rfl, rfl, hu⟩
  exact ⟨_, (Xmodem.reaches_request P crc cbs tcfg rcfg contents hmax u).trans hblock,
    (Xmodem.sentBlocks_request crc tcfg rcfg contents u).next⟩

/-- The line breaks behind the first of two blocks, with the default abort key on both sides. -/
theorem broken_copy_second_block : ∃ t,
    (∃ j, PatientRun
      (txXmodemConsole platform32 referenceCrc reliableRead 10 ⟨false, true, 0x03⟩ [0x66] longSource)
      (rxXmodemConsole platform32 referenceCrc reliableFs alwaysOverwrite 10 ⟨false, true, 0x03⟩) j
      (Duplex.init (consoleModemTxXmodem reliableRead 0 [0x66] longSource)
        (rxXmodemStart reliableFs alwaysOverwrite 10 1 [0x67] threeBytes.files)) t) ∧
    xmodemStored platform32 reliableFs alwaysOverwrite [0x67] threeBytes.files t.rightLog =
      put alwaysOverwrite threeBytes.files
        ⟨[0x67], (Xmodem.sentFile blockSize1024 longFile).take (1 * blockSize1024)⟩ ∧
    CopySurvivesBreak platform32 referenceCrc reliableRead reliableFs alwaysOverwrite 10 10
      ⟨false, true, 0x03⟩ ⟨false, true, 0x03⟩ longSource threeBytes.files [0x66] [0x67] longFile t := by
  have hsize : (Xmodem.sentFile blockSize1024 longFile).length < platform32.sizeMod := by
    rw [Xmodem.sentFile_length, sentCount_longFile]
    decide
  obtain ⟨-, hlen⟩ := blocks_fit hsize
  have hthere : longSource [0x66] = some longFile := rfl
  have hmode : alwaysOverwrite.overwriteMode = .always ∨
      threeBytes.files (fullPath alwaysOverwrite [0x67]) = none := .inl rfl
  obtain ⟨s, hplace, hopen, hstarts⟩ :=
    copy_starts 10 reliable_reliableRead reliable_reliableFs hthere (by decide) hmode
  have htakes : Xmodem.Takes (xmodemRxCallbacks platform32 reliableFs alwaysOverwrite)
      fun s => s.ctx.zfileOpen := takes_xmodemRxCallbacks reliable_reliableFs
  obtain ⟨t₀, hrun, hsent⟩ :=
    reaches_first_block referenceCrc htakes (xmodemConfig 10) (xmodemConfig 10) (by decide) hopen
  obtain ⟨t, hlift, rfl⟩ := reaches_lifted reliable_reliableRead hlen hplace hrun
  have hpackets : t.leftLog.filterMap Xmodem.Event.wire <+:
      Xmodem.fileStream referenceCrc (xmodemConfig 10) longFile true :=
    Xmodem.SentBlocks.sent_prefix referenceCrc (xmodemConfig 10) longFile hsent
      (sentCount_longFile ▸ (by decide : 1 ≤ 2))
  have hanswers : t.rightLog.filterMap Xmodem.Event.wire <+:
      Xmodem.fileReplies (xmodemConfig 10) blockSize1024 longFile := by
    have hpart : t.rightLog.filterMap Xmodem.Event.wire =
      Xmodem.charC :: List.replicate 1 Xmodem.ack := hsent.replies
    rw [hpart, Xmodem.fileReplies, sentCount_longFile]
    decide
  obtain ⟨a, b, k, hmonitored⟩ := hlift.filtered
    (passing_init ((quiet_longReplies.of_prefix hanswers).passes 0))
    (passing_init ((quiet_longFile.of_prefix hpackets).passes 1))
  have hsending := (txOpened_sendingFrom reliable_reliableRead hthere (by decide)).2.1
  have hconsole := (hmonitored.map
    (sameParty_txXmodemConsole reliable_reliableRead hlen hsending.fileSize)
    sameParty_rxXmodemConsole).patient
  rw [← hstarts] at hconsole
  refine ⟨_, ⟨k, hconsole⟩, ?_, broken_copy platform32 referenceCrc reliableRead reliableFs
    alwaysOverwrite 10 10 _ _ 0 1 longSource threeBytes.files [0x66] [0x67] longFile
    reliable_reliableRead reliable_reliableFs rfl (by decide) hsize (by decide) (.inl rfl)
    quiet_longReplies quiet_longFile hconsole⟩
  exact xmodemStored_part reliable_reliableFs (.inl rfl) (sentCount_longFile ▸ (by decide : 1 ≤ 2))
    hsent.delivered

end ZephyrModem.Console
