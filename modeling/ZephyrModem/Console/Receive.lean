import ZephyrModem.Console.Storage
import ZephyrModem.Xmodem.Model
import ZephyrModem.Ymodem.Frames
import ZephyrModem.Zmodem.Model

/-!
# Receive sessions of the console (`src/zephyr_console_modem.c:571-653`)

The three receivers with the console's storage callbacks. A session changes only files
whose names it was given or the other side announced, and with an overwrite mode other
than ALWAYS no file that was there before.
-/

namespace ZephyrModem.Console
open ZephyrModem.Storage ZephyrModem.Transfer ZephyrModem.Reactive

abbrev Path := List UInt8

variable (P : Platform) (crc : CrcService) (stale : List UInt8 → List UInt8)
  (fs : FileSystem UInt8 Path) (settings : StorageSettings) (maxRetries : UInt8)

/-! ### Callbacks -/

def xmodemRxCallbacks : Xmodem.RxCallbacks State where
  dataCb n buf := xmodemRxDataCb P fs settings n.toNat buf buf.length

def ymodemRxCallbacks : Ymodem.RxCallbacks State :=
  fileCallbacks (ymodemOnFileStart fs settings) (ymodemOnFileData P fs settings) ymodemOnFileEnd

def zmodemRxCallbacks : Zmodem.RxCallbacks State :=
  fileCallbacks (zmodemOnFileStart fs settings) (zmodemOnFileData P fs settings) zmodemOnFileEnd

/-! ### Commands -/

/-- The context `{0}`, with `target_path` set to the name given, if one is. -/
def initialCtx (filename : Option Path) : Ctx :=
  ⟨⟨[], 0⟩, false, 0, 0, pathBuffer (filename.getD [])⟩

/-- What a command has come to: its result once it has returned, the names of the files it
wanted to open, and the state it left. -/
structure Progress where
  result : Option ℤ
  names : List Path
  state : State

/-- `(status == OK) ? 0 : -1`. -/
def resultCode {κ : Type} [DecidableEq κ] (ok status : κ) : ℤ := if status = ok then 0 else -1

theorem resultCode_eq_zero {κ : Type} [DecidableEq κ] {ok status : κ} :
    resultCode ok status = 0 ↔ status = ok := by
  unfold resultCode
  split
  · rename_i hok
    exact ⟨fun _ => hok, fun _ => rfl⟩
  · rename_i hok
    refine ⟨fun h => ?_, fun h => absurd h hok⟩
    cases h

def resultOf {σ ρ : Type} (code : ρ → ℤ) : Next σ ρ → Option ℤ
  | .wait _ => none
  | .done r => some (code r)

/-- The names for which `on_file_start` opens a file. -/
def openedNames {κ : Type} (ctx : Ctx) (log : List (Transfer.Event κ)) : List Path :=
  log.filterMap fun
    | .onFileStart info _ => some (fileName info ctx)
    | _ => none

def xmodemConfig : Xmodem.Config := { Xmodem.configInit with maxRetries := maxRetries }

/-- `xmodem_receive` from the open file on. -/
def xmodemReceived (s : State) (reads : List Xmodem.Read) : Xmodem.RxOut State :=
  let start := Xmodem.xmodemReceive (xmodemConfig maxRetries) s
  (run (Xmodem.receiveStep P crc (xmodemRxCallbacks P fs settings) (xmodemConfig maxRetries))
    start.next reads).after start.events

def consoleModemRxXmodem (outputFilename : Path) (files : Files UInt8 Path)
    (reads : List Xmodem.Read) : Progress :=
  let opened := openOutputFile fs settings outputFilename ⟨initialCtx (some outputFilename), files⟩
  if opened.1 ≠ 0 then ⟨some (-1), [outputFilename], opened.2⟩
  else
    let out := xmodemReceived P crc fs settings maxRetries opened.2 reads
    let s := replay (Xmodem.Event.effect (xmodemRxCallbacks P fs settings)) out.events opened.2
    match out.next with
    | .done r => ⟨some (resultCode .ok r.status), [outputFilename], closeFile s⟩
    | .wait _ => ⟨none, [outputFilename], s⟩

def consoleModemRxYmodem (outputFilename : Option Path) (files : Files UInt8 Path)
    (reads : List Xmodem.Read) : Progress :=
  let s : State := ⟨initialCtx outputFilename, files⟩
  let out := Ymodem.received P crc (ymodemRxCallbacks P fs settings) s reads
  { result := resultOf (resultCode .ok) out.next
    names := openedNames s.ctx out.events
    state := replay (Event.effect (ymodemRxCallbacks P fs settings)) out.events s }

def consoleModemRxZmodem (outputFilename : Option Path) (files : Files UInt8 Path)
    (reads : List Xmodem.Read) : Progress :=
  let s : State := ⟨initialCtx outputFilename, files⟩
  let out := Zmodem.received P crc stale (zmodemRxCallbacks P fs settings) s reads
  { result := resultOf (resultCode .ok) out.next
    names := openedNames s.ctx out.events
    state := replay (Event.effect (zmodemRxCallbacks P fs settings)) out.events s }

/-- A call of one of the three functions. -/
inductive RxCommand where
  | xmodem (outputFilename : Path)
  | ymodem (outputFilename : Option Path)
  | zmodem (outputFilename : Option Path)
  deriving Repr, DecidableEq

def RxCommand.progress (files : Files UInt8 Path) (reads : List Xmodem.Read) : RxCommand → Progress
  | .xmodem name => consoleModemRxXmodem P crc fs settings maxRetries name files reads
  | .ymodem name => consoleModemRxYmodem P crc fs settings name files reads
  | .zmodem name => consoleModemRxZmodem P crc stale fs settings name files reads

/-! ### What a command leaves alone -/

/-- The files of `Q` are as they were, and none of them is being written. -/
structure Spares (Q : Path → Prop) (files : Files UInt8 Path) (target : Path) (s : State) :
    Prop where
  kept : ∀ p, Q p → s.files p = files p
  closed : s.ctx.zfileOpen = true → ¬ Q s.ctx.zfile.path
  target : s.ctx.targetPath = target

variable {P crc stale fs settings maxRetries} {Q : Path → Prop} {files : Files UInt8 Path}
  {target : Path}

theorem Spares.closeFile {s : State} (h : Spares Q files target s) :
    Spares Q files target (closeFile s) := by
  unfold Console.closeFile
  split
  · refine ⟨h.kept, ?_, h.target⟩
    intro hopen
    cases hopen
  · exact h

theorem fsWrite_other {hd : Handle Path} {data : List UInt8} {p : Path} (hp : p ≠ hd.path) :
    (fsWrite fs files hd data).2.2 p = files p := by
  unfold fsWrite
  simp only
  split
  · rfl
  · exact Function.update_of_ne hp _ _

theorem fsWrite_path (files : Files UInt8 Path) (hd : Handle Path) (data : List UInt8) :
    (fsWrite fs files hd data).2.1.path = hd.path := by
  unfold fsWrite
  simp only
  split <;> rfl

theorem fsOpen_other {path p : Path} (hp : p ≠ path) : (fsOpen fs files path).2.2 p = files p := by
  unfold fsOpen
  split
  · exact Function.update_of_ne hp _ _
  · rfl

theorem fsOpen_path (files : Files UInt8 Path) (path : Path) :
    (fsOpen fs files path).2.1.path = path := by
  unfold fsOpen
  split <;> rfl

theorem Spares.writeFileData {buf : List UInt8} {len : ℕ} {s : State}
    (h : Spares Q files target s) :
    Spares Q files target (writeFileData P fs settings buf len s).2 := by
  unfold Console.writeFileData
  by_cases hopen : s.ctx.zfileOpen = true
  · have hpath : ¬ Q s.ctx.zfile.path := h.closed hopen
    have hfiles : ∀ p, Q p →
        (fsWrite fs s.files s.ctx.zfile (writtenPart settings buf len)).2.2 p = files p := by
      intro p hp
      have hne : p ≠ s.ctx.zfile.path := fun he => hpath (he ▸ hp)
      rw [fsWrite_other hne, h.kept p hp]
    have hzfile :
        ¬ Q (fsWrite fs s.files s.ctx.zfile (writtenPart settings buf len)).2.1.path := by
      rwa [fsWrite_path]
    rw [if_neg (not_not.mpr hopen)]
    simp only
    split
    · exact ⟨hfiles, fun _ => hzfile, h.target⟩
    · exact ⟨hfiles, fun _ => hzfile, h.target⟩
  · rw [if_pos hopen]
    exact h

/-- The tests of the overwrite mode pass for no file that `Q` protects. -/
theorem Spares.not_protected {path : Path} {s : State} (h : Spares Q files target s)
    (hopen : ¬ Q path ∨ settings.overwriteMode ≠ .always ∧ ∀ p, Q p → files p ≠ none)
    (hskip : ¬ (fsExists s.files path ∧ settings.overwriteMode = .skip))
    (habort : ¬ (fsExists s.files path ∧ settings.overwriteMode = .abort)) : ¬ Q path := by
  rcases hopen with hopen | ⟨hmode, hthere⟩
  · exact hopen
  · intro hq
    have hexists : fsExists s.files path := by
      rw [fsExists, h.kept path hq]
      exact hthere path hq
    cases hm : settings.overwriteMode with
    | always => exact hmode hm
    | skip => exact hskip ⟨hexists, hm⟩
    | abort => exact habort ⟨hexists, hm⟩

/-- Opening a file spares `Q` if the file is none of `Q`, or if `Q` are files that were
there and the overwrite mode protects them. -/
theorem Spares.openOutputFile {path : Path} {s : State} (h : Spares Q files target s)
    (hopen : ¬ Q (fullPath settings path) ∨
      settings.overwriteMode ≠ .always ∧ ∀ p, Q p → files p ≠ none) :
    Spares Q files target (openOutputFile fs settings path s).2 := by
  unfold Console.openOutputFile
  split
  · exact h
  · rename_i hskip
    split
    · exact h
    · rename_i habort
      have hother : ¬ Q (fullPath settings path) := h.not_protected hopen hskip habort
      have hfiles : ∀ p, Q p →
          (fsOpen fs s.files (fullPath settings path)).2.2 p = files p := by
        intro p hp
        have hne : p ≠ fullPath settings path := fun he => hother (he ▸ hp)
        rw [fsOpen_other hne, h.kept p hp]
      have hzfile : ¬ Q (fsOpen fs s.files (fullPath settings path)).2.1.path := by
        rwa [fsOpen_path]
      by_cases hres : (fsOpen fs s.files (fullPath settings path)).1 = 0
      · simp only [if_pos hres]
        exact ⟨hfiles, fun _ => hzfile, h.target⟩
      · simp only [if_neg hres]
        exact ⟨hfiles, fun _ => hzfile, h.target⟩

theorem Spares.onFileStart {info : FileInfo} {s : State} (h : Spares Q files target s)
    (hopen : ¬ Q (fullPath settings (fileName info s.ctx)) ∨
      settings.overwriteMode ≠ .always ∧ ∀ p, Q p → files p ≠ none) :
    Spares Q files target (onFileStart fs settings info s).2 := by
  have hs : Spares Q files target
      (Console.openOutputFile fs settings (fileName info s.ctx) s).2 := h.openOutputFile hopen
  unfold Console.onFileStart
  by_cases hres : (Console.openOutputFile fs settings (fileName info s.ctx) s).1 = 0
  · rw [if_neg (not_not.mpr hres)]
    exact ⟨hs.kept, hs.closed, hs.target⟩
  · rw [if_pos hres]
    exact hs

theorem fileName_congr (info : FileInfo) {c d : Ctx} (h : c.targetPath = d.targetPath) :
    fileName info c = fileName info d := by
  rw [fileName, fileName, h]

theorem Spares.replay_batch {κ : Type} {log : List (Transfer.Event κ)} {s : State}
    (h : Spares Q files s.ctx.targetPath s)
    (hopen : (∀ name ∈ openedNames s.ctx log, ¬ Q (fullPath settings name)) ∨
      settings.overwriteMode ≠ .always ∧ ∀ p, Q p → files p ≠ none) :
    Spares Q files s.ctx.targetPath (replay (Event.effect
      (fileCallbacks (Console.onFileStart fs settings)
        (fun buf len _ => Console.writeFileData P fs settings buf len) fun _ _ => Console.closeFile))
      log s) := by
  refine replay_invariant ?_ h
  intro e he t ht
  cases e with
  | onFileStart info res =>
    refine ht.onFileStart (hopen.imp_left fun hnames => hnames _ ?_)
    rw [fileName_congr info ht.target]
    exact List.mem_filterMap.mpr ⟨_, he, rfl⟩
  | onData buf len offset res =>
    by_cases hlen : len > 0
    · simp only [Event.effect, callData, fileCallbacks, if_pos hlen]
      exact ht.writeFileData
    · simp only [Event.effect, callData, fileCallbacks, if_neg hlen]
      exact ht
  | onFileEnd info status => exact ht.closeFile
  | write b => exact ht
  | getFileInfo idx => exact ht
  | readData idx offset len data res => exact ht

theorem Spares.replay_xmodem {s : State} (h : Spares Q files target s) (log : List Xmodem.Event) :
    Spares Q files target
      (replay (Xmodem.Event.effect (xmodemRxCallbacks P fs settings)) log s) := by
  refine replay_invariant ?_ h
  intro e _ t ht
  cases e with
  | write b => exact ht
  | dataCb n buf res => exact ht.writeFileData

/-- What a command changes are files that it was told of, and in a mode other than ALWAYS
they are new. -/
theorem RxCommand.spares (c : RxCommand) (reads : List Xmodem.Read)
    (hopen : (∀ name ∈ (c.progress P crc stale fs settings maxRetries files reads).names,
        ¬ Q (fullPath settings name)) ∨
      settings.overwriteMode ≠ .always ∧ ∀ p, Q p → files p ≠ none) (p : Path) (hp : Q p) :
    (c.progress P crc stale fs settings maxRetries files reads).state.files p = files p := by
  have hinit : ∀ name, Spares Q files (initialCtx name).targetPath ⟨initialCtx name, files⟩ := by
    intro name
    refine ⟨fun _ _ => rfl, ?_, rfl⟩
    intro hclosed
    cases hclosed
  cases c with
  | ymodem name =>
    exact (Spares.replay_batch (hinit name) hopen).kept p hp
  | zmodem name =>
    exact (Spares.replay_batch (hinit name) hopen).kept p hp
  | xmodem name =>
    simp only [RxCommand.progress, consoleModemRxXmodem] at hopen ⊢
    have hopened : Spares Q files (initialCtx (some name)).targetPath
        (openOutputFile fs settings name ⟨initialCtx (some name), files⟩).2 := by
      refine (hinit (some name)).openOutputFile (hopen.imp_left fun hnames => hnames name ?_)
      split
      · exact List.mem_singleton.mpr rfl
      · split <;> exact List.mem_singleton.mpr rfl
    split
    · exact hopened.kept p hp
    · split
      · exact (hopened.replay_xmodem _).closeFile.kept p hp
      · exact (hopened.replay_xmodem _).kept p hp

end ZephyrModem.Console
