import ZephyrModem.Console.Copy

/-!
# Directories sent from the console (`src/zephyr_console_modem.c:739-769`)

`console_modem_tx_directory` sends the regular files of a directory one after another,
each in a session of its own; the other side receives as often. The results of the sessions
are not looked at: the command returns 0 whenever it could open the directory.
-/

namespace ZephyrModem.Console
open ZephyrModem.Storage ZephyrModem.Transfer ZephyrModem.Reactive ZephyrModem.Reactive.Duplex
open ZephyrModem.Ymodem (batchStream batchReplies)

/-- What `fs_readdir` fills in; an empty name ends the directory. -/
structure DirEntry where
  name : List UInt8
  isFile : Bool
  deriving Repr, DecidableEq

/-- `file_path`. -/
def filePath (dirPath name : List UInt8) : Path := pathBuffer (dirPath ++ slash :: name)

/-- The regular files among the entries that `fs_readdir` delivers until it fails. -/
def regularFiles (entries : List DirEntry) : List DirEntry :=
  (entries.takeWhile fun e => e.name ≠ []).filter DirEntry.isFile

/-- The files that `console_modem_tx_directory` sends, in order. -/
def directoryFiles (dirPath : Path) (entries : List DirEntry) : List Path :=
  (regularFiles entries).map fun e => filePath dirPath e.name

/-- `console_modem_tx_directory` with protocol 1: its result, and the files it sends. `opendir`
is the result of `fs_opendir` and the entries that can then be read. -/
def consoleModemTxDirectory (directoryTransfers : Bool) (opendir : Path → ℤ × List DirEntry) :
    Option Path → ℤ × List Path
  | none => (-1, [])
  | some dirPath =>
    if directoryTransfers = false then (-1, [])
    else if (opendir dirPath).1 ≠ 0 then (-1, [])
    else (0, directoryFiles dirPath (opendir dirPath).2)

/-- Where the two commands of a session end. -/
abbrev Ends := Out Ymodem.Event (ℕ × Ymodem.TxSite State) ℤ ×
  Out Ymodem.Event (ℕ × Ymodem.RxState State) ℤ

/-- One session after another, each up to where it cannot go on: the paths that are sent,
the receiver's files before and after, and the ends of the sessions. A session finds
whatever counts the last ones left in the monitors. -/
inductive Sessions (P : Platform) (crc : CrcService) (rd : ReadAccess UInt8 Path)
    (fs : FileSystem UInt8 Path) (settings : StorageSettings) (txInput rxInput : ConsoleInput)
    (source : Files UInt8 Path) :
    List Path → Files UInt8 Path → Files UInt8 Path → List Ends → Prop
  | nil (files : Files UInt8 Path) :
      Sessions P crc rd fs settings txInput rxInput source [] files files []
  | cons {path : Path} {paths : List Path} {files files' : Files UInt8 Path} {ends : List Ends}
      {k txCount rxCount : ℕ} {t : Duplex UInt8 Ymodem.Event (ℕ × Ymodem.TxSite State) ℤ Ymodem.Event
        (ℕ × Ymodem.RxState State) ℤ}
      (hrun : PatientRun (txConsole P crc rd txInput) (rxConsole P crc fs settings rxInput) k
        (Duplex.init (consoleModemTxYmodem rd txCount path source) (rxStart rxCount none files)) t)
      (hstuck : ∀ u,
        ¬ PatientStep (txConsole P crc rd txInput) (rxConsole P crc fs settings rxInput) t u)
      (hrest : Sessions P crc rd fs settings txInput rxInput source paths
        (storedFiles P fs settings none files t.rightLog) files' ends) :
      Sessions P crc rd fs settings txInput rxInput source (path :: paths) files files'
        ((t.left, t.right) :: ends)

variable {P : Platform} {crc : CrcService} {rd : ReadAccess UInt8 Path}
  {fs : FileSystem UInt8 Path} {settings : StorageSettings} {txInput rxInput : ConsoleInput}

theorem baseName_filePath {dirPath name : List UInt8} (hslash : slash ∉ name)
    (hfits : (dirPath ++ slash :: name).length < pathSize) :
    filePath dirPath name = dirPath ++ slash :: name ∧ baseName (filePath dirPath name) = name := by
  have hpath : filePath dirPath name = dirPath ++ slash :: name :=
    List.take_of_length_le (Nat.le_pred_of_lt hfits)
  refine ⟨hpath, ?_⟩
  have hname : ∀ b ∈ name.reverse, decide (b ≠ slash) = true := by
    intro b hb
    refine decide_eq_true fun hb' => ?_
    subst hb'
    exact hslash (List.mem_reverse.mp hb)
  rw [hpath, baseName, List.reverse_append, List.reverse_cons, List.append_assoc,
    List.takeWhile_append_of_pos hname]
  simp

/-- A regular file of a directory and its contents, as the command finds them. -/
structure Listed (P : Platform) (source : Files UInt8 Path) (dirPath : Path) (f : File) : Prop where
  there : source (dirPath ++ slash :: f.name) = some f.contents
  fits : (dirPath ++ slash :: f.name).length < pathSize
  noSlash : slash ∉ f.name
  sendable : Ymodem.Sendable P f

/-- The monitors let the session of the file pass. -/
structure Unnoticed (crc : CrcService) (txInput rxInput : ConsoleInput) (f : File) : Prop where
  replies : txInput.Quiet (batchReplies [f])
  packets : rxInput.Quiet (batchStream crc [f])

theorem Listed.transmittable {source : Files UInt8 Path} {dirPath : Path} {f : File}
    (h : Listed P source dirPath f) :
    sentFile (filePath dirPath f.name) f.contents = f ∧
      Transmittable P source (filePath dirPath f.name) f.contents := by
  obtain ⟨hpath, hbase⟩ := baseName_filePath h.noSlash h.fits
  have hsent : sentFile (filePath dirPath f.name) f.contents = f := by
    rw [sentFile, hbase]
  refine ⟨hsent, ?_, ?_, ?_⟩
  · rw [hpath]
    exact h.there
  · rw [hpath]
    exact h.fits
  · rw [hsent]
    exact h.sendable

theorem Storable.one {f : File} {batch : List File} {files : Files UInt8 Path}
    (h : Storable settings files (f :: batch)) : Storable settings files [f] := by
  refine h.imp_right fun ⟨_, hnew⟩ => ⟨List.nodup_singleton _, fun g hg => ?_⟩
  rw [List.mem_singleton.mp hg]
  exact hnew f (List.mem_cons_self ..)

section Sessions

variable (hrd : rd.Reliable) (hfs : Reliable fs) (hwidth : P.sizeBits ≤ P.ulongBits)
  {source : Files UInt8 Path} {dirPath : Path} {batch : List File}

include hrd hfs hwidth

/-- The session of one file of the directory. -/
theorem listed_copied {f : File} (h : Listed P source dirPath f)
    (hpass : Unnoticed crc txInput rxInput f) {files : Files UInt8 Path}
    (hstorable : Storable settings files [f]) (txCount rxCount : ℕ) :
    Settles (txConsole P crc rd txInput) (rxConsole P crc fs settings rxInput)
      (Duplex.init (consoleModemTxYmodem rd txCount (filePath dirPath f.name) source)
        (rxStart rxCount none files))
      fun t => t.left = ⟨[], .done 0⟩ ∧ Stored P fs settings none files [f] t := by
  obtain ⟨hsent, htransmit⟩ := h.transmittable
  have hgiven : Storable settings files [sentFile (filePath dirPath f.name) f.contents] := by
    rwa [hsent]
  have hreplies : txInput.Quiet (batchReplies [sentFile (filePath dirPath f.name) f.contents]) := by
    rw [hsent]
    exact hpass.replies
  have hpackets : rxInput.Quiet
      (batchStream crc [sentFile (filePath dirPath f.name) f.contents]) := by
    rw [hsent]
    exact hpass.packets
  have hcopied : Settles (txConsole P crc rd txInput) _ _ _ :=
    file_copied hrd hfs hwidth htransmit none hgiven hreplies hpackets txCount rxCount
  rwa [hsent] at hcopied

theorem Sessions.stored (hlisted : ∀ f ∈ batch, Listed P source dirPath f)
    (hpass : ∀ f ∈ batch, Unnoticed crc txInput rxInput f) {files files' : Files UInt8 Path}
    {ends : List Ends} (hstorable : Storable settings files batch)
    (h : Sessions P crc rd fs settings txInput rxInput source
      (batch.map fun f => filePath dirPath f.name) files files' ends) :
    files' = batch.foldl (put settings) files ∧
      ∀ e ∈ ends, e = (⟨[], .done 0⟩, ⟨[], .done 0⟩) := by
  induction batch generalizing files ends with
  | nil =>
    cases h
    exact ⟨rfl, fun e he => absurd he (List.not_mem_nil)⟩
  | cons f batch ih =>
    cases h with
    | cons hrun hstuck hrest =>
      have hf : Listed P source dirPath f := hlisted f (List.mem_cons_self ..)
      obtain ⟨hleft, hright, hstored⟩ := (listed_copied hrd hfs hwidth hf
        (hpass f (List.mem_cons_self ..)) hstorable.one _ _).2 _ _ hrun hstuck
      rw [hstored] at hrest
      obtain ⟨hfiles, hends⟩ := ih (fun g hg => hlisted g (List.mem_cons_of_mem _ hg))
        (fun g hg => hpass g (List.mem_cons_of_mem _ hg)) hstorable.tail hrest
      refine ⟨hfiles, fun e he => ?_⟩
      rcases List.mem_cons.mp he with rfl | he
      · rw [hleft, hright]
      · exact hends e he

theorem exists_sessions (hlisted : ∀ f ∈ batch, Listed P source dirPath f)
    (hpass : ∀ f ∈ batch, Unnoticed crc txInput rxInput f) {files : Files UInt8 Path}
    (hstorable : Storable settings files batch) :
    ∃ files' ends, Sessions P crc rd fs settings txInput rxInput source
      (batch.map fun f => filePath dirPath f.name) files files' ends := by
  induction batch generalizing files with
  | nil => exact ⟨files, [], .nil files⟩
  | cons f batch ih =>
    have hf : Listed P source dirPath f := hlisted f (List.mem_cons_self ..)
    have hcopied : Settles (txConsole P crc rd txInput) (rxConsole P crc fs settings rxInput) _ _ :=
      listed_copied hrd hfs hwidth hf (hpass f (List.mem_cons_self ..)) hstorable.one 0 0
    obtain ⟨⟨k, hbound⟩, hend⟩ := hcopied
    obtain ⟨j, t, hrun, hstuck⟩ := exists_stuck hbound
    obtain ⟨-, -, hstored⟩ := hend j t hrun hstuck
    have htail : Storable settings (storedFiles P fs settings none files t.rightLog) batch := by
      rw [hstored]
      exact hstorable.tail
    obtain ⟨files', ends, hrest⟩ := ih (fun g hg => hlisted g (List.mem_cons_of_mem _ hg))
      (fun g hg => hpass g (List.mem_cons_of_mem _ hg)) htail
    exact ⟨files', _, .cons hrun hstuck hrest⟩

end Sessions

/-- The regular files with their contents. -/
def listedFiles (source : Files UInt8 Path) (dirPath : Path) (entries : List DirEntry) : List File :=
  (regularFiles entries).map fun e => ⟨e.name, (source (dirPath ++ slash :: e.name)).getD []⟩

theorem directoryFiles_eq (source : Files UInt8 Path) (dirPath : Path) (entries : List DirEntry) :
    directoryFiles dirPath entries =
      (listedFiles source dirPath entries).map fun f => filePath dirPath f.name := by
  rw [directoryFiles, listedFiles, List.map_map]
  rfl

/-- A directory with a file of three bytes and a directory in it. -/
def oneFileDirectory : Files UInt8 Path :=
  fun path => if path = [0x64, slash, 0x66] then some [1, 2, 3] else none

def oneFileEntries : List DirEntry := [⟨[0x66], true⟩, ⟨[0x67], false⟩]

/-- Another abort key than the default one, which the file itself contains. -/
theorem unnoticed_threeBytes :
    Unnoticed referenceCrc ⟨false, true, 0x1B⟩ ⟨false, true, 0x1B⟩ ⟨[0x66], [1, 2, 3]⟩ := by
  refine ⟨quiet_of_forall (by decide +kernel), quiet_of_forall ?_⟩
  have hdata : Ymodem.blockPackets referenceCrc [1, 2, 3] (Ymodem.blocksFor 3) 0 1 =
      Ymodem.packet referenceCrc 1 (Ymodem.blockAt [1, 2, 3] 0) ++ [] := rfl
  have hlen : [(1 : UInt8), 2, 3].length = 3 := rfl
  simp only [batchStream, Ymodem.fileStream, List.flatMap_cons, List.flatMap_nil, hlen, hdata,
    Ymodem.packet, modemCrc16_reference]
  decide +kernel

end ZephyrModem.Console
