import ZephyrModem.CString
import ZephyrModem.Storage.FileSystem
import ZephyrModem.Ymodem.Model
import ZephyrModem.Zmodem.Model

/-!
# Received files on the console's file system (`src/zephyr_console_modem.c:323-408`)

`open_output_file` opens without truncating, so a received file replaces the one
that was there only if it is not shorter.
-/

namespace ZephyrModem.Console
open ZephyrModem.Storage ZephyrModem.Transfer

/-- `modem_overwrite_mode_t`. -/
inductive OverwriteMode where
  | always
  | skip
  | abort
  deriving Repr, DecidableEq

/-- The fields of `console_modem_settings_t` that storing a file uses. -/
structure StorageSettings where
  overwriteMode : OverwriteMode
  defaultTargetDir : List UInt8
  asyncStorage : Bool
  deriving Repr, DecidableEq

/-- `console_modem_ctx_t`, without what only the progress bar reads. -/
structure Ctx where
  zfile : Handle (List UInt8)
  zfileOpen : Bool
  fileSize : ℕ
  bytesTransferred : ℕ
  targetPath : List UInt8
  deriving Repr, DecidableEq

/-- The context of a transfer and the files on the target. -/
structure State where
  ctx : Ctx
  files : Files UInt8 (List UInt8)

/-- `sizeof(full_path)`, `sizeof(ctx.target_path)`. -/
def pathSize : ℕ := 256

/-- `sizeof(g_async_work.data)`. -/
def asyncSize : ℕ := 1024

def slash : UInt8 := 0x2F

/-- `snprintf` into an array of `pathSize` bytes. -/
def pathBuffer (s : List UInt8) : List UInt8 := s.take (pathSize - 1)

variable (P : Platform) (fs : FileSystem UInt8 (List UInt8)) (settings : StorageSettings)

/-- `full_path` of `open_output_file`. -/
def fullPath (path : List UInt8) : List UInt8 :=
  if settings.defaultTargetDir ≠ [] ∧ path.head? ≠ some slash then
    pathBuffer (settings.defaultTargetDir ++ slash :: path)
  else pathBuffer path

def openOutputFile (path : List UInt8) (s : State) : ℤ × State :=
  if fsExists s.files (fullPath settings path) ∧ settings.overwriteMode = .skip then (-2, s)
  else if fsExists s.files (fullPath settings path) ∧ settings.overwriteMode = .abort then (-3, s)
  else
    let opened := fsOpen fs s.files (fullPath settings path)
    if opened.1 = 0 then
      (0, { ctx := { s.ctx with zfile := opened.2.1, zfileOpen := true }, files := opened.2.2 })
    else (-1, { ctx := { s.ctx with zfile := opened.2.1 }, files := opened.2.2 })

/-- What one call hands to `fs_write`; `async_write_handler` has its own buffer. -/
def writtenPart (buf : List UInt8) (len : ℕ) : List UInt8 :=
  if settings.asyncStorage then buf.take (min len asyncSize) else buf.take len

def writeFileData (buf : List UInt8) (len : ℕ) (s : State) : ℤ × State :=
  if ¬ s.ctx.zfileOpen then (-1, s)
  else
    let wrote := fsWrite fs s.files s.ctx.zfile (writtenPart settings buf len)
    let ctx := { s.ctx with zfile := wrote.2.1 }
    if wrote.1 < 0 then (-1, { ctx, files := wrote.2.2 })
    else
      let bytesTransferred := P.toSize (ctx.bytesTransferred + wrote.1.toNat)
      (if wrote.1 = len then 0 else -1,
        { ctx := { ctx with bytesTransferred }, files := wrote.2.2 })

def closeFile (s : State) : State :=
  if s.ctx.zfileOpen then { s with ctx := { s.ctx with zfileOpen := false } } else s

/-! ### The receiver callbacks -/

/-- `"received_file.bin"`. -/
def receivedFile : List UInt8 :=
  [0x72, 0x65, 0x63, 0x65, 0x69, 0x76, 0x65, 0x64, 0x5F, 0x66, 0x69, 0x6C, 0x65, 0x2E, 0x62, 0x69,
    0x6E]

/-- `fname` of the two `on_file_start` callbacks. -/
def fileName (info : FileInfo) (ctx : Ctx) : List UInt8 :=
  let fname := if info.filename ≠ [] then info.filename else ctx.targetPath
  if fname = [] then receivedFile else fname

/-- The two `on_file_start` callbacks. -/
def onFileStart (info : FileInfo) (s : State) : ℤ × State :=
  let opened := openOutputFile fs settings (fileName info s.ctx) s
  if opened.1 ≠ 0 then (-1, opened.2)
  else (0, { opened.2 with ctx := { opened.2.ctx with fileSize := info.size, bytesTransferred := 0 } })

def xmodemRxDataCb (_blockNum : ℕ) (buf : List UInt8) (len : ℕ) (s : State) : ℤ × State :=
  writeFileData P fs settings buf len s

def ymodemOnFileStart (info : FileInfo) (s : State) : ℤ × State := onFileStart fs settings info s

def ymodemOnFileData (buf : List UInt8) (len _offset : ℕ) (s : State) : ℤ × State :=
  writeFileData P fs settings buf len s

def ymodemOnFileEnd (_info : FileInfo) (_status : Ymodem.Status) (s : State) : State := closeFile s

def zmodemOnFileStart (info : FileInfo) (s : State) : ℤ × State := onFileStart fs settings info s

def zmodemOnFileData (buf : List UInt8) (len _offset : ℕ) (s : State) : ℤ × State :=
  writeFileData P fs settings buf len s

def zmodemOnFileEnd (_info : FileInfo) (_status : Zmodem.Status) (s : State) : State := closeFile s

/-! ### A file that is received -/

/-- The three ways in which a file is opened; the name of an XMODEM file is the
argument of `console_modem_rx_xmodem`. -/
inductive Receive where
  | xmodem (outputFilename : List UInt8)
  | ymodem (info : FileInfo) (status : Ymodem.Status)
  | zmodem (info : FileInfo) (status : Zmodem.Status)

/-- The arguments of a data callback. -/
structure WriteCall where
  buf : List UInt8
  len : ℕ
  offset : ℕ
  deriving Repr, DecidableEq

namespace Receive

def path (ctx : Ctx) : Receive → List UInt8
  | .xmodem outputFilename => fullPath settings outputFilename
  | .ymodem info _ | .zmodem info _ => fullPath settings (fileName info ctx)

def start : Receive → State → ℤ × State
  | .xmodem outputFilename, s => openOutputFile fs settings outputFilename
    { s with ctx := { s.ctx with targetPath := pathBuffer outputFilename } }
  | .ymodem info _, s => ymodemOnFileStart fs settings info s
  | .zmodem info _, s => zmodemOnFileStart fs settings info s

def data : Receive → WriteCall → State → ℤ × State
  | .xmodem _, c, s => xmodemRxDataCb P fs settings c.offset c.buf c.len s
  | .ymodem .., c, s => ymodemOnFileData P fs settings c.buf c.len c.offset s
  | .zmodem .., c, s => zmodemOnFileData P fs settings c.buf c.len c.offset s

def finish : Receive → State → State
  | .xmodem _, s => closeFile s
  | .ymodem info status, s => ymodemOnFileEnd info status s
  | .zmodem info status, s => zmodemOnFileEnd info status s

/-- The data calls of a receive: their results and the state after them. -/
def dataCalls (r : Receive) : List WriteCall → State → List ℤ × State
  | [], s => ([], s)
  | c :: calls, s =>
    let called := r.data P fs settings c s
    let rest := r.dataCalls calls called.2
    (called.1 :: rest.1, rest.2)

/-- The file was opened and every write succeeded. -/
structure Succeeds (r : Receive) (calls : List WriteCall) (s : State) : Prop where
  opened : (r.start fs settings s).1 = 0
  written : ∀ res ∈ (r.dataCalls P fs settings calls (r.start fs settings s).2).1, res = 0

/-- The files after the file was closed. -/
def finalFiles (r : Receive) (calls : List WriteCall) (s : State) : Files UInt8 (List UInt8) :=
  (r.finish (r.dataCalls P fs settings calls (r.start fs settings s).2).2).files

end Receive

def passed (calls : List WriteCall) : List UInt8 := (calls.map fun c => c.buf.take c.len).flatten

section Results

variable {P fs settings}

/-- The context has the file at `path` open, with `written` written over `old`. -/
structure Storing (path old written : List UInt8) (s : State) : Prop where
  zfileOpen : s.ctx.zfileOpen = true
  zfilePath : s.ctx.zfile.path = path
  overwritten : Overwritten old written s.ctx.zfile s.files

theorem openOutputFile_storing {path : List UInt8} {s : State}
    (h : (openOutputFile fs settings path s).1 = 0) :
    Storing (fullPath settings path) ((s.files (fullPath settings path)).getD []) []
      (openOutputFile fs settings path s).2 := by
  unfold openOutputFile at h ⊢
  split
  · rename_i hskip
    rw [if_pos hskip] at h
    cases h
  · rename_i hskip
    rw [if_neg hskip] at h
    split
    · rename_i habort
      rw [if_pos habort] at h
      cases h
    · rename_i habort
      rw [if_neg habort] at h
      by_cases hopen : (fsOpen fs s.files (fullPath settings path)).1 = 0
      · rw [if_pos hopen]
        obtain ⟨hpath, hover⟩ := fsOpen_overwritten hopen
        exact ⟨rfl, hpath, hover⟩
      · rw [if_neg hopen] at h
        cases h

theorem onFileStart_storing {info : FileInfo} {s : State}
    (h : (onFileStart fs settings info s).1 = 0) :
    Storing (fullPath settings (fileName info s.ctx))
      ((s.files (fullPath settings (fileName info s.ctx))).getD []) []
      (onFileStart fs settings info s).2 := by
  unfold onFileStart at h ⊢
  by_cases hopen : (openOutputFile fs settings (fileName info s.ctx) s).1 = 0
  · rw [if_neg (not_not.mpr hopen)]
    obtain ⟨hzfile, hpath, hover⟩ := openOutputFile_storing hopen
    exact ⟨hzfile, hpath, hover⟩
  · rw [if_pos hopen] at h
    cases h

theorem writtenPart_eq_take {buf : List UInt8} {len : ℕ}
    (h : len ≤ (writtenPart settings buf len).length) :
    writtenPart settings buf len = buf.take len ∧ (buf.take len).length = len := by
  unfold writtenPart at h ⊢
  split
  · rename_i hasync
    rw [if_pos hasync, List.length_take] at h
    have hmin : min len asyncSize = len := by omega
    rw [hmin, List.length_take]
    exact ⟨rfl, by omega⟩
  · rename_i hasync
    rw [if_neg hasync, List.length_take] at h
    rw [List.length_take]
    exact ⟨rfl, by omega⟩

theorem writeFileData_storing {path old written buf : List UInt8} {len : ℕ} {s : State}
    (hs : Storing path old written s) (h : (writeFileData P fs settings buf len s).1 = 0) :
    Storing path old (written ++ buf.take len) (writeFileData P fs settings buf len s).2 := by
  have hzfile : ¬ ¬ s.ctx.zfileOpen = true := not_not.mpr hs.zfileOpen
  unfold writeFileData at h ⊢
  rw [if_neg hzfile] at h ⊢
  by_cases hneg : (fsWrite fs s.files s.ctx.zfile (writtenPart settings buf len)).1 < 0
  · simp only [if_pos hneg] at h
    cases h
  · simp only [if_neg hneg] at h ⊢
    have hres : (fsWrite fs s.files s.ctx.zfile (writtenPart settings buf len)).1 = len := by
      by_contra hne
      rw [if_neg hne] at h
      cases h
    have hlen : len ≤ (writtenPart settings buf len).length := by
      have hle : (fsWrite fs s.files s.ctx.zfile (writtenPart settings buf len)).1 ≤
          (writtenPart settings buf len).length := fsWrite_le
      omega
    obtain ⟨hwhole, htake⟩ := writtenPart_eq_take hlen
    rw [hwhole] at hres ⊢
    obtain ⟨hpath, hover⟩ := fsWrite_overwritten hs.overwritten (hres.trans (by rw [htake]))
    exact ⟨hs.zfileOpen, hpath.trans hs.zfilePath, hover⟩

namespace Receive

theorem start_storing {r : Receive} {s : State} (h : (r.start fs settings s).1 = 0) :
    Storing (r.path settings s.ctx) ((s.files (r.path settings s.ctx)).getD []) []
      (r.start fs settings s).2 := by
  cases r with
  | xmodem outputFilename => exact openOutputFile_storing h
  | ymodem info status => exact onFileStart_storing h
  | zmodem info status => exact onFileStart_storing h

theorem data_storing {r : Receive} {path old written : List UInt8} {c : WriteCall} {s : State}
    (hs : Storing path old written s) (h : (r.data P fs settings c s).1 = 0) :
    Storing path old (written ++ c.buf.take c.len) (r.data P fs settings c s).2 := by
  cases r with
  | xmodem _ => exact writeFileData_storing hs h
  | ymodem _ _ => exact writeFileData_storing hs h
  | zmodem _ _ => exact writeFileData_storing hs h

theorem dataCalls_storing {r : Receive} {path old written : List UInt8} {calls : List WriteCall}
    {s : State} (hs : Storing path old written s)
    (h : ∀ res ∈ (r.dataCalls P fs settings calls s).1, res = 0) :
    Storing path old (written ++ passed calls) (r.dataCalls P fs settings calls s).2 := by
  induction calls generalizing written s with
  | nil => rwa [passed, List.map_nil, List.flatten_nil, List.append_nil]
  | cons c calls ih =>
    have hc : (r.data P fs settings c s).1 = 0 := h _ (List.mem_cons_self ..)
    have hrest := ih (data_storing hs hc) fun res hres => h res (List.mem_cons_of_mem _ hres)
    rw [List.append_assoc] at hrest
    exact hrest

theorem finish_files (r : Receive) (s : State) : (r.finish s).files = s.files := by
  have hclose : (closeFile s).files = s.files := by
    unfold closeFile
    split
    · rfl
    · rfl
  cases r with
  | xmodem _ => exact hclose
  | ymodem _ _ => exact hclose
  | zmodem _ _ => exact hclose

end Receive

theorem finalFiles_eq {r : Receive} {calls : List WriteCall} {s : State}
    (h : r.Succeeds P fs settings calls s) :
    r.finalFiles P fs settings calls s (r.path settings s.ctx) = some (passed calls ++
      ((s.files (r.path settings s.ctx)).getD []).drop (passed calls).length) := by
  have hstored := Receive.dataCalls_storing (Receive.start_storing h.opened) h.written
  have hcontents := hstored.overwritten.contents
  rw [hstored.zfilePath, List.nil_append] at hcontents
  rw [Receive.finalFiles, Receive.finish_files, hcontents]

end Results

/-- A received file replaces the old one exactly when it is not shorter. -/
theorem replaces_iff (r : Receive) (calls : List WriteCall) (s : State)
    (h : r.Succeeds P fs settings calls s) :
    r.finalFiles P fs settings calls s (r.path settings s.ctx) = some (passed calls) ↔
      ((s.files (r.path settings s.ctx)).getD []).length ≤ (passed calls).length := by
  rw [finalFiles_eq h, Option.some.injEq]
  exact append_drop_eq_iff _ _

/-! ### A shorter file -/

def reliableFs : FileSystem UInt8 (List UInt8) where
  openRes _ _ := 0
  writeRes _ _ data := data.length
  writeRes_le _ _ _ := le_refl _

def threeBytes : State where
  ctx := ⟨⟨[], 0⟩, false, 0, 0, []⟩
  files := fun path => if path = [0x66] then some [1, 2, 3] else none

def alwaysOverwrite : StorageSettings := ⟨.always, [], true⟩

theorem replaces_four :
    (Receive.xmodem [0x66]).finalFiles platform32 reliableFs alwaysOverwrite
        [⟨[7, 7, 0], 2, 1⟩, ⟨[8, 8], 2, 2⟩] threeBytes [0x66] = some [7, 7, 8, 8] :=
  (replaces_iff platform32 reliableFs alwaysOverwrite (.xmodem [0x66])
    [⟨[7, 7, 0], 2, 1⟩, ⟨[8, 8], 2, 2⟩] threeBytes
    ⟨by decide +kernel, by decide +kernel⟩).mpr (by decide +kernel)

/-- A file of one byte over one of three leaves two of the old bytes. -/
theorem not_replaces_threeBytes :
    (Receive.ymodem ⟨[0x66], 1⟩ .ok).Succeeds platform32 reliableFs alwaysOverwrite
        [⟨[9], 1, 0⟩] threeBytes ∧
      (Receive.ymodem ⟨[0x66], 1⟩ .ok).finalFiles platform32 reliableFs alwaysOverwrite
        [⟨[9], 1, 0⟩] threeBytes [0x66] = some [9, 2, 3] ∧
      passed [⟨[9], 1, 0⟩] = [9] := by
  refine ⟨⟨by decide +kernel, by decide +kernel⟩, by decide +kernel, by decide +kernel⟩

end ZephyrModem.Console
