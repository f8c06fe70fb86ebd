import ZephyrModem.Console.Receive
import ZephyrModem.Storage.Reading

/-!
# Transmit commands of the console (`src/zephyr_console_modem.c:355-419` and `655-769`)

A file is opened for reading, its size goes into the context, and the callbacks of the
transmitters read from it. Nothing that a transmit command does changes a file.
-/

namespace ZephyrModem.Console
open ZephyrModem.Storage ZephyrModem.Transfer

variable (P : Platform) (rd : ReadAccess UInt8 Path)

def openInputFile (path : Path) (s : State) : ℤ × State :=
  let opened := fsOpenRead rd s.files path
  if opened.1 = 0 then
    (0, { s with ctx := { s.ctx with
      zfile := opened.2, zfileOpen := true
      fileSize := (fsStat s.files path).getD s.ctx.fileSize } })
  else (-1, { s with ctx := { s.ctx with zfile := opened.2 } })

/-- The result, the bytes put into the buffer, and the state. -/
def readFileData (offset len : ℕ) (s : State) : ℤ × List UInt8 × State :=
  if ¬ s.ctx.zfileOpen then (-1, [], s)
  else
    let got := fsRead rd s.files (fsSeek rd s.files s.ctx.zfile offset).2 len
    (if got.1 ≥ 0 then got.1 else -1, got.2.1, { s with ctx := { s.ctx with zfile := got.2.2 } })

/-! ### The transmitter callbacks -/

/-- What follows the last slash: `strrchr(path, '/') + 1`, or the whole path. -/
def baseName (path : Path) : List UInt8 := (path.reverse.takeWhile (· ≠ slash)).reverse

/-- The two callbacks that fill in the file information. -/
def getFileInfo (fileIdx : ℕ) (s : State) : ℤ × FileInfo × State :=
  if fileIdx > 0 then (-1, ⟨[], 0⟩, s)
  else (0, ⟨(baseName s.ctx.targetPath).take (filenameSize - 1), s.ctx.fileSize⟩, s)

theorem getFileInfo_state (fileIdx : ℕ) (s : State) : (getFileInfo fileIdx s).2.2 = s := by
  unfold getFileInfo
  split <;> rfl

theorem length_readFileData (offset len : ℕ) (s : State) :
    (readFileData rd offset len s).2.1.length ≤ len := by
  unfold readFileData
  split
  · exact Nat.zero_le len
  · exact length_fsRead _ _ len

theorem readFileData_le (offset len : ℕ) (s : State) :
    (readFileData rd offset len s).1 ≤ (readFileData rd offset len s).2.1.length := by
  unfold readFileData
  by_cases hopen : s.ctx.zfileOpen = true
  · rw [if_neg (not_not.mpr hopen)]
    have hle : (fsRead rd s.files (fsSeek rd s.files s.ctx.zfile offset).2 len).1 ≤
        (fsRead rd s.files (fsSeek rd s.files s.ctx.zfile offset).2 len).2.1.length :=
      fsRead_le s.files _ len
    simp only
    split <;> omega
  · rw [if_pos hopen]
    exact neg_one_le_length []

/-- `ymodem_tx_get_file_info` and `ymodem_tx_read_file_data`. -/
def ymodemTxCallbacks : TxCallbacks State where
  getFileInfo := getFileInfo
  readData _ offset len := readFileData rd offset len
  readData_length _ := length_readFileData rd
  readData_result _ := readFileData_le rd

/-- `xmodem_tx_data_cb`: the buffer keeps what the file does not fill. -/
def xmodemTxDataCb (_blockNum : UInt8) (buf : List UInt8) (s : State) : ℤ × List UInt8 × State :=
  let got := readFileData rd s.ctx.bytesTransferred buf.length s
  let s' := if got.1 > 0 then
      { got.2.2 with ctx := { got.2.2.ctx with
        bytesTransferred := P.toSize (got.2.2.ctx.bytesTransferred + got.1.toNat) } }
    else got.2.2
  (if got.1 ≥ 0 then 0 else -1, got.2.1 ++ buf.drop got.2.1.length, s')

def xmodemTxCallbacks : Xmodem.TxCallbacks State where
  dataCb := xmodemTxDataCb P rd
  dataCb_length n buf s := by
    have hle := length_readFileData rd s.ctx.bytesTransferred buf.length s
    simp only [xmodemTxDataCb, List.length_append, List.length_drop]
    omega

/-! ### An open input file -/

/-- The file of the context is open for reading. -/
structure Sending (path contents : List UInt8) (s : State) : Prop where
  zfileOpen : s.ctx.zfileOpen = true
  zfilePath : s.ctx.zfile.path = path
  file : s.files path = some contents
  fileSize : s.ctx.fileSize = contents.length
  target : s.ctx.targetPath = path

variable {rd} {path contents : List UInt8} {s : State}

theorem openInputFile_sending (hrd : rd.Reliable) (hfile : s.files path = some contents)
    (htarget : s.ctx.targetPath = path) : (openInputFile rd path s).1 = 0 ∧
      Sending path contents (openInputFile rd path s).2 := by
  have hopen : (fsOpenRead rd s.files path).1 = 0 := by
    refine hrd.opens s.files path ?_
    rw [hfile]
    exact Option.some_ne_none contents
  have hsize : (fsStat s.files path).getD s.ctx.fileSize = contents.length := by
    rw [fsStat, hfile]
    rfl
  simp only [openInputFile, if_pos hopen]
  exact ⟨trivial, rfl, rfl, hfile, hsize, htarget⟩

theorem Sending.readFileData (h : Sending path contents s) (offset len : ℕ) :
    Sending path contents (readFileData rd offset len s).2.2 := by
  unfold Console.readFileData
  rw [if_neg (not_not.mpr h.zfileOpen)]
  refine ⟨h.zfileOpen, ?_, h.file, h.fileSize, h.target⟩
  show (fsRead rd s.files (fsSeek rd s.files s.ctx.zfile offset).2 len).2.2.path = path
  rw [fsRead_path, fsSeek_path, h.zfilePath]

theorem Sending.readFileData_bytes (hrd : rd.Reliable) (h : Sending path contents s) {offset : ℕ}
    (hoffset : offset ≤ contents.length) (len : ℕ) :
    (Console.readFileData rd offset len s).2.1 = (contents.drop offset).take len := by
  unfold Console.readFileData
  rw [if_neg (not_not.mpr h.zfileOpen)]
  refine fsRead_fsSeek hrd ?_ hoffset len
  rw [h.zfilePath, h.file]

/-! ### A file system that delivers -/

def reliableRead : ReadAccess UInt8 Path where
  openRes files path := if files path = none then -2 else 0
  seekRes _ _ _ := 0
  readRes files h len := (min len (remaining files h).length : ℕ)
  readRes_le _ _ _ := le_refl _

theorem reliable_reliableRead : reliableRead.Reliable where
  opens _ _ hthere := if_neg hthere
  seeks _ _ _ _ _ := rfl
  reads _ _ _ _ := rfl

end ZephyrModem.Console
