import ZephyrModem.Storage.FileSystem

/-!
# Files that are read

Opening a file for reading, moving in it, and reading from where it stands. Whether an
operation succeeds, and how much a read delivers, is left open.
-/

namespace ZephyrModem.Storage

variable {α π : Type}

/-- What is left of an open file. -/
def remaining (files : Files α π) (h : Handle π) : List α := ((files h.path).getD []).drop h.pos

/-- The results of the operations: 0 or an error of `fs_open` and `fs_seek`, and the number
of bytes delivered by `fs_read` or an error. -/
structure ReadAccess (α π : Type) where
  openRes : Files α π → π → ℤ
  seekRes : Files α π → Handle π → ℕ → ℤ
  readRes : Files α π → Handle π → ℕ → ℤ
  readRes_le : ∀ files h len, readRes files h len ≤ min len (remaining files h).length

variable (rd : ReadAccess α π)

/-- `fs_open` with `FS_O_READ`. -/
def fsOpenRead (files : Files α π) (path : π) : ℤ × Handle π := (rd.openRes files path, ⟨path, 0⟩)

/-- `fs_stat`: the size of a file that is there. -/
def fsStat (files : Files α π) (path : π) : Option ℕ := (files path).map List.length

/-- `fs_seek` with `FS_SEEK_SET`. -/
def fsSeek (files : Files α π) (h : Handle π) (offset : ℕ) : ℤ × Handle π :=
  if rd.seekRes files h offset = 0 then (0, { h with pos := offset })
  else (rd.seekRes files h offset, h)

def fsRead (files : Files α π) (h : Handle π) (len : ℕ) : ℤ × List α × Handle π :=
  let res := rd.readRes files h len
  if res < 0 then (res, [], h)
  else (res, (remaining files h).take res.toNat, { h with pos := h.pos + res.toNat })

/-- Files that are there can be opened, and are read up to their ends. -/
structure ReadAccess.Reliable : Prop where
  opens : ∀ files path, files path ≠ none → rd.openRes files path = 0
  seeks : ∀ files h offset, files h.path ≠ none → offset ≤ ((files h.path).getD []).length →
    rd.seekRes files h offset = 0
  reads : ∀ files h len, files h.path ≠ none →
    rd.readRes files h len = min len (remaining files h).length

variable {rd}

theorem fsRead_le (files : Files α π) (h : Handle π) (len : ℕ) :
    (fsRead rd files h len).1 ≤ (fsRead rd files h len).2.1.length := by
  have hle := rd.readRes_le files h len
  unfold fsRead
  by_cases hneg : rd.readRes files h len < 0
  · simp only [if_pos hneg, List.length_nil]
    omega
  · simp only [if_neg hneg, List.length_take]
    omega

theorem length_fsRead (files : Files α π) (h : Handle π) (len : ℕ) :
    (fsRead rd files h len).2.1.length ≤ len := by
  have hle := rd.readRes_le files h len
  unfold fsRead
  by_cases hneg : rd.readRes files h len < 0
  · simp only [if_pos hneg, List.length_nil]
    omega
  · simp only [if_neg hneg, List.length_take]
    omega

/-- The result counts the bytes. -/
theorem ReadAccess.Reliable.fsRead_eq (hrd : rd.Reliable) {files : Files α π} {h : Handle π}
    (hthere : files h.path ≠ none) (len : ℕ) :
    (fsRead rd files h len).1 = (fsRead rd files h len).2.1.length := by
  have hread := hrd.reads files h len hthere
  have hnonneg : ¬ rd.readRes files h len < 0 := by omega
  simp only [fsRead, if_neg hnonneg, List.length_take]
  omega

theorem fsSeek_path (files : Files α π) (h : Handle π) (offset : ℕ) :
    (fsSeek rd files h offset).2.path = h.path := by
  unfold fsSeek
  split <;> rfl

theorem fsRead_path (files : Files α π) (h : Handle π) (len : ℕ) :
    (fsRead rd files h len).2.2.path = h.path := by
  by_cases hneg : rd.readRes files h len < 0
  · simp only [fsRead, if_pos hneg]
  · simp only [fsRead, if_neg hneg]

/-- A read at an offset delivers the bytes from there on. -/
theorem fsRead_fsSeek (hrd : rd.Reliable) {files : Files α π} {h : Handle π} {contents : List α}
    (hfile : files h.path = some contents) {offset : ℕ} (hoffset : offset ≤ contents.length)
    (len : ℕ) : (fsRead rd files (fsSeek rd files h offset).2 len).2.1 =
      (contents.drop offset).take len := by
  have hthere : files h.path ≠ none := by
    rw [hfile]
    exact Option.some_ne_none contents
  have hcontents : (files h.path).getD [] = contents := by
    rw [hfile]
    rfl
  have hseek : rd.seekRes files h offset = 0 :=
    hrd.seeks files h offset hthere (by rwa [hcontents])
  have hpos : (fsSeek rd files h offset).2 = { h with pos := offset } := by
    rw [fsSeek, if_pos hseek]
  have hremaining : remaining files { h with pos := offset } = contents.drop offset :=
    congrArg (List.drop offset) hcontents
  have hread : rd.readRes files { h with pos := offset } len =
      min len (contents.drop offset).length := by
    rw [hrd.reads files { h with pos := offset } len hthere, hremaining]
  have hpart : (fsRead rd files { h with pos := offset } len).2.1 =
      (contents.drop offset).take (min len (contents.drop offset).length) := by
    have hnonneg : ¬ ((min len (contents.drop offset).length : ℕ) : ℤ) < 0 := by omega
    simp only [fsRead, hread, if_neg hnonneg, hremaining, Int.toNat_natCast]
  rw [hpos, hpart, List.take_eq_take_iff]
  omega

end ZephyrModem.Storage
