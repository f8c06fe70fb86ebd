import Mathlib.Data.Int.Notation
import Mathlib.Data.List.Basic
import Mathlib.Logic.Function.Basic

/-!
# Files written in place

A file system with open files that carry a position. Opening does not truncate;
writing overwrites from the position on and extends the file at its end. Whether
an operation succeeds, and how much of a buffer a write takes, is left open.
-/

namespace ZephyrModem.Storage

variable {α π : Type}

/-- The contents after `data` has been written at `pos`. -/
def overwrite (contents : List α) (pos : ℕ) (data : List α) : List α :=
  contents.take pos ++ data ++ contents.drop (pos + data.length)

theorem overwrite_append (written old data : List α) :
    overwrite (written ++ old.drop written.length) written.length data =
      (written ++ data) ++ old.drop (written ++ data).length := by
  have hdrop : (written ++ old.drop written.length).drop (written.length + data.length) =
      old.drop (written ++ data).length := by
    rw [List.drop_length_add_append, List.drop_drop, List.length_append]
  rw [overwrite, List.take_left, hdrop]

/-- What was there shows behind the data unless the data is as long. -/
theorem append_drop_eq_iff (data old : List α) :
    data ++ old.drop data.length = data ↔ old.length ≤ data.length := by
  constructor
  · intro h
    have hlen := congrArg List.length h
    rw [List.length_append, List.length_drop] at hlen
    omega
  · intro h
    rw [List.drop_of_length_le h, List.append_nil]

structure Handle (π : Type) where
  path : π
  pos : ℕ
  deriving Repr, DecidableEq

abbrev Files (α π : Type) := π → Option (List α)

/-- The results of the operations: 0 or an error of `fs_open`, and the number of
bytes taken by `fs_write` or an error. -/
structure FileSystem (α π : Type) where
  openRes : Files α π → π → ℤ
  writeRes : Files α π → Handle π → List α → ℤ
  writeRes_le : ∀ files h data, writeRes files h data ≤ data.length

variable [DecidableEq π] (fs : FileSystem α π)

/-- `fs_open` with `FS_O_CREATE | FS_O_WRITE`. -/
def fsOpen (files : Files α π) (path : π) : ℤ × Handle π × Files α π :=
  if fs.openRes files path = 0 then
    (0, ⟨path, 0⟩, Function.update files path (some ((files path).getD [])))
  else (fs.openRes files path, ⟨path, 0⟩, files)

def fsWrite (files : Files α π) (h : Handle π) (data : List α) : ℤ × Handle π × Files α π :=
  let res := fs.writeRes files h data
  if res < 0 then (res, h, files)
  else
    let taken := data.take res.toNat
    (res, { h with pos := h.pos + taken.length },
      Function.update files h.path (some (overwrite ((files h.path).getD []) h.pos taken)))

/-- `fs_stat` returns 0. -/
def fsExists (files : Files α π) (path : π) : Prop := files path ≠ none

instance (files : Files α π) (path : π) : Decidable (fsExists files path) :=
  decidable_of_iff ((files path).isSome = true) Option.isSome_iff_ne_none

/-- A file that was opened over the contents `old`, after `written` has been written. -/
structure Overwritten (old written : List α) (h : Handle π) (files : Files α π) : Prop where
  pos : h.pos = written.length
  contents : files h.path = some (written ++ old.drop written.length)

variable {fs}

theorem fsOpen_overwritten {files : Files α π} {path : π} (h : (fsOpen fs files path).1 = 0) :
    (fsOpen fs files path).2.1.path = path ∧
      Overwritten ((files path).getD []) [] (fsOpen fs files path).2.1 (fsOpen fs files path).2.2 := by
  unfold fsOpen at h ⊢
  split
  · refine ⟨rfl, rfl, ?_⟩
    show Function.update files path _ path = _
    rw [Function.update_self]
    rfl
  · rename_i hne
    rw [if_neg hne] at h
    exact absurd h hne

theorem fsWrite_le {data : List α} {h : Handle π} {files : Files α π} :
    (fsWrite fs files h data).1 ≤ data.length := by
  have hle := fs.writeRes_le files h data
  by_cases hneg : fs.writeRes files h data < 0
  · simpa only [fsWrite, if_pos hneg] using hle
  · simpa only [fsWrite, if_neg hneg] using hle

theorem fsWrite_full {data : List α} {h : Handle π} {files : Files α π}
    (hres : (fsWrite fs files h data).1 = data.length) :
    fsWrite fs files h data = ((data.length : ℤ), { h with pos := h.pos + data.length },
      Function.update files h.path (some (overwrite ((files h.path).getD []) h.pos data))) := by
  by_cases hneg : fs.writeRes files h data < 0
  · simp only [fsWrite, if_pos hneg] at hres
    omega
  · simp only [fsWrite, if_neg hneg] at hres ⊢
    rw [hres, Int.toNat_natCast, List.take_length]

theorem fsWrite_overwritten {old written data : List α} {h : Handle π} {files : Files α π}
    (hfile : Overwritten old written h files) (hres : (fsWrite fs files h data).1 = data.length) :
    (fsWrite fs files h data).2.1.path = h.path ∧
      Overwritten old (written ++ data) (fsWrite fs files h data).2.1 (fsWrite fs files h data).2.2 := by
  rw [fsWrite_full hres]
  refine ⟨rfl, ?_, ?_⟩
  · show h.pos + data.length = _
    rw [hfile.pos, List.length_append]
  · show Function.update files h.path _ h.path = _
    rw [Function.update_self, hfile.contents, hfile.pos, Option.getD_some, overwrite_append]

end ZephyrModem.Storage
