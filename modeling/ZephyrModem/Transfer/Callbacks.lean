import Mathlib.Data.Int.Notation
import ZephyrModem.Transfer.Report

/-!
# Callbacks of the batch protocols (`modem/ymodem.h`, `modem/zmodem.h`)

The two headers declare the same file information and the same callbacks, up to
the type of a status, which is the parameter `κ`. A file name is a C string: the
bytes before its NUL.
-/

namespace ZephyrModem.Transfer

/-- `ymodem_file_info_t`, `zmodem_file_info_t`. -/
structure FileInfo where
  filename : List UInt8
  size : ℕ
  deriving Repr, DecidableEq

/-- `sizeof(info->filename)`. -/
def filenameSize : ℕ := 256

inductive Event (κ : Type) where
  | write (b : UInt8)
  | onFileStart (info : FileInfo) (res : ℤ)
  | onData (buf : List UInt8) (len offset : ℕ) (res : ℤ)
  | onFileEnd (info : FileInfo) (status : κ)
  | getFileInfo (fileIdx : ℕ)
  | readData (fileIdx offset len : ℕ) (data : List UInt8) (res : ℤ)
  deriving Repr, DecidableEq

/-- Receiver callbacks; the three file callbacks may be NULL. -/
structure RxCallbacks (κ υ : Type) where
  onFileStart : Option (FileInfo → υ → ℤ × υ)
  onData : Option (List UInt8 → ℕ → ℕ → υ → ℤ × υ)
  onFileEnd : Option (FileInfo → κ → υ → υ)

/-- Transmitter callbacks. `get_file_info` returns 0 and fills the file
information, or another value; `read_data` fills the front of the buffer and
returns how much of that is file contents, or a negative value. -/
structure TxCallbacks (υ : Type) where
  getFileInfo : ℕ → υ → ℤ × FileInfo × υ
  readData : ℕ → ℕ → ℕ → υ → ℤ × List UInt8 × υ
  readData_length : ∀ idx offset len u, (readData idx offset len u).2.1.length ≤ len
  readData_result : ∀ idx offset len u,
    (readData idx offset len u).1 ≤ (readData idx offset len u).2.1.length

section Events

variable {κ : Type}

/-- A call that moves file contents. -/
def Event.IsData : Event κ → Prop
  | .onData .. | .readData .. => True
  | _ => False

/-- The byte an event puts on the line. -/
def Event.wire : Event κ → Option UInt8
  | .write b => some b
  | _ => none

/-- `send_byte_rx`, `send_byte_tx`. -/
def sendByte (b : UInt8) : List (Event κ) := [.write b]

/-- `write_bytes(buf, len)`. -/
def writeBytes (buf : List UInt8) : List (Event κ) := buf.map .write

@[simp] theorem wire_write (b : UInt8) (es : List (Event κ)) :
    (Event.write b :: es).filterMap Event.wire = b :: es.filterMap Event.wire := rfl

@[simp] theorem wire_getFileInfo (idx : ℕ) (es : List (Event κ)) :
    (Event.getFileInfo idx :: es).filterMap Event.wire = es.filterMap Event.wire := rfl

@[simp] theorem wire_readData (idx offset len : ℕ) (data : List UInt8) (res : ℤ)
    (es : List (Event κ)) :
    (Event.readData idx offset len data res :: es).filterMap Event.wire =
      es.filterMap Event.wire := rfl

@[simp] theorem wire_sendByte (b : UInt8) :
    (sendByte b : List (Event κ)).filterMap Event.wire = [b] := rfl

@[simp] theorem wire_writeBytes (bs : List UInt8) :
    (writeBytes bs : List (Event κ)).filterMap Event.wire = bs := by
  simp [writeBytes, List.filterMap_map, Function.comp_def, Event.wire]

/-- Nothing but bytes for the line. -/
def Writes (es : List (Event κ)) : Prop := ∀ e ∈ es, ∃ b, e = .write b

theorem writes_nil : Writes ([] : List (Event κ)) := by
  intro e he
  cases he

theorem writes_sendByte (b : UInt8) : Writes (sendByte b : List (Event κ)) := by
  intro e he
  exact ⟨b, List.mem_singleton.mp he⟩

theorem writes_writeBytes (bs : List UInt8) : Writes (writeBytes bs : List (Event κ)) := by
  intro e he
  obtain ⟨b, -, rfl⟩ := List.mem_map.mp he
  exact ⟨b, rfl⟩

theorem Writes.append {as bs : List (Event κ)} (ha : Writes as) (hb : Writes bs) :
    Writes (as ++ bs) := by
  intro e he
  rcases List.mem_append.mp he with h | h
  · exact ha e h
  · exact hb e h

theorem Writes.append_eq {ws log pre post : List (Event κ)} {e : Event κ} (hws : Writes ws)
    (he : ∀ b, e ≠ .write b) (h : ws ++ log = pre ++ e :: post) :
    ∃ pre', pre = ws ++ pre' ∧ log = pre' ++ e :: post := by
  rcases List.append_eq_append_iff.mp h with ⟨a, rfl, ha⟩ | ⟨a, rfl, ha⟩
  · exact ⟨a, rfl, ha⟩
  · cases a with
    | nil => exact ⟨[], by simp, ha.symm⟩
    | cons x a =>
      obtain ⟨rfl, -⟩ := List.cons.inj ha
      obtain ⟨b, hb⟩ := hws e (List.mem_append_right pre (List.mem_cons_self ..))
      exact absurd hb (he b)

theorem onFileEnd_split {as bs as' bs' : List (Event κ)} {info info' : FileInfo} {st st' : κ}
    (ha : Writes as) (hb : Writes bs)
    (h : as ++ .onFileEnd info st :: bs = as' ++ .onFileEnd info' st' :: bs') :
    as' = as ∧ info' = info := by
  have hnot : ∀ {es : List (Event κ)}, Writes es → .onFileEnd info' st' ∉ es := by
    intro es hes hin
    obtain ⟨b, hb⟩ := hes _ hin
    cases hb
  rcases List.append_eq_append_iff.mp h with ⟨c, rfl, hc⟩ | ⟨c, rfl, hc⟩
  · cases c with
    | nil =>
      cases hc
      exact ⟨List.append_nil as, rfl⟩
    | cons x c =>
      obtain ⟨-, rfl⟩ := List.cons.inj hc
      exact absurd (by simp) (hnot hb)
  · cases c with
    | nil =>
      cases hc
      exact ⟨(List.append_nil as').symm, rfl⟩
    | cons x c =>
      obtain ⟨rfl, -⟩ := List.cons.inj hc
      exact absurd (by simp) (hnot ha)

end Events

/-! ### Receiver calls -/

section Calls

variable {κ υ : Type} (cbs : RxCallbacks κ υ)

/-- `if (callbacks->on_file_start) callbacks->on_file_start(...)`. -/
def callFileStart (info : FileInfo) (u : υ) : List (Event κ) × υ :=
  match cbs.onFileStart with
  | none => ([], u)
  | some f => ([.onFileStart info (f info u).1], (f info u).2)

/-- `if (callbacks->on_data && len > 0) callbacks->on_data(...)`. -/
def callData (buf : List UInt8) (len offset : ℕ) (u : υ) : List (Event κ) × υ :=
  match cbs.onData with
  | none => ([], u)
  | some f =>
    if len > 0 then ([.onData buf len offset (f buf len offset u).1], (f buf len offset u).2)
    else ([], u)

/-- `if (callbacks->on_file_end) callbacks->on_file_end(...)`. -/
def callFileEnd (info : FileInfo) (status : κ) (u : υ) : List (Event κ) × υ :=
  match cbs.onFileEnd with
  | none => ([], u)
  | some f => ([.onFileEnd info status], f info status u)

/-- The `user_data` after an event. -/
def Event.effect : Event κ → υ → υ
  | .onFileStart info _, u => (callFileStart cbs info u).2
  | .onData buf len offset _, u => (callData cbs buf len offset u).2
  | .onFileEnd info status, u => (callFileEnd cbs info status u).2
  | _, u => u

theorem callFileStart_events (info : FileInfo) (u : υ) :
    (callFileStart cbs info u).1 = [] ∨
      ∃ res, (callFileStart cbs info u).1 = [.onFileStart info res] := by
  unfold callFileStart
  split
  · exact .inl rfl
  · exact .inr ⟨_, rfl⟩

theorem callFileEnd_events (info : FileInfo) (status : κ) (u : υ) :
    (callFileEnd cbs info status u).1 = [] ∨
      (callFileEnd cbs info status u).1 = [.onFileEnd info status] := by
  unfold callFileEnd
  split
  · exact .inl rfl
  · exact .inr rfl

theorem mem_callFileEnd_iff (info : FileInfo) (status : κ) (u : υ) (e : Event κ) :
    e ∈ (callFileEnd cbs info status u).1 ↔ cbs.onFileEnd ≠ none ∧ e = .onFileEnd info status := by
  unfold callFileEnd
  split
  · rename_i h
    simp [h]
  · rename_i f h
    simp [h]

theorem mem_callData_iff (buf : List UInt8) (len offset : ℕ) (u : υ) (e : Event κ) :
    e ∈ (callData cbs buf len offset u).1 ↔ ∃ g, cbs.onData = some g ∧ 0 < len ∧
      e = .onData buf len offset (g buf len offset u).1 := by
  unfold callData
  split
  · rename_i h
    simp [h]
  · rename_i g h
    split
    · rename_i hlen
      simp [h, hlen]
    · rename_i hlen
      simp [hlen]

end Calls

/-! ### What the receiver reports -/

section Reports

variable {κ υ : Type} [DecidableEq κ] (ok : κ)

/-- The report of a receiver event; `ok` is the status of success. -/
def Event.call : Event κ → Option Call
  | .onFileStart info _ => some (.fileStart info.filename info.size)
  | .onData buf len offset _ => some (.data offset len (buf.take len))
  | .onFileEnd info status => some (.fileEnd info.filename info.size (status = ok))
  | _ => none

@[simp] theorem call_write (b : UInt8) (es : List (Event κ)) :
    (Event.write b :: es).filterMap (Event.call ok) = es.filterMap (Event.call ok) := rfl

@[simp] theorem call_writeBytes (bs : List UInt8) :
    (writeBytes bs : List (Event κ)).filterMap (Event.call ok) = [] := by
  simp [writeBytes, List.filterMap_map, Function.comp_def, Event.call]

def fileCallbacks (start : FileInfo → υ → ℤ × υ) (data : List UInt8 → ℕ → ℕ → υ → ℤ × υ)
    (finish : FileInfo → κ → υ → υ) : RxCallbacks κ υ :=
  ⟨some start, some data, some finish⟩

end Reports

/-! ### Serving a batch -/

def fileInfo (f : File) : FileInfo := ⟨f.name, f.contents.length⟩

/-- The transmitter's callbacks serve the files, numbered below `sizeMod`. -/
structure Serves {υ : Type} (sizeMod : ℕ) (cbs : TxCallbacks υ) (files : List File) : Prop where
  count : files.length < sizeMod
  info : ∀ i f u, files[i]? = some f →
    (cbs.getFileInfo i u).1 = 0 ∧ (cbs.getFileInfo i u).2.1 = fileInfo f
  noMore : ∀ u, ¬ ((cbs.getFileInfo files.length u).1 = 0 ∧
    (cbs.getFileInfo files.length u).2.1.filename ≠ [])
  contents : ∀ i f offset len u, files[i]? = some f → offset + len ≤ f.contents.length →
    (cbs.readData i offset len u).2.1 = (f.contents.drop offset).take len

theorem neg_one_le_length (bs : List UInt8) : (-1 : ℤ) ≤ bs.length := by omega

def batchCallbacks (files : List File) : TxCallbacks Unit where
  getFileInfo i u :=
    match files[i]? with
    | some f => (0, fileInfo f, u)
    | none => (-1, ⟨[], 0⟩, u)
  readData i offset len u :=
    match files[i]? with
    | some f =>
      (((f.contents.drop offset).take len).length, (f.contents.drop offset).take len, u)
    | none => (-1, [], u)
  readData_length := by
    intro i offset len u
    split
    · exact List.length_take_le _ _
    · exact Nat.zero_le _
  readData_result := by
    intro i offset len u
    split
    · exact Int.le_refl _
    · exact neg_one_le_length []

theorem batchCallbacks_serves {sizeMod : ℕ} {files : List File} (h : files.length < sizeMod) :
    Serves sizeMod (batchCallbacks files) files where
  count := h
  info := by
    intro i f u hf
    simp [batchCallbacks, hf]
  noMore := by
    intro u
    simp [batchCallbacks]
  contents := by
    intro i f offset len u hf _
    simp [batchCallbacks, hf]

end ZephyrModem.Transfer
