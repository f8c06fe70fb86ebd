import ZephyrModem.Reactive.Process
import ZephyrModem.Transfer.Callbacks

/-!
# Storage calls file by file

The storage calls of a receiver should come in groups, one for each file:
`on_file_start`, any number of `on_data`, `on_file_end`.
-/

namespace ZephyrModem.Transfer
open ZephyrModem.Reactive

variable {κ σ : Type}

/-- A call of one of the three storage callbacks. -/
def Event.isCall : Event κ → Bool
  | .onFileStart .. | .onData .. | .onFileEnd .. => true
  | .write _ | .getFileInfo _ | .readData .. => false

def Event.isData : Event κ → Bool
  | .onData .. => true
  | _ => false

/-- The storage calls of a log, in order. -/
def calls (log : List (Event κ)) : List (Event κ) := log.filter Event.isCall

structure DataCall where
  buf : List UInt8
  len : ℕ
  offset : ℕ
  res : ℤ

def DataCall.event (d : DataCall) : Event κ := .onData d.buf d.len d.offset d.res

structure Group (κ : Type) where
  info : FileInfo
  res : ℤ
  data : List DataCall
  status : κ

def Group.events (g : Group κ) : List (Event κ) :=
  .onFileStart g.info g.res :: g.data.map DataCall.event ++ [.onFileEnd g.info g.status]

/-- Every file that was started has been ended. -/
def Closed (log : List (Event κ)) : Prop :=
  ∃ gs : List (Group κ), calls log = gs.flatMap Group.events

/-- One more file has been started and not ended. -/
def Opened (info : FileInfo) (log : List (Event κ)) : Prop :=
  ∃ (gs : List (Group κ)) (res : ℤ) (data : List DataCall),
    calls log = gs.flatMap Group.events ++ .onFileStart info res :: data.map DataCall.event

/-- The calls come in groups, of which only the last may be open, and none once the
receiver has returned. -/
def Bracketed (log : List (Event κ)) : Next σ κ → Prop
  | .wait _ => Closed log ∨ ∃ info, Opened info log
  | .done _ => Closed log

theorem calls_append (as bs : List (Event κ)) : calls (as ++ bs) = calls as ++ calls bs :=
  List.filter_append ..

@[simp] theorem calls_nil : calls ([] : List (Event κ)) = [] := rfl

theorem Writes.calls {es : List (Event κ)} (h : Writes es) : Transfer.calls es = [] := by
  apply List.filter_eq_nil_iff.mpr
  intro e he
  obtain ⟨b, rfl⟩ := h e he
  exact Bool.false_ne_true

theorem closed_of_writes {es : List (Event κ)} (h : Writes es) : Closed es :=
  ⟨[], h.calls⟩

/-! ### What one reaction adds -/

theorem Closed.quiet {log es : List (Event κ)} (h : Closed log) (he : calls es = []) :
    Closed (log ++ es) := by
  obtain ⟨gs, hgs⟩ := h
  refine ⟨gs, ?_⟩
  rw [calls_append, he, hgs, List.append_nil]

theorem Opened.quiet {info : FileInfo} {log es : List (Event κ)} (h : Opened info log)
    (he : calls es = []) : Opened info (log ++ es) := by
  obtain ⟨gs, res, data, hgs⟩ := h
  refine ⟨gs, res, data, ?_⟩
  rw [calls_append, he, hgs, List.append_nil]

theorem Closed.start {info : FileInfo} {res : ℤ} {log es : List (Event κ)} (h : Closed log)
    (he : calls es = [.onFileStart info res]) : Opened info (log ++ es) := by
  obtain ⟨gs, hgs⟩ := h
  refine ⟨gs, res, [], ?_⟩
  rw [calls_append, he, hgs]
  rfl

theorem Opened.data {info : FileInfo} {d : DataCall} {log es : List (Event κ)}
    (h : Opened info log) (he : calls es = [d.event]) : Opened info (log ++ es) := by
  obtain ⟨gs, res, data, hgs⟩ := h
  refine ⟨gs, res, data ++ [d], ?_⟩
  rw [calls_append, he, hgs, List.map_append, List.append_assoc]
  rfl

theorem Opened.finish {info : FileInfo} {status : κ} {log es : List (Event κ)}
    (h : Opened info log) (he : calls es = [.onFileEnd info status]) : Closed (log ++ es) := by
  obtain ⟨gs, res, data, hgs⟩ := h
  refine ⟨gs ++ [⟨info, res, data, status⟩], ?_⟩
  rw [calls_append, he, hgs, List.flatMap_append, List.flatMap_singleton, List.append_assoc]
  rfl

/-! ### Closed and open logs exclude each other -/

def Event.isFileStart : Event κ → Bool
  | .onFileStart .. => true
  | _ => false

def Event.isFileEnd : Event κ → Bool
  | .onFileEnd .. => true
  | _ => false

theorem countP_data (p : Event κ → Bool) (hp : ∀ d : DataCall, p d.event = false)
    (data : List DataCall) : (data.map DataCall.event).countP p = 0 := by
  apply List.countP_eq_zero.mpr
  intro e he
  obtain ⟨d, -, rfl⟩ := List.mem_map.mp he
  simp [hp d]

theorem countP_groups (gs : List (Group κ)) :
    (gs.flatMap Group.events).countP Event.isFileStart = gs.length ∧
      (gs.flatMap Group.events).countP Event.isFileEnd = gs.length := by
  induction gs with
  | nil => exact ⟨rfl, rfl⟩
  | cons g gs ih =>
    obtain ⟨hstart, hend⟩ := ih
    have hs := countP_data (κ := κ) Event.isFileStart (fun _ => rfl) g.data
    have he := countP_data (κ := κ) Event.isFileEnd (fun _ => rfl) g.data
    simp only [List.flatMap_cons, Group.events, List.countP_append, List.countP_cons,
      List.countP_nil, hs, he, hstart, hend, List.length_cons, List.cons_append]
    simp [Event.isFileStart, Event.isFileEnd, Nat.add_comm]

theorem Opened.not_closed {info : FileInfo} {log : List (Event κ)} (h : Opened info log) :
    ¬ Closed log := by
  intro hclosed
  obtain ⟨gs, hgs⟩ := hclosed
  obtain ⟨gs', res, data, hgs'⟩ := h
  rw [hgs] at hgs'
  have hs := congrArg (List.countP Event.isFileStart) hgs'
  have he := congrArg (List.countP Event.isFileEnd) hgs'
  rw [List.countP_append, List.countP_cons, (countP_groups gs).1, (countP_groups gs').1,
    countP_data _ (fun _ => rfl)] at hs
  rw [List.countP_append, List.countP_cons, (countP_groups gs).2, (countP_groups gs').2,
    countP_data _ (fun _ => rfl)] at he
  simp [Event.isFileStart] at hs
  simp [Event.isFileEnd] at he
  omega

end ZephyrModem.Transfer
