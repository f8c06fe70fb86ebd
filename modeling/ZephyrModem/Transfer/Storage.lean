import Mathlib.Data.List.Induction
import ZephyrModem.Reactive.Process
import ZephyrModem.Transfer.Callbacks

/-!
# Storage failures and what a receiver reports

The guarantee that a receiver gives for its storage callbacks, as a property of
its log and of the status it returned.
-/

namespace ZephyrModem.Transfer
open ZephyrModem.Reactive

variable {κ σ : Type}

/-- A call of `on_file_start` or `on_data` that did not return 0. -/
def Event.Failed : Event κ → Prop
  | .onFileStart _ res => res ≠ 0
  | .onData _ _ _ res => res ≠ 0
  | _ => False

def fileStep (acc : List (Event κ)) : Event κ → List (Event κ)
  | .onFileStart info res => [.onFileStart info res]
  | .onFileEnd .. => []
  | e => acc ++ [e]

/-- The part of a log that belongs to the file in progress. -/
def currentFile (log : List (Event κ)) : List (Event κ) := log.foldl fileStep []

/-- Storage failures are never reported as success: not by the status returned,
not by `on_file_end`, and not by the byte `ack` after the block. -/
structure StorageSafe (ok : κ) (ack : Option UInt8) (log : List (Event κ)) (n : Next σ κ) : Prop where
  returned : n = .done ok → ∀ e ∈ log, ¬ e.Failed
  ended : ∀ pre info post, log = pre ++ .onFileEnd info ok :: post →
    ∀ e ∈ currentFile pre, ¬ e.Failed
  acknowledged : ∀ pre buf len offset res b post,
    log = pre ++ .onData buf len offset res :: .write b :: post → some b = ack → res = 0

theorem mem_currentFile_append_writes {log ws : List (Event κ)} {e : Event κ} (hws : Writes ws)
    (hf : e.Failed) (h : e ∈ currentFile (log ++ ws)) : e ∈ currentFile log := by
  induction ws using List.reverseRecOn with
  | nil => rwa [List.append_nil] at h
  | append_singleton ws w ih =>
    obtain ⟨b, rfl⟩ := hws w (by simp)
    rw [← List.append_assoc, currentFile, List.foldl_append] at h
    rcases List.mem_append.mp h with h | h
    · exact ih (fun x hx => hws x (List.mem_append_left _ hx)) h
    · rw [List.mem_singleton.mp h] at hf
      exact absurd hf id

theorem mem_currentFile_append_of_mem {log ws : List (Event κ)} {e : Event κ} (hws : Writes ws)
    (h : e ∈ currentFile log) : e ∈ currentFile (log ++ ws) := by
  induction ws using List.reverseRecOn with
  | nil => rwa [List.append_nil]
  | append_singleton ws w ih =>
    obtain ⟨b, rfl⟩ := hws w (by simp)
    rw [← List.append_assoc, currentFile, List.foldl_append]
    exact List.mem_append_left _ (ih fun x hx => hws x (List.mem_append_left _ hx))

end ZephyrModem.Transfer
