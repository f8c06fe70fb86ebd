import ZephyrModem.Transfer.Callbacks

/-!
# Complete files

What it means that a receiver reports only complete files as received well.
-/

namespace ZephyrModem.Transfer

variable {κ : Type}

/-- The bytes handed to `on_data` since the last `on_file_start`, counted by the
lengths passed. -/
def storedStep (n : ℕ) : Event κ → ℕ
  | .onFileStart .. => 0
  | .onData _ len _ _ => n + len
  | _ => n

def storedLen (log : List (Event κ)) : ℕ := log.foldl storedStep 0

theorem storedLen_append (as bs : List (Event κ)) :
    storedLen (as ++ bs) = bs.foldl storedStep (storedLen as) := List.foldl_append

theorem foldl_storedStep_writes {es : List (Event κ)} (h : Writes es) (n : ℕ) :
    es.foldl storedStep n = n := by
  induction es with
  | nil => rfl
  | cons e es ih =>
    obtain ⟨b, rfl⟩ := h e (List.mem_cons_self ..)
    exact ih fun e he => h e (List.mem_cons_of_mem _ he)

theorem storedLen_append_writes {as es : List (Event κ)} (h : Writes es) :
    storedLen (as ++ es) = storedLen as := by
  rw [storedLen_append, foldl_storedStep_writes h]

/-- Whenever `on_file_end` reports success for a file with an announced size, the
bytes of that file handed to `on_data` are as many. -/
def ReportsComplete (ok : κ) (log : List (Event κ)) : Prop :=
  ∀ pre info post, log = pre ++ .onFileEnd info ok :: post → 0 < info.size →
    storedLen pre = info.size

theorem reportsComplete_append_writes {ok : κ} {ws log : List (Event κ)} (h : Writes ws) :
    ReportsComplete ok (ws ++ log) ↔ ReportsComplete ok log := by
  have hstored : ∀ pre, storedLen (ws ++ pre) = storedLen pre := by
    intro pre
    rw [storedLen_append, ← List.nil_append ws, storedLen_append_writes h]
    rfl
  constructor
  · rintro hall pre info post rfl hpos
    rw [← hstored]
    exact hall (ws ++ pre) info post (by rw [List.append_assoc]) hpos
  · intro hall pre info post hlog hpos
    obtain ⟨pre', rfl, hlog'⟩ := h.append_eq (by simp) hlog
    rw [hstored]
    exact hall pre' info post hlog' hpos

end ZephyrModem.Transfer
