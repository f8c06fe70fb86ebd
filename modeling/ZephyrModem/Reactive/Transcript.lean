import ZephyrModem.Reactive.Process

/-!
# Transcripts

Reads and events of a process in the order in which they happen. The transcript of
a process is the trace of the process that records its own reads.
-/

namespace ZephyrModem.Reactive

inductive Item (ι ε : Type) where
  | read (i : ι)
  | event (e : ε)
  deriving Repr, DecidableEq

def Item.event? {ι ε : Type} : Item ι ε → Option ε
  | .read _ => none
  | .event e => some e

@[simp] theorem filterMap_event {ι ε : Type} (es : List ε) :
    (es.map (Item.event (ι := ι))).filterMap Item.event? = es := by
  induction es with
  | nil => rfl
  | cons e es ih =>
    rw [List.map_cons, List.filterMap_cons, ih]
    rfl

section Transcript

variable {ι ε σ ρ : Type} (step : Resume ι ε σ ρ)

/-- The process with its reads among its events. -/
def recorded : Resume ι (Item ι ε) σ ρ := fun s i =>
  ⟨.read i :: (step s i).events.map .event, (step s i).next⟩

def transcript (n : Next σ ρ) (is : List ι) : List (Item ι ε) := (run (recorded step) n is).events

theorem run_recorded_next (n : Next σ ρ) (is : List ι) :
    (run (recorded step) n is).next = (run step n is).next := by
  induction is generalizing n with
  | nil => rw [run_nil, run_nil]
  | cons i is ih =>
    cases n with
    | done r => rw [run_done, run_done]
    | wait s =>
      rw [run_wait, run_wait, Out.after_next, Out.after_next]
      exact ih (step s i).next

@[simp] theorem transcript_nil (n : Next σ ρ) : transcript step n [] = [] := by
  rw [transcript, run_nil]

theorem transcript_wait (s : σ) (i : ι) (is : List ι) :
    transcript step (.wait s) (i :: is) =
      .read i :: ((step s i).events.map .event ++ transcript step (step s i).next is) := rfl

theorem transcript_append (n : Next σ ρ) (as bs : List ι) :
    transcript step n (as ++ bs) =
      transcript step n as ++ transcript step (run step n as).next bs := by
  simp only [transcript, run_append, Out.after_events, run_recorded_next]

theorem transcript_silent {n : Next σ ρ} {is : List ι} {s : σ} (hnext : (run step n is).next = .wait s)
    (hevents : (run step n is).events = []) : transcript step n is = is.map .read := by
  induction is generalizing n with
  | nil => rw [transcript_nil]; rfl
  | cons i is ih =>
    cases n with
    | done r =>
      rw [run_done] at hnext
      cases hnext
    | wait t =>
      rw [run_wait, Out.after_events] at hevents
      obtain ⟨hfirst, hrest⟩ := List.append_eq_nil_iff.mp hevents
      rw [transcript_wait, hfirst, ih hnext hrest]
      rfl

/-- Invariant rule relating the transcript so far to where the process stands. -/
theorem transcript_invariant (I : List (Item ι ε) → Next σ ρ → Prop)
    (hstep : ∀ tr s i, I tr (.wait s) →
      I (tr ++ .read i :: (step s i).events.map .event) (step s i).next)
    (n : Next σ ρ) (is : List ι) (tr : List (Item ι ε)) (h : I tr n) :
    I (tr ++ transcript step n is) (run step n is).next := by
  rw [← run_recorded_next]
  apply trace_invariant (recorded step) I (fun _ _ => True)
  · intro tr s i _ hs
    exact hstep tr s i hs
  · intro v _
    trivial
  · exact h

end Transcript

end ZephyrModem.Reactive
