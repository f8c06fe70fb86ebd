import ZephyrModem.Reactive.Process

/-!
# Cancelled reads

A process honours the request to stop that a read returns when it then returns
as cancelled, whatever later reads return, and does nothing more of a kind.
-/

namespace ZephyrModem.Reactive

section Cancel

variable {β ε σ ρ : Type} (step : Resume (ReadResult β) ε σ ρ) (isData : ε → Prop)
  (cancelled : ρ → Prop)

/-- A read cancelled in state `s` leads to the return as cancelled, without data. -/
def HonoursCancel (s : σ) : Prop :=
  ∀ later : ℕ → ReadResult β, ∃ k es r, cancelled r ∧ (∀ e ∈ es, ¬ isData e) ∧
    run step (.wait s) (.cancel :: (List.range k).map later) = ⟨es, .done r⟩

/-- Cancelled reads are honoured in every state that a run reaches. -/
def HonoursCancels (n : Next σ ρ) : Prop :=
  ∀ reads s, (run step n reads).next = .wait s → HonoursCancel step isData cancelled s

/-- Cancelled reads are honoured in the states of `C`, and in no others, of those
that a run reaches. -/
def HonoursExactly (n : Next σ ρ) (C : σ → Prop) : Prop :=
  ∀ reads s, (run step n reads).next = .wait s → (HonoursCancel step isData cancelled s ↔ C s)

variable {step isData cancelled}

theorem honoursCancel_of_done {s : σ} {es : List ε} {r : ρ} (hstep : step s .cancel = ⟨es, .done r⟩)
    (hr : cancelled r) (hes : ∀ e ∈ es, ¬ isData e) : HonoursCancel step isData cancelled s := by
  intro later
  refine ⟨0, es, r, hr, hes, ?_⟩
  rw [List.range_zero, List.map_nil, run_wait, run_nil, hstep]
  simp [Out.after]

theorem honoursCancel_of_next {s t : σ} {es : List ε} {r : ρ} (hstep : step s .cancel = ⟨[], .wait t⟩)
    (hnext : ∀ i, step t i = ⟨es, .done r⟩) (hr : cancelled r) (hes : ∀ e ∈ es, ¬ isData e) :
    HonoursCancel step isData cancelled s := by
  intro later
  refine ⟨1, es, r, hr, hes, ?_⟩
  rw [List.range_one, List.map_singleton, run_wait, hstep, run_wait, hnext, run_done]
  simp [Out.after]

/-- Where a process stands: in a state of `I`, or returned with a result of `D`. -/
def Stands (I : σ → Prop) (D : ρ → Prop) (n : Next σ ρ) : Prop :=
  (∀ s, n = .wait s → I s) ∧ ∀ r, n = .done r → D r

theorem run_timeouts_invariant (I : Next σ ρ → Prop)
    (hstep : ∀ s, I (.wait s) → I (step s .timeout).next) (n : Next σ ρ) (k : ℕ) (h : I n) :
    I (run step n (List.replicate k .timeout)).next := by
  induction k generalizing n with
  | zero => rwa [List.replicate_zero, run_nil]
  | succ k ih =>
    cases n with
    | done r => rwa [run_done]
    | wait s => exact ih _ (hstep s h)

/-- A cancelled read that is taken for a time-out is not honoured, where time-outs
do not lead to the return as cancelled. -/
theorem not_honoursCancel_of_timeouts (I : σ → Prop) {s : σ} (hs : I s)
    (hsame : step s .cancel = step s .timeout)
    (hnext : ∀ s t, I s → (step s .timeout).next = .wait t → I t)
    (hdone : ∀ s r, I s → (step s .timeout).next = .done r → ¬ cancelled r) :
    ¬ HonoursCancel step isData cancelled s := by
  intro h
  obtain ⟨k, es, r, hr, -, hrun⟩ := h fun _ => .timeout
  have hreads : (List.range k).map (fun _ => (ReadResult.timeout : ReadResult β)) =
      List.replicate k .timeout := by
    rw [List.map_const', List.length_range]
  rw [hreads, run_wait, hsame] at hrun
  have hstep : ∀ t, Stands I (fun r => ¬ cancelled r) (.wait t) →
      Stands I (fun r => ¬ cancelled r) (step t .timeout).next := by
    intro t ht
    exact ⟨fun t' => hnext t t' (ht.1 t rfl), fun r => hdone t r (ht.1 t rfl)⟩
  have hstart : Stands I (fun r => ¬ cancelled r) (step s .timeout).next :=
    ⟨fun t => hnext s t hs, fun r => hdone s r hs⟩
  have hend := run_timeouts_invariant _ hstep (step s .timeout).next k hstart
  exact hend.2 r (congrArg Out.next hrun) hr

end Cancel

end ZephyrModem.Reactive
