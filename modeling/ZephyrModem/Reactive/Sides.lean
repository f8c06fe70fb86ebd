import ZephyrModem.Reactive.Duplex

/-!
# Each side of a joined system

Whatever the interleaving, each of the two processes performs a run of its own, on the
results of its reads.
-/

namespace ZephyrModem.Reactive.Duplex

variable {β ε₁ σ₁ ρ₁ ε₂ σ₂ ρ₂ : Type} {P : Party β ε₁ σ₁ ρ₁} {Q : Party β ε₂ σ₂ ρ₂}
  {s t : Duplex β ε₁ σ₁ ρ₁ ε₂ σ₂ ρ₂}

/-- What the left side has performed and has still to perform. -/
def leftSide (s : Duplex β ε₁ σ₁ ρ₁ ε₂ σ₂ ρ₂) : Out ε₁ σ₁ ρ₁ := s.left.after s.leftLog

def rightSide (s : Duplex β ε₁ σ₁ ρ₁ ε₂ σ₂ ρ₂) : Out ε₂ σ₂ ρ₂ := s.right.after s.rightLog

theorem move_leftSide {m : Move} (h : move P Q m s = some t) : t.leftSide = s.leftSide ∨
    ∃ x r, s.leftSide.next = .wait x ∧ t.leftSide = (P.resume x r).after s.leftSide.events := by
  cases m with
  | emitLeft =>
    obtain ⟨e, es, n, hl, rfl⟩ := move_emitLeft.mp h
    refine .inl ?_
    simp [leftSide, hl, Out.after]
  | emitRight =>
    obtain ⟨e, es, n, -, rfl⟩ := move_emitRight.mp h
    exact .inl rfl
  | readLeft =>
    obtain ⟨x, b, q, hl, -, rfl⟩ := move_readLeft.mp h
    refine .inr ⟨x, .ok b, ?_, ?_⟩
    · simp [leftSide, hl]
    · simp [leftSide, hl]
  | readRight =>
    obtain ⟨x, b, q, -, -, rfl⟩ := move_readRight.mp h
    exact .inl rfl
  | failLeft =>
    obtain ⟨x, hl, -, rfl⟩ := move_failLeft.mp h
    refine .inr ⟨x, .timeout, ?_, ?_⟩
    · simp [leftSide, hl]
    · simp [leftSide, hl]
  | failRight =>
    obtain ⟨x, -, -, rfl⟩ := move_failRight.mp h
    exact .inl rfl

/-- The log of the left side is that of a run of its process. -/
theorem LiveRun.leftSide {k : ℕ} (h : LiveRun P Q k s t) : ∃ reads,
    t.leftSide = (run P.resume s.leftSide.next reads).after s.leftSide.events := by
  induction h with
  | refl s =>
    refine ⟨[], ?_⟩
    rw [run_nil]
    simp [Out.after]
  | @step k m s v t _ hs _ ih =>
    obtain ⟨reads, hrest⟩ := ih
    rcases move_leftSide hs with hsame | ⟨x, r, hx, hv⟩
    · exact ⟨reads, by rw [hrest, hsame]⟩
    · refine ⟨r :: reads, ?_⟩
      rw [hrest, hv, hx, run_wait, Out.after_after, Out.after_next, Out.after_events]

theorem Reaches.leftSide (h : Reaches P Q s t) : ∃ reads,
    t.leftSide = (run P.resume s.leftSide.next reads).after s.leftSide.events := by
  obtain ⟨k, hk⟩ := h
  exact hk.leftSide

theorem Reaches.rightSide (h : Reaches P Q s t) : ∃ reads,
    t.rightSide = (run Q.resume s.rightSide.next reads).after s.rightSide.events := by
  exact h.swap.leftSide

end ZephyrModem.Reactive.Duplex
