import ZephyrModem.Reactive.Morphism
import ZephyrModem.Reactive.Sides

/-!
# A line that breaks

From some moment on nothing reaches one side any more: its reads time out. If the system
would otherwise have run to its end, the side has done the first part of what it does in a
run to the end, and whatever it does on time-outs alone.
-/

namespace ZephyrModem.Reactive.Duplex

variable {β ε₁ σ₁ ρ₁ ε₂ σ₂ ρ₂ : Type} {P : Party β ε₁ σ₁ ρ₁} {Q : Party β ε₂ σ₂ ρ₂}
  {s t u : Duplex β ε₁ σ₁ ρ₁ ε₂ σ₂ ρ₂}

/-- The right side when nothing reaches it any more, after `k` reads. -/
def cutRight (Q : Party β ε₂ σ₂ ρ₂) (s : Duplex β ε₁ σ₁ ρ₁ ε₂ σ₂ ρ₂) (k : ℕ) : Out ε₂ σ₂ ρ₂ :=
  (run Q.resume s.rightSide.next (List.replicate k .timeout)).after s.rightSide.events

def cutLeft (P : Party β ε₁ σ₁ ρ₁) (s : Duplex β ε₁ σ₁ ρ₁ ε₂ σ₂ ρ₂) (k : ℕ) : Out ε₁ σ₁ ρ₁ :=
  (run P.resume s.leftSide.next (List.replicate k .timeout)).after s.leftSide.events

/-! ### Before the break -/

/-- Where a run to the end has no failing read, no patient run has one. -/
theorem PatientRun.live {j k : ℕ} (h : LiveRun P Q k s u) (hf : Final u)
    (hr : PatientRun P Q j s t) : LiveRun P Q j s t := by
  induction hr generalizing k with
  | refl s => exact .refl s
  | @step j s v t hstep _ ih =>
    obtain ⟨k', -, hrest⟩ := h.next hf hstep
    obtain ⟨m, hm, hl, hr⟩ := hstep
    cases h with
    | refl =>
      rw [hf.stuck] at hm
      cases hm
    | step hlive hv _ => exact .step (PatientStep.live hlive hv hm hl hr) hm (ih hrest)

theorem Reaches.rightSide_prefix (h : Reaches P Q t u) (hf : Final u) :
    t.rightSide.events <+: u.rightLog := by
  obtain ⟨-, r, hr⟩ := hf
  obtain ⟨reads, hside⟩ := h.rightSide
  have hlog : u.rightLog = t.rightSide.events ++ (run Q.resume t.rightSide.next reads).events := by
    have hevents := congrArg Out.events hside
    rw [Out.after_events] at hevents
    rw [← hevents, Duplex.rightSide, hr, Out.after_events, List.append_nil]
  exact ⟨_, hlog.symm⟩

/-- A side that has returned has nothing more to do. -/
theorem Reaches.right_returned {r : ρ₂} (h : Reaches P Q t u) (hf : Final u)
    (ht : t.rightSide.next = .done r) : t.rightSide.events = u.rightLog ∧ u.right = ⟨[], .done r⟩ := by
  obtain ⟨-, r', hr⟩ := hf
  obtain ⟨reads, hside⟩ := h.rightSide
  rw [ht, run_done] at hside
  have hevents := congrArg Out.events hside
  have hnext := congrArg Out.next hside
  simp only [Duplex.rightSide, hr, Out.after_events, Out.after_next, List.append_nil,
    Next.done.injEq] at hevents hnext
  refine ⟨hevents.symm, ?_⟩
  rw [hr, hnext]

/-- Behind the return of the left side, what the right side sends stays on the line. -/
theorem LiveRun.left_returned {k : ℕ} {q : ρ₁} (h : LiveRun P Q k t u)
    (ht : t.left.next = .done q) : ∃ rest, u.rightLog = t.rightLog ++ rest ∧
      u.toLeft = t.toLeft ++ rest.filterMap Q.wire := by
  induction h with
  | refl s => exact ⟨[], (List.append_nil _).symm, (List.append_nil _).symm⟩
  | @step k m s v u hm hs _ ih =>
    rcases Move.live_cases hm with ⟨-, rfl | rfl⟩ | ⟨-, rfl | rfl⟩
    · obtain ⟨e, es, n, hl, rfl⟩ := move_emitLeft.mp hs
      rw [hl] at ht
      exact ih ht
    · obtain ⟨x, b, q', hl, -⟩ := move_readLeft.mp hs
      rw [hl] at ht
      cases ht
    · obtain ⟨e, es, n, -, rfl⟩ := move_emitRight.mp hs
      obtain ⟨rest, hlog, hline⟩ := ih ht
      refine ⟨e :: rest, ?_, ?_⟩
      · rw [hlog, List.append_assoc]
        rfl
      · rw [hline, ← sent_emit]
    · obtain ⟨x, b, q', -, -, rfl⟩ := move_readRight.mp hs
      exact ih ht

/-- If the line to the left side is empty in the end and the last event of the right side
was sent, the left side returns behind all events of the right side. -/
theorem Reaches.left_returned {q : ρ₁} {log : List ε₂} {e : ε₂} {b : β} (h : Reaches P Q t u)
    (ht : t.left.next = .done q) (hline : u.toLeft = []) (hlog : u.rightLog = log ++ [e])
    (hsent : Q.wire e = some b) : t.rightLog = u.rightLog := by
  obtain ⟨k, hk⟩ := h
  obtain ⟨rest, hrest, hleft⟩ := hk.left_returned ht
  rw [hline] at hleft
  obtain ⟨-, hnone⟩ := List.append_eq_nil_iff.mp hleft.symm
  rcases List.eq_nil_or_concat rest with rfl | ⟨init, e', rfl⟩
  · rw [hrest, List.append_nil]
  · rw [hrest, List.concat_eq_append, ← List.append_assoc] at hlog
    obtain ⟨-, hlast⟩ := List.append_inj' hlog rfl
    rw [List.concat_eq_append, List.filterMap_append, (List.cons.inj hlast).1] at hnone
    simp [hsent] at hnone

section Map

variable {σ₁' ρ₁' σ₂' ρ₂' : Type} {f₁ : σ₁ → σ₁'} {g₁ : ρ₁ → ρ₁'} {f₂ : σ₂ → σ₂'} {g₂ : ρ₂ → ρ₂'}
  {P' : Party β ε₁ σ₁' ρ₁'} {Q' : Party β ε₂ σ₂' ρ₂'}

/-- A patient run of the mapped pair, as a run of the pair itself that can go on to its end. -/
theorem PatientRun.unbroken (hP : SameParty f₁ g₁ P P') (hQ : SameParty f₂ g₂ Q Q')
    (h : Reaches P Q s u) (hf : Final u) {j : ℕ} {t' : Duplex β ε₁ σ₁' ρ₁' ε₂ σ₂' ρ₂'}
    (ht : PatientRun P' Q' j (s.map f₁ g₁ f₂ g₂) t') :
    ∃ t, t' = t.map f₁ g₁ f₂ g₂ ∧ Reaches P Q s t ∧ Reaches P Q t u := by
  obtain ⟨k, hk⟩ := h
  have hlive := PatientRun.live (hk.map hP hQ) hf.map ht
  obtain ⟨t, hbefore, rfl⟩ := hlive.lift hP hQ rfl
  obtain ⟨-, hbehind⟩ := hbefore.patient.complete hk hf
  exact ⟨t, rfl, ⟨j, hbefore⟩, _, hbehind⟩

end Map

/-! ### Behind the break -/

theorem cutRight_map {σ₁' ρ₁' σ₂' ρ₂' : Type} {f₁ : σ₁ → σ₁'} {g₁ : ρ₁ → ρ₁'} {f₂ : σ₂ → σ₂'}
    {g₂ : ρ₂ → ρ₂'} {Q' : Party β ε₂ σ₂' ρ₂'} (hQ : SameParty f₂ g₂ Q Q')
    (s : Duplex β ε₁ σ₁ ρ₁ ε₂ σ₂ ρ₂) (k : ℕ) :
    cutRight Q' (s.map f₁ g₁ f₂ g₂) k = (cutRight Q s k).map f₂ g₂ := by
  have hside : (s.map f₁ g₁ f₂ g₂).rightSide = s.rightSide.map f₂ g₂ := rfl
  rw [cutRight, cutRight, hside, Out.map_next, hQ.resume.run, Out.map_after]
  rfl

theorem cutLeft_map {σ₁' ρ₁' σ₂' ρ₂' : Type} {f₁ : σ₁ → σ₁'} {g₁ : ρ₁ → ρ₁'} {f₂ : σ₂ → σ₂'}
    {g₂ : ρ₂ → ρ₂'} {P' : Party β ε₁ σ₁' ρ₁'} (hP : SameParty f₁ g₁ P P')
    (s : Duplex β ε₁ σ₁ ρ₁ ε₂ σ₂ ρ₂) (k : ℕ) :
    cutLeft P' (s.map f₁ g₁ f₂ g₂) k = (cutLeft P s k).map f₁ g₁ := by
  have hside : (s.map f₁ g₁ f₂ g₂).leftSide = s.leftSide.map f₁ g₁ := rfl
  rw [cutLeft, cutLeft, hside, Out.map_next, hP.resume.run, Out.map_after]
  rfl

/-- A return that no time-out brings about comes before the break. -/
theorem returned_before {ε σ ρ : Type} {step : Resume (ReadResult β) ε σ ρ} {r : ρ}
    (hstep : ∀ s, (step s .timeout).next ≠ .done r) {n : Next σ ρ} {k : ℕ}
    (h : (run step n (List.replicate k .timeout)).next = .done r) : n = .done r := by
  rcases exists_of_run_done step h with hn | ⟨pre, i, post, s, hreads, -, hlast⟩
  · exact hn
  · have hi : i ∈ List.replicate k ReadResult.timeout := by
      rw [hreads]
      simp
    rw [List.eq_of_mem_replicate hi] at hlast
    exact absurd hlast (hstep s)

end ZephyrModem.Reactive.Duplex
