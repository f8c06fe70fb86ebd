import ZephyrModem.Reactive.Duplex

/-!
# Processes that differ in what they carry

A process that carries its states or its result in another form reacts in the same way.
What is known of one such process, alone or joined with another one, holds for the other.
-/

namespace ZephyrModem.Reactive

variable {ι ε σ σ' ρ ρ' : Type}

def Next.map (f : σ → σ') (g : ρ → ρ') : Next σ ρ → Next σ' ρ'
  | .wait s => .wait (f s)
  | .done r => .done (g r)

theorem Next.done_of_map {f : σ → σ'} {n : Next σ ρ} {r : ρ} (h : n.map f id = .done r) :
    n = .done r := by
  cases n with
  | wait s => cases h
  | done q => exact congrArg Next.done (Next.done.inj h)

def Out.map (f : σ → σ') (g : ρ → ρ') (o : Out ε σ ρ) : Out ε σ' ρ' := ⟨o.events, o.next.map f g⟩

@[simp] theorem Out.map_events (f : σ → σ') (g : ρ → ρ') (o : Out ε σ ρ) :
    (o.map f g).events = o.events := rfl

@[simp] theorem Out.map_next (f : σ → σ') (g : ρ → ρ') (o : Out ε σ ρ) :
    (o.map f g).next = o.next.map f g := rfl

@[simp] theorem Out.map_after (f : σ → σ') (g : ρ → ρ') (es : List ε) (o : Out ε σ ρ) :
    (o.after es).map f g = (o.map f g).after es := rfl

/-- The reactions of `step'` are those of `step`. -/
def Mimics (f : σ → σ') (g : ρ → ρ') (step : Resume ι ε σ ρ) (step' : Resume ι ε σ' ρ') : Prop :=
  ∀ s i, step' (f s) i = (step s i).map f g

/-- A process with its result in another form. -/
def returning (g : ρ → ρ') (step : Resume ι ε σ ρ) : Resume ι ε σ ρ' := fun s i => (step s i).map id g

theorem mimics_returning (g : ρ → ρ') (step : Resume ι ε σ ρ) : Mimics id g step (returning g step) :=
  fun _ _ => rfl

variable {f : σ → σ'} {g : ρ → ρ'}

theorem Mimics.returning {step : Resume ι ε σ ρ} {step' : Resume ι ε σ' ρ}
    (h : Mimics f id step step') (g : ρ → ρ') : Mimics f g step (returning g step') := by
  intro s i
  rw [Reactive.returning, h s i]
  obtain ⟨es, n⟩ := step s i
  cases n <;> rfl

theorem Mimics.run {step : Resume ι ε σ ρ} {step' : Resume ι ε σ' ρ'} (h : Mimics f g step step')
    (n : Next σ ρ) (is : List ι) : run step' (n.map f g) is = (run step n is).map f g := by
  induction is generalizing n with
  | nil =>
    rw [run_nil, run_nil]
    rfl
  | cons i is ih =>
    cases n with
    | done r =>
      rw [run_done]
      exact run_done step' (g r) _
    | wait s =>
      show Reactive.run step' (.wait (f s)) (i :: is) = _
      rw [run_wait, run_wait, h s i, Out.map_next, ih, Out.map_after, Out.map_events]

theorem Out.map_id (o : Out ε σ ρ) : o.map id id = o := by
  obtain ⟨es, n⟩ := o
  cases n <;> rfl

theorem Out.map_eq_done {o : Out ε σ ρ} {r : ρ'} (h : o.map f g = ⟨[], .done r⟩) :
    ∃ q, o = ⟨[], .done q⟩ ∧ g q = r := by
  obtain ⟨es, n⟩ := o
  cases n with
  | wait x => cases h
  | done q =>
    cases h
    exact ⟨q, rfl, rfl⟩

/-- The same process to the other side of the line. -/
structure SameParty {β : Type} (f : σ → σ') (g : ρ → ρ') (P : Party β ε σ ρ) (P' : Party β ε σ' ρ') :
    Prop where
  resume : Mimics f g P.resume P'.resume
  wire : P'.wire = P.wire

theorem SameParty.refl {β : Type} (P : Party β ε σ ρ) : SameParty id id P P :=
  ⟨fun s i => (Out.map_id (P.resume s i)).symm, rfl⟩

namespace Duplex

variable {β ε₁ σ₁ σ₁' ρ₁ ρ₁' ε₂ σ₂ σ₂' ρ₂ ρ₂' : Type} {f₁ : σ₁ → σ₁'} {g₁ : ρ₁ → ρ₁'}
  {f₂ : σ₂ → σ₂'} {g₂ : ρ₂ → ρ₂'} {P : Party β ε₁ σ₁ ρ₁} {P' : Party β ε₁ σ₁' ρ₁'}
  {Q : Party β ε₂ σ₂ ρ₂} {Q' : Party β ε₂ σ₂' ρ₂'}

def map (f₁ : σ₁ → σ₁') (g₁ : ρ₁ → ρ₁') (f₂ : σ₂ → σ₂') (g₂ : ρ₂ → ρ₂')
    (s : Duplex β ε₁ σ₁ ρ₁ ε₂ σ₂ ρ₂) : Duplex β ε₁ σ₁' ρ₁' ε₂ σ₂' ρ₂' :=
  ⟨s.left.map f₁ g₁, s.right.map f₂ g₂, s.toRight, s.toLeft, s.leftLog, s.rightLog⟩

theorem map_init (l : Out ε₁ σ₁ ρ₁) (r : Out ε₂ σ₂ ρ₂) :
    (init l r : Duplex β ε₁ σ₁ ρ₁ ε₂ σ₂ ρ₂).map f₁ g₁ f₂ g₂ = init (l.map f₁ g₁) (r.map f₂ g₂) := rfl

theorem map_move (hP : SameParty f₁ g₁ P P') (hQ : SameParty f₂ g₂ Q Q') (m : Move)
    (s : Duplex β ε₁ σ₁ ρ₁ ε₂ σ₂ ρ₂) :
    move P' Q' m (s.map f₁ g₁ f₂ g₂) = (move P Q m s).map (Duplex.map f₁ g₁ f₂ g₂) := by
  obtain ⟨⟨es, n⟩, ⟨es', n'⟩, toRight, toLeft, leftLog, rightLog⟩ := s
  cases m with
  | emitLeft =>
    cases es with
    | nil => rfl
    | cons e es => simp [move, map, Out.map, hP.wire]
  | emitRight =>
    cases es' with
    | nil => rfl
    | cons e es => simp [move, map, Out.map, hQ.wire]
  | readLeft =>
    cases es with
    | cons e es => rfl
    | nil =>
      cases n with
      | done r => rfl
      | wait x =>
        cases toLeft with
        | nil => rfl
        | cons b q => simp [move, map, Out.map, Next.map, hP.resume x]
  | readRight =>
    cases es' with
    | cons e es => rfl
    | nil =>
      cases n' with
      | done r => rfl
      | wait x =>
        cases toRight with
        | nil => rfl
        | cons b q => simp [move, map, Out.map, Next.map, hQ.resume x]
  | failLeft =>
    cases es with
    | cons e es => rfl
    | nil =>
      cases n with
      | done r => rfl
      | wait x =>
        cases toLeft with
        | nil => simp [move, map, Out.map, Next.map, hP.resume x]
        | cons b q => rfl
  | failRight =>
    cases es' with
    | cons e es => rfl
    | nil =>
      cases n' with
      | done r => rfl
      | wait x =>
        cases toRight with
        | nil => simp [move, map, Out.map, Next.map, hQ.resume x]
        | cons b q => rfl

theorem move_map (hP : SameParty f₁ g₁ P P') (hQ : SameParty f₂ g₂ Q Q') {m : Move}
    {s t : Duplex β ε₁ σ₁ ρ₁ ε₂ σ₂ ρ₂} (h : move P Q m s = some t) :
    move P' Q' m (s.map f₁ g₁ f₂ g₂) = some (t.map f₁ g₁ f₂ g₂) := by
  rw [map_move hP hQ, h]
  rfl

theorem LiveRun.map (hP : SameParty f₁ g₁ P P') (hQ : SameParty f₂ g₂ Q Q') {k : ℕ}
    {s t : Duplex β ε₁ σ₁ ρ₁ ε₂ σ₂ ρ₂} (h : LiveRun P Q k s t) :
    LiveRun P' Q' k (s.map f₁ g₁ f₂ g₂) (t.map f₁ g₁ f₂ g₂) := by
  induction h with
  | refl s => exact .refl _
  | step hm hs _ ih => exact .step hm (move_map hP hQ hs) ih

/-- A run of the mapped pair is the image of a run of the pair itself. -/
theorem LiveRun.lift (hP : SameParty f₁ g₁ P P') (hQ : SameParty f₂ g₂ Q Q') {k : ℕ}
    {s' t' : Duplex β ε₁ σ₁' ρ₁' ε₂ σ₂' ρ₂'} (h : LiveRun P' Q' k s' t')
    {s : Duplex β ε₁ σ₁ ρ₁ ε₂ σ₂ ρ₂} (hs : s' = s.map f₁ g₁ f₂ g₂) :
    ∃ t, LiveRun P Q k s t ∧ t' = t.map f₁ g₁ f₂ g₂ := by
  induction h generalizing s with
  | refl s' => exact ⟨s, .refl s, hs⟩
  | step hm hmove _ ih =>
    rw [hs, map_move hP hQ, Option.map_eq_some_iff] at hmove
    obtain ⟨u, hu, rfl⟩ := hmove
    obtain ⟨t, hrun, ht⟩ := ih rfl
    exact ⟨t, .step hm hu hrun, ht⟩

theorem Reaches.lift (hP : SameParty f₁ g₁ P P') (hQ : SameParty f₂ g₂ Q Q')
    {s : Duplex β ε₁ σ₁ ρ₁ ε₂ σ₂ ρ₂} {t' : Duplex β ε₁ σ₁' ρ₁' ε₂ σ₂' ρ₂'}
    (h : Reaches P' Q' (s.map f₁ g₁ f₂ g₂) t') :
    ∃ t, Reaches P Q s t ∧ t' = t.map f₁ g₁ f₂ g₂ := by
  obtain ⟨k, hk⟩ := h
  obtain ⟨t, ht, he⟩ := hk.lift hP hQ rfl
  exact ⟨t, ⟨k, ht⟩, he⟩

theorem Final.map {s : Duplex β ε₁ σ₁ ρ₁ ε₂ σ₂ ρ₂} (h : Final s) :
    Final (s.map f₁ g₁ f₂ g₂) := by
  obtain ⟨⟨r, hl⟩, q, hr⟩ := h
  refine ⟨⟨g₁ r, ?_⟩, g₂ q, ?_⟩
  · show s.left.map f₁ g₁ = _
    rw [hl]
    rfl
  · show s.right.map f₂ g₂ = _
    rw [hr]
    rfl

/-- A run of one pair of processes to its end settles the other pair. -/
theorem Reaches.settles_map (hP : SameParty f₁ g₁ P P') (hQ : SameParty f₂ g₂ Q Q')
    {s t : Duplex β ε₁ σ₁ ρ₁ ε₂ σ₂ ρ₂} {Post : Duplex β ε₁ σ₁' ρ₁' ε₂ σ₂' ρ₂' → Prop}
    (h : Reaches P Q s t) (hf : Final t) (hpost : Post (t.map f₁ g₁ f₂ g₂)) :
    Settles P' Q' (s.map f₁ g₁ f₂ g₂) Post := by
  obtain ⟨k, hk⟩ := h
  exact (hk.map hP hQ).settles hf.map hpost

end Duplex

end ZephyrModem.Reactive
