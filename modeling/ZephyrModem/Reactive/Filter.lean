import ZephyrModem.Reactive.Broken
import ZephyrModem.Reactive.Timed

/-!
# A filter in front of the reads of a process

What a process is given for a read may differ from what the line brought, depending on
what came before. A process whose filter lets all bytes of a run pass does what it does
without the filter.
-/

namespace ZephyrModem.Reactive

variable {κ β ε σ ρ : Type}

/-- What is given for the result of a read, and the next state of the filter. -/
abbrev ReadFilter (κ β : Type) := κ → ReadResult β → ReadResult β × κ

def results (flt : ReadFilter κ β) : κ → List (ReadResult β) → List (ReadResult β)
  | _, [] => []
  | k, r :: rs => (flt k r).1 :: results flt (flt k r).2 rs

def filtered (flt : ReadFilter κ β) (step : Resume (ReadResult β) ε σ ρ) :
    Resume (ReadResult β) ε (κ × σ) ρ := fun s r =>
  (step s.2 (flt s.1 r).1).map (Prod.mk (flt s.1 r).2) id

def Party.filtered (flt : ReadFilter κ β) (P : Party β ε σ ρ) : Party β ε (κ × σ) ρ :=
  ⟨Reactive.filtered flt P.resume, P.wire⟩

/-- The items pass unchanged. -/
def Passes (flt : ReadFilter κ β) : κ → List β → Prop
  | _, [] => True
  | k, b :: bs => (flt k (.ok b)).1 = .ok b ∧ Passes flt (flt k (.ok b)).2 bs

/-- A read that fails goes unnoticed. -/
def Patient (flt : ReadFilter κ β) : Prop := ∀ k, flt k .timeout = (.timeout, k)

variable {flt : ReadFilter κ β} {k : κ}

theorem Mimics.filtered {σ' ρ' : Type} {f : σ → σ'} {g : ρ → ρ'} {step : Resume (ReadResult β) ε σ ρ}
    {step' : Resume (ReadResult β) ε σ' ρ'} (h : Mimics f g step step') (flt : ReadFilter κ β) :
    Mimics (Prod.map id f) g (filtered flt step) (filtered flt step') := by
  rintro ⟨k, s⟩ r
  simp only [Reactive.filtered, Prod.map, id, h s]
  generalize step s (flt k r).1 = o
  obtain ⟨es, n⟩ := o
  cases n <;> rfl

theorem Passes.append_left {as bs : List β} (h : Passes flt k (as ++ bs)) : Passes flt k as := by
  induction as generalizing k with
  | nil => trivial
  | cons a as ih => exact ⟨h.1, ih h.2⟩

theorem results_timeouts (hpatient : Patient flt) (n : ℕ) :
    results flt k (List.replicate n .timeout) = List.replicate n .timeout := by
  induction n with
  | zero => rfl
  | succ n ih => rw [List.replicate_succ, results, hpatient, ih]

/-- Items that pass, and reads that fail behind them. -/
theorem Passes.results (hpatient : Patient flt) {bs : List β} (h : Passes flt k bs) (n : ℕ) :
    results flt k (bs.map .ok ++ List.replicate n .timeout) =
      bs.map .ok ++ List.replicate n .timeout := by
  induction bs generalizing k with
  | nil => exact results_timeouts hpatient n
  | cons b bs ih => rw [List.map_cons, List.cons_append, Reactive.results, h.1, ih h.2]

theorem run_filtered_timeouts (hpatient : Patient flt) (step : Resume (ReadResult β) ε σ ρ)
    (k : κ) (n : Next σ ρ) (j : ℕ) :
    run (filtered flt step) (n.map (Prod.mk k) id) (List.replicate j .timeout) =
      (run step n (List.replicate j .timeout)).map (Prod.mk k) id := by
  induction j generalizing n with
  | zero =>
    rw [List.replicate_zero, run_nil, run_nil]
    rfl
  | succ j ih =>
    cases n with
    | done q =>
      rw [run_done]
      exact run_done _ q _
    | wait s =>
      show run (filtered flt step) (.wait (k, s)) _ = _
      have hstep : filtered flt step (k, s) .timeout = (step s .timeout).map (Prod.mk k) id := by
        rw [filtered, hpatient]
      rw [List.replicate_succ, run_wait, run_wait, hstep, Out.map_next, ih, Out.map_after]
      rfl

namespace Duplex

variable {ε₁ σ₁ ρ₁ ε₂ σ₂ ρ₂ : Type} {P : Party β ε₁ σ₁ ρ₁} {Q : Party β ε₂ σ₂ ρ₂}
  {s t u : Duplex β ε₁ σ₁ ρ₁ ε₂ σ₂ ρ₂}

/-- The state with the filter of the right side in state `k`. -/
abbrev lift (k : κ) (s : Duplex β ε₁ σ₁ ρ₁ ε₂ σ₂ ρ₂) : Duplex β ε₁ σ₁ ρ₁ ε₂ (κ × σ₂) ρ₂ :=
  s.map id id (Prod.mk k) id

/-- What is on the way to the right side at `s`, and what will be sent to it up to `u`, passes. -/
def Passing (flt : ReadFilter κ β) (P : Party β ε₁ σ₁ ρ₁) (k : κ)
    (s u : Duplex β ε₁ σ₁ ρ₁ ε₂ σ₂ ρ₂) : Prop :=
  ∃ es, u.leftLog = s.leftLog ++ es ∧ Passes flt k (s.toRight ++ es.filterMap P.wire)

/-- The state of the filter after a move. -/
def afterMove (flt : ReadFilter κ β) (k : κ) (m : Move) (line : List β) : κ :=
  match m, line with
  | .readRight, b :: _ => (flt k (.ok b)).2
  | _, _ => k

theorem passing_init {l : Out ε₁ σ₁ ρ₁} {r : Out ε₂ σ₂ ρ₂}
    (h : Passes flt k (u.leftLog.filterMap P.wire)) : Passing flt P k (init l r) u :=
  ⟨u.leftLog, rfl, h⟩

theorem map_lift_init {σ₁' ρ₁' ρ₂' : Type} {f : σ₁ → σ₁'} {g : ρ₁ → ρ₁'} {g' : ρ₂ → ρ₂'}
    (l : Out ε₁ σ₁ ρ₁) (r : Out ε₂ σ₂ ρ₂) :
    ((init l r : Duplex β ε₁ σ₁ ρ₁ ε₂ σ₂ ρ₂).lift k).map f g id g' =
      init (l.map f g) (r.map (Prod.mk k) g') := by
  obtain ⟨es, n⟩ := l
  obtain ⟨es', n'⟩ := r
  cases n <;> cases n' <;> rfl

theorem Passing.head (h : Passing flt P k s u) {b : β} {q : List β} (hline : s.toRight = b :: q) :
    (flt k (.ok b)).1 = .ok b := by
  obtain ⟨es, -, hpass⟩ := h
  rw [hline] at hpass
  exact hpass.1

theorem move_filtered {m : Move} (hm : m.Live)
    (hhead : ∀ b q, s.toRight = b :: q → (flt k (.ok b)).1 = .ok b) :
    move P (Q.filtered flt) m (s.lift k) =
      (move P Q m s).map (lift (afterMove flt k m s.toRight)) := by
  obtain ⟨⟨es, n⟩, ⟨es', n'⟩, toRight, toLeft, leftLog, rightLog⟩ := s
  rcases Move.live_cases hm with ⟨-, rfl | rfl⟩ | ⟨-, rfl | rfl⟩
  · cases es with
    | nil => rfl
    | cons e es => rfl
  · cases es with
    | cons e es => rfl
    | nil =>
      cases n with
      | done r => rfl
      | wait x =>
        cases toLeft with
        | nil => rfl
        | cons b q =>
          simp only [lift, map, Out.map, Next.map, move, afterMove, Option.map_some]
          exact congrArg some (congrArg (fun l => (⟨l, _, _, _, _, _⟩ : Duplex β ε₁ σ₁ ρ₁ ε₂ (κ × σ₂) ρ₂))
            (Out.map_id _).symm)
  · cases es' with
    | nil => rfl
    | cons e es => rfl
  · cases es' with
    | cons e es => rfl
    | nil =>
      cases n' with
      | done r => rfl
      | wait x =>
        cases toRight with
        | nil => rfl
        | cons b q =>
          have hb : (flt k (.ok b)).1 = .ok b := hhead b q rfl
          simp only [lift, map, Out.map, Next.map, move, Party.filtered, Reactive.filtered, hb,
            afterMove, Option.map_some]

theorem LiveRun.leftLog {n : ℕ} (h : LiveRun P Q n s u) : ∃ es, u.leftLog = s.leftLog ++ es := by
  induction h with
  | refl s => exact ⟨[], (List.append_nil _).symm⟩
  | step hm hs _ ih =>
    obtain ⟨es, hes⟩ := ih
    rcases Move.live_cases hm with ⟨-, rfl | rfl⟩ | ⟨-, rfl | rfl⟩
    · obtain ⟨e, es', n, -, rfl⟩ := move_emitLeft.mp hs
      exact ⟨e :: es, by rw [hes, List.append_assoc]; rfl⟩
    · obtain ⟨x, b, q, -, -, rfl⟩ := move_readLeft.mp hs
      exact ⟨es, hes⟩
    · obtain ⟨e, es', n, -, rfl⟩ := move_emitRight.mp hs
      exact ⟨es, hes⟩
    · obtain ⟨x, b, q, -, -, rfl⟩ := move_readRight.mp hs
      exact ⟨es, hes⟩

theorem Passing.move {m : Move} (hm : m.Live) (hs : move P Q m s = some t)
    (hrest : ∃ es, u.leftLog = t.leftLog ++ es) (h : Passing flt P k s u) :
    Passing flt P (afterMove flt k m s.toRight) t u := by
  obtain ⟨es, hes, hpass⟩ := h
  obtain ⟨es', hes'⟩ := hrest
  rcases Move.live_cases hm with ⟨-, rfl | rfl⟩ | ⟨-, rfl | rfl⟩
  · obtain ⟨e, fs, n, -, rfl⟩ := move_emitLeft.mp hs
    obtain rfl : es = e :: es' := by
      have heq : s.leftLog ++ es = s.leftLog ++ (e :: es') := by
        rw [← hes, hes', List.append_assoc]
        rfl
      exact List.append_cancel_left heq
    refine ⟨es', hes', ?_⟩
    have hsent := sent_emit P.wire s.toRight e es'
    rw [hsent]
    exact hpass
  · obtain ⟨x, b, q, -, -, rfl⟩ := move_readLeft.mp hs
    exact ⟨es, hes, hpass⟩
  · obtain ⟨e, fs, n, -, rfl⟩ := move_emitRight.mp hs
    exact ⟨es, hes, hpass⟩
  · obtain ⟨x, b, q, -, hline, rfl⟩ := move_readRight.mp hs
    refine ⟨es, hes, ?_⟩
    rw [hline] at hpass ⊢
    exact hpass.2

/-- A run whose items all pass is one with the filter, too. -/
theorem LiveRun.filtered {n : ℕ} (h : LiveRun P Q n s u) (hpass : Passing flt P k s u) :
    ∃ k', LiveRun P (Q.filtered flt) n (s.lift k) (u.lift k') := by
  induction h generalizing k with
  | refl s => exact ⟨k, .refl _⟩
  | @step n m s v u hm hs hrest ih =>
    obtain ⟨k', hrun⟩ := ih (hpass.move hm hs hrest.leftLog)
    refine ⟨k', .step hm ?_ hrun⟩
    rw [move_filtered hm fun b q => hpass.head, hs]
    rfl

/-- With one run to the end whose items all pass, each run with the filter is one without it. -/
theorem LiveRun.unfiltered {j n : ℕ} (h : LiveRun P Q n s u) (hf : Final u)
    (hpass : Passing flt P k s u) {s' t' : Duplex β ε₁ σ₁ ρ₁ ε₂ (κ × σ₂) ρ₂}
    (hs : s' = s.lift k) (hr : LiveRun P (Q.filtered flt) j s' t') :
    ∃ t k', t' = t.lift k' ∧ LiveRun P Q j s t ∧ Reaches P Q t u := by
  induction hr generalizing n k s with
  | refl s' => exact ⟨s, k, hs, .refl s, n, h⟩
  | @step j m s' v' t' hm hmove _ ih =>
    rw [hs, move_filtered hm fun b q => hpass.head, Option.map_eq_some_iff] at hmove
    obtain ⟨v, hv, rfl⟩ := hmove
    obtain ⟨n', -, hrest⟩ := h.next hf ⟨m, hv, fun e => absurd e hm.1, fun e => absurd e hm.2⟩
    obtain ⟨t, k', ht, hrun, hend⟩ := ih hrest (hpass.move hm hv hrest.leftLog) rfl
    exact ⟨t, k', ht, .step hm hv hrun, hend⟩

theorem Reaches.filteredRight (h : Reaches P Q s u) (hpass : Passing flt P k s u) :
    ∃ k', Reaches P (Q.filtered flt) (s.lift k) (u.lift k') := by
  obtain ⟨n, hn⟩ := h
  obtain ⟨k', hrun⟩ := hn.filtered hpass
  exact ⟨k', n, hrun⟩

theorem Reaches.unfilteredRight (h : Reaches P Q s u) (hf : Final u) (hpass : Passing flt P k s u)
    {t' : Duplex β ε₁ σ₁ ρ₁ ε₂ (κ × σ₂) ρ₂} (ht : Reaches P (Q.filtered flt) (s.lift k) t') :
    ∃ t k', t' = t.lift k' ∧ Reaches P Q s t ∧ Reaches P Q t u := by
  obtain ⟨n, hn⟩ := h
  obtain ⟨j, hj⟩ := ht
  obtain ⟨t, k', hlift, hrun, hend⟩ := hn.unfiltered hf hpass rfl hj
  exact ⟨t, k', hlift, ⟨j, hrun⟩, hend⟩

/-! ### Filters on both sides -/

variable {κ' : Type} {flt' : ReadFilter κ' β} {k' : κ'}

theorem Final.swap (h : Final s) : Final s.swap := ⟨h.2, h.1⟩

/-- The state with the filters of both sides. -/
abbrev liftBoth (k : κ) (k' : κ') (s : Duplex β ε₁ σ₁ ρ₁ ε₂ σ₂ ρ₂) :
    Duplex β ε₁ (κ × σ₁) ρ₁ ε₂ (κ' × σ₂) ρ₂ := s.map (Prod.mk k) id (Prod.mk k') id

theorem map_liftBoth_init {σ₁' ρ₁' ρ₂' : Type} {f : σ₁ → σ₁'} {g : ρ₁ → ρ₁'} {g' : ρ₂ → ρ₂'}
    (l : Out ε₁ σ₁ ρ₁) (r : Out ε₂ σ₂ ρ₂) :
    ((init l r : Duplex β ε₁ σ₁ ρ₁ ε₂ σ₂ ρ₂).liftBoth k k').map (Prod.map id f) g id g' =
      init (l.map (fun x => (k, f x)) g) (r.map (Prod.mk k') g') := by
  obtain ⟨es, n⟩ := l
  obtain ⟨es', n'⟩ := r
  cases n <;> cases n' <;> rfl

theorem swap_lift (k : κ) (k' : κ') (s : Duplex β ε₁ σ₁ ρ₁ ε₂ σ₂ ρ₂) :
    ((s.lift k').swap.lift k).swap = s.liftBoth k k' := by
  simp only [lift, liftBoth, map, swap, Out.map_id]

theorem Reaches.filtered (h : Reaches P Q s u) (hleft : Passing flt Q k s.swap u.swap)
    (hright : Passing flt' P k' s u) :
    ∃ j j', Reaches (P.filtered flt) (Q.filtered flt') (s.liftBoth k k') (u.liftBoth j j') := by
  obtain ⟨j', hrun⟩ := h.filteredRight hright
  have hpass : Passing flt (Q.filtered flt') k (s.lift k').swap (u.lift j').swap := hleft
  obtain ⟨j, hboth⟩ := hrun.swap.filteredRight hpass
  have hrun' := hboth.swap
  rw [swap_lift, swap_lift] at hrun'
  exact ⟨j, j', hrun'⟩

theorem Reaches.unfiltered (h : Reaches P Q s u) (hf : Final u)
    (hleft : Passing flt Q k s.swap u.swap) (hright : Passing flt' P k' s u)
    {t' : Duplex β ε₁ (κ × σ₁) ρ₁ ε₂ (κ' × σ₂) ρ₂}
    (ht : Reaches (P.filtered flt) (Q.filtered flt') (s.liftBoth k k') t') :
    ∃ t j j', t' = t.liftBoth j j' ∧ Reaches P Q s t ∧ Reaches P Q t u := by
  obtain ⟨i, hrun⟩ := h.filteredRight hright
  have hpass : Passing flt (Q.filtered flt') k (s.lift k').swap (u.lift i).swap := hleft
  have hend : Final (u.lift i) := hf.map
  rw [← swap_lift] at ht
  obtain ⟨v, j, hv, hbefore, -⟩ := hrun.swap.unfilteredRight hend.swap hpass ht.swap
  obtain ⟨t, j', hw, hfirst, hrest⟩ := h.unfilteredRight hf hright hbefore.swap
  refine ⟨t, j, j', ?_, hfirst, hrest⟩
  have hv' : t' = (v.lift j).swap := congrArg Duplex.swap hv
  have hw' : v = (t.lift j').swap := congrArg Duplex.swap hw
  rw [hv', hw', swap_lift]

theorem cutRight_filtered {σ₁' : Type} {f : σ₁ → σ₁'} (hpatient : Patient flt)
    (s : Duplex β ε₁ σ₁ ρ₁ ε₂ σ₂ ρ₂) (n : ℕ) :
    cutRight (Q.filtered flt) (s.map f id (Prod.mk k) id) n = (cutRight Q s n).map (Prod.mk k) id := by
  have hside : (s.map f id (Prod.mk k) id).rightSide = s.rightSide.map (Prod.mk k) id := rfl
  rw [cutRight, cutRight, hside, Out.map_next, Out.map_after]
  exact congrArg (Out.after _) (run_filtered_timeouts hpatient Q.resume k _ n)

theorem cutLeft_filtered {σ₂' : Type} {f : σ₂ → σ₂'} (hpatient : Patient flt)
    (s : Duplex β ε₁ σ₁ ρ₁ ε₂ σ₂ ρ₂) (n : ℕ) :
    cutLeft (P.filtered flt) (s.map (Prod.mk k) id f id) n = (cutLeft P s n).map (Prod.mk k) id := by
  have hside : (s.map (Prod.mk k) id f id).leftSide = s.leftSide.map (Prod.mk k) id := rfl
  rw [cutLeft, cutLeft, hside, Out.map_next, Out.map_after]
  exact congrArg (Out.after _) (run_filtered_timeouts hpatient P.resume k _ n)

end Duplex

/-! ### With time-outs -/

def TimedParty.filtered (flt : ReadFilter κ β) (P : TimedParty β ε σ ρ) :
    TimedParty β ε (κ × σ) ρ where
  toParty := P.toParty.filtered flt
  waits s := P.waits s.2
  waits_pos s := P.waits_pos s.2

namespace Timed

variable {ε₁ σ₁ ρ₁ ε₂ σ₂ ρ₂ : Type} {P : TimedParty β ε₁ σ₁ ρ₁} {Q : TimedParty β ε₂ σ₂ ρ₂}
  {s t u : Timed β ε₁ σ₁ ρ₁ ε₂ σ₂ ρ₂}

def lift (k : κ) (s : Timed β ε₁ σ₁ ρ₁ ε₂ σ₂ ρ₂) : Timed β ε₁ σ₁ ρ₁ ε₂ (κ × σ₂) ρ₂ :=
  ⟨s.lines.lift k, s.leftAge, s.rightAge⟩

theorem leftPending_lift {x : σ₁} : (s.lift k).LeftPending x ↔ s.LeftPending x := by
  simp only [LeftPending, lift, Duplex.map, Out.map_id]

theorem rightPending_lift {y : κ × σ₂} :
    (s.lift k).RightPending y ↔ y.1 = k ∧ s.RightPending y.2 := by
  obtain ⟨⟨l, ⟨es, n⟩, tr, tl, ll, rl⟩, a, b⟩ := s
  obtain ⟨j, y⟩ := y
  cases n with
  | done r => simp [RightPending, lift, Duplex.map, Out.map, Next.map]
  | wait x =>
    simp only [RightPending, lift, Duplex.map, Out.map, Next.map, Out.mk.injEq, Next.wait.injEq,
      Prod.mk.injEq]
    tauto

theorem leftReady_lift : (s.lift k).lines.LeftReady ↔ s.lines.LeftReady := by
  simp only [Duplex.LeftReady, lift, Duplex.map, Out.map_id]

theorem rightReady_lift : (s.lift k).lines.RightReady ↔ s.lines.RightReady := by
  obtain ⟨⟨l, ⟨es, n⟩, tr, tl, ll, rl⟩, a, b⟩ := s
  cases n with
  | done r => simp [Duplex.RightReady, lift, Duplex.map, Out.map, Next.map]
  | wait x => simp [Duplex.RightReady, lift, Duplex.map, Out.map, Next.map]

theorem not_tied_lift (h : ¬ Tied P Q s) : ¬ Tied P (Q.filtered flt) (s.lift k) := by
  rintro ⟨x, y, hx, hy, he⟩
  exact h ⟨x, y.2, leftPending_lift.mp hx, (rightPending_lift.mp hy).2, he⟩

theorem Step.leftLog (h : Step P Q s t) : ∃ es, t.lines.leftLog = s.lines.leftLog ++ es := by
  cases h with
  | live hm h => exact (Duplex.LiveRun.step hm h (.refl _)).leftLog
  | expireLeft => exact ⟨[], (List.append_nil _).symm⟩
  | expireRight => exact ⟨[], (List.append_nil _).symm⟩

theorem SureRun.leftLog {n : ℕ} (h : SureRun P Q n s u) :
    ∃ es, u.lines.leftLog = s.lines.leftLog ++ es := by
  induction h with
  | refl s => exact ⟨[], (List.append_nil _).symm⟩
  | step _ hs _ ih =>
    obtain ⟨es, hes⟩ := hs.leftLog
    obtain ⟨es', hes'⟩ := ih
    exact ⟨es ++ es', by rw [hes', hes, List.append_assoc]⟩

/-- A step whose item passes is one with the filter. -/
theorem Step.filtered (hpatient : Patient flt) (h : Step P Q s t)
    (hrest : ∃ es, u.lines.leftLog = t.lines.leftLog ++ es)
    (hpass : Duplex.Passing flt P.toParty k s.lines u.lines) :
    ∃ k', Step P (Q.filtered flt) (s.lift k) (t.lift k') ∧
      Duplex.Passing flt P.toParty k' t.lines u.lines := by
  cases h with
  | @live m l hm h =>
    have hmove : Duplex.move P.toParty (Q.toParty.filtered flt) m (s.lines.lift k) = _ :=
      Duplex.move_filtered hm fun b q => hpass.head
    rw [h] at hmove
    exact ⟨_, .live hm hmove, hpass.move hm h hrest⟩
  | @expireLeft x d hx hd hidle hfirst =>
    refine ⟨k, ?_, hpass⟩
    have hstep := Step.expireLeft (P := P) (Q := Q.filtered flt) (leftPending_lift.mpr hx) hd
      (hidle.imp_right (mt rightReady_lift.mp)) (s := s.lift k) fun y hy =>
        hfirst y.2 (rightPending_lift.mp hy).2
    have hexpired : (s.lift k).expiredLeft P x d = (s.expiredLeft P x d).lift k := by
      simp only [expiredLeft, lift, Duplex.map, Out.map_id]
    rwa [hexpired] at hstep
  | @expireRight y d hy hd hidle hfirst =>
    refine ⟨k, ?_, hpass⟩
    have hstep := Step.expireRight (P := P) (Q := Q.filtered flt) (y := (k, y))
      (rightPending_lift.mpr ⟨rfl, hy⟩) hd (hidle.imp_right (mt leftReady_lift.mp)) (s := s.lift k)
      fun x hx => hfirst x (leftPending_lift.mp hx)
    have hexpired : (s.lift k).expiredRight (Q.filtered flt) (k, y) d =
        (s.expiredRight Q y d).lift k := by
      simp only [expiredRight, lift, Duplex.map, TimedParty.filtered, Party.filtered,
        Reactive.filtered, hpatient k]
    rwa [hexpired] at hstep

theorem SureRun.filtered (hpatient : Patient flt) {n : ℕ} (h : SureRun P Q n s u)
    (hpass : Duplex.Passing flt P.toParty k s.lines u.lines) :
    ∃ k', SureRun P (Q.filtered flt) n (s.lift k) (u.lift k') := by
  induction h generalizing k with
  | refl s => exact ⟨k, .refl _⟩
  | step hsure hs hrest ih =>
    obtain ⟨j, hstep, hpass'⟩ := hs.filtered hpatient hrest.leftLog hpass
    obtain ⟨k', hrun⟩ := ih hpass'
    exact ⟨k', .step (not_tied_lift hsure) hstep hrun⟩

theorem Reaches.filtered (hpatient : Patient flt) (h : Reaches P Q s u)
    (hpass : Duplex.Passing flt P.toParty k s.lines u.lines) :
    ∃ k', Reaches P (Q.filtered flt) (s.lift k) (u.lift k') := by
  obtain ⟨n, hn⟩ := h
  obtain ⟨k', hrun⟩ := hn.filtered hpatient hpass
  exact ⟨k', n, hrun⟩

end Timed

end ZephyrModem.Reactive
