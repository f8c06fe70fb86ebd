import ZephyrModem.Reactive.Sides

/-!
# Joined processes with time-outs

Every read waits for a time of its own. Time passes only while neither side can go on;
then the read whose time is over first fails. Where no two reads fail at the same time,
one complete run decides every other one, as it does for patient runs.
-/

namespace ZephyrModem.Reactive

/-- A process whose read in state `x` fails after `waits x` milliseconds. -/
structure TimedParty (β ε σ ρ : Type) extends Party β ε σ ρ where
  waits : σ → ℕ
  waits_pos : ∀ x, 0 < waits x

/-- The joined system, and for how long the pending read of each side has waited. -/
structure Timed (β ε₁ σ₁ ρ₁ ε₂ σ₂ ρ₂ : Type) where
  lines : Duplex β ε₁ σ₁ ρ₁ ε₂ σ₂ ρ₂
  leftAge : ℕ
  rightAge : ℕ

namespace Timed

variable {β ε₁ σ₁ ρ₁ ε₂ σ₂ ρ₂ : Type}

/-- The left side waits for `x` and nothing has arrived. -/
def LeftPending (s : Timed β ε₁ σ₁ ρ₁ ε₂ σ₂ ρ₂) (x : σ₁) : Prop :=
  s.lines.left = ⟨[], .wait x⟩ ∧ s.lines.toLeft = []

def RightPending (s : Timed β ε₁ σ₁ ρ₁ ε₂ σ₂ ρ₂) (y : σ₂) : Prop :=
  s.lines.right = ⟨[], .wait y⟩ ∧ s.lines.toRight = []

/-- The ages after a move: a read starts a new one. -/
def moved (m : Move) (s : Timed β ε₁ σ₁ ρ₁ ε₂ σ₂ ρ₂) (l : Duplex β ε₁ σ₁ ρ₁ ε₂ σ₂ ρ₂) :
    Timed β ε₁ σ₁ ρ₁ ε₂ σ₂ ρ₂ :=
  ⟨l, if m = .readLeft then 0 else s.leftAge, if m = .readRight then 0 else s.rightAge⟩

def expiredLeft (P : TimedParty β ε₁ σ₁ ρ₁) (x : σ₁) (d : ℕ) (s : Timed β ε₁ σ₁ ρ₁ ε₂ σ₂ ρ₂) :
    Timed β ε₁ σ₁ ρ₁ ε₂ σ₂ ρ₂ :=
  ⟨{ s.lines with left := P.resume x .timeout }, 0, s.rightAge + d⟩

def expiredRight (Q : TimedParty β ε₂ σ₂ ρ₂) (y : σ₂) (d : ℕ) (s : Timed β ε₁ σ₁ ρ₁ ε₂ σ₂ ρ₂) :
    Timed β ε₁ σ₁ ρ₁ ε₂ σ₂ ρ₂ :=
  ⟨{ s.lines with right := Q.resume y .timeout }, s.leftAge + d, 0⟩

variable (P : TimedParty β ε₁ σ₁ ρ₁) (Q : TimedParty β ε₂ σ₂ ρ₂)

/-- One step: a move that takes no time, or `d` milliseconds up to the end of a read. -/
inductive Step (s : Timed β ε₁ σ₁ ρ₁ ε₂ σ₂ ρ₂) : Timed β ε₁ σ₁ ρ₁ ε₂ σ₂ ρ₂ → Prop
  | live {m : Move} {l : Duplex β ε₁ σ₁ ρ₁ ε₂ σ₂ ρ₂} (hm : m.Live)
      (h : Duplex.move P.toParty Q.toParty m s.lines = some l) : Step s (s.moved m l)
  | expireLeft {x : σ₁} {d : ℕ} (hx : s.LeftPending x) (hd : s.leftAge + d = P.waits x)
      (hidle : d = 0 ∨ ¬ s.lines.RightReady)
      (hfirst : ∀ y, s.RightPending y → s.rightAge + d ≤ Q.waits y) : Step s (s.expiredLeft P x d)
  | expireRight {y : σ₂} {d : ℕ} (hy : s.RightPending y) (hd : s.rightAge + d = Q.waits y)
      (hidle : d = 0 ∨ ¬ s.lines.LeftReady)
      (hfirst : ∀ x, s.LeftPending x → s.leftAge + d ≤ P.waits x) : Step s (s.expiredRight Q y d)

/-- Both reads fail at the same time. -/
def Tied (s : Timed β ε₁ σ₁ ρ₁ ε₂ σ₂ ρ₂) : Prop :=
  ∃ x y, s.LeftPending x ∧ s.RightPending y ∧ s.leftAge + Q.waits y = s.rightAge + P.waits x

/-- No pending read is at its end. -/
structure Calm (s : Timed β ε₁ σ₁ ρ₁ ε₂ σ₂ ρ₂) : Prop where
  left : ∀ x, s.lines.left.next = .wait x → s.leftAge < P.waits x
  right : ∀ y, s.lines.right.next = .wait y → s.rightAge < Q.waits y

inductive Run : ℕ → Timed β ε₁ σ₁ ρ₁ ε₂ σ₂ ρ₂ → Timed β ε₁ σ₁ ρ₁ ε₂ σ₂ ρ₂ → Prop
  | refl (s) : Run 0 s s
  | step {k s t u} : Step P Q s t → Run k t u → Run (k + 1) s u

/-- A run in which no two reads fail at the same time. -/
inductive SureRun : ℕ → Timed β ε₁ σ₁ ρ₁ ε₂ σ₂ ρ₂ → Timed β ε₁ σ₁ ρ₁ ε₂ σ₂ ρ₂ → Prop
  | refl (s) : SureRun 0 s s
  | step {k s t u} : ¬ Tied P Q s → Step P Q s t → SureRun k t u → SureRun (k + 1) s u

/-- Every run from `s` ends, and where it cannot go on `Post` holds. -/
def Settles (s : Timed β ε₁ σ₁ ρ₁ ε₂ σ₂ ρ₂) (Post : Duplex β ε₁ σ₁ ρ₁ ε₂ σ₂ ρ₂ → Prop) : Prop :=
  (∃ k, ∀ j t, Run P Q j s t → j ≤ k) ∧
    ∀ j t, Run P Q j s t → (∀ u, ¬ Step P Q t u) → Post t.lines

/-! ### What keeps time -/

variable {P Q} {s t u v : Timed β ε₁ σ₁ ρ₁ ε₂ σ₂ ρ₂}

theorem not_leftReady_of_pending {x : σ₁} (h : s.LeftPending x) : ¬ s.lines.LeftReady := by
  rintro (hevents | ⟨-, hline⟩)
  · exact hevents (by rw [h.1])
  · exact hline h.2

theorem not_rightReady_of_pending {y : σ₂} (h : s.RightPending y) : ¬ s.lines.RightReady := by
  rintro (hevents | ⟨-, hline⟩)
  · exact hevents (by rw [h.1])
  · exact hline h.2

theorem ready_of_live {m : Move} {l : Duplex β ε₁ σ₁ ρ₁ ε₂ σ₂ ρ₂} (hm : m.Live)
    (h : Duplex.move P.toParty Q.toParty m s.lines = some l) :
    m.OfLeft ∧ s.lines.LeftReady ∨ ¬ m.OfLeft ∧ s.lines.RightReady := by
  by_cases hl : m.OfLeft
  · exact .inl ⟨hl, Duplex.leftReady_of_live hm hl h⟩
  · exact .inr ⟨hl, Duplex.rightReady_of_live hm hl h⟩

theorem not_tied_of_live {m : Move} {l : Duplex β ε₁ σ₁ ρ₁ ε₂ σ₂ ρ₂} (hm : m.Live)
    (h : Duplex.move P.toParty Q.toParty m s.lines = some l) : ¬ Tied P Q s := by
  rintro ⟨x, y, hx, hy, -⟩
  rcases ready_of_live hm h with ⟨-, hready⟩ | ⟨-, hready⟩
  · exact not_leftReady_of_pending hx hready
  · exact not_rightReady_of_pending hy hready

/-- Where a move is possible and no read is at its end, no read fails. -/
theorem Calm.live_of_live {m : Move} {l : Duplex β ε₁ σ₁ ρ₁ ε₂ σ₂ ρ₂} (hc : Calm P Q s)
    (hm : m.Live) (h : Duplex.move P.toParty Q.toParty m s.lines = some l) (ht : Step P Q s t) :
    ∃ m' l', m'.Live ∧ Duplex.move P.toParty Q.toParty m' s.lines = some l' ∧ t = s.moved m' l' := by
  cases ht with
  | live hm' h' => exact ⟨_, _, hm', h', rfl⟩
  | @expireLeft x d hx hd hidle hfirst =>
    have hlt : s.leftAge < P.waits x := hc.left x (by rw [hx.1])
    rcases ready_of_live hm h with ⟨-, hready⟩ | ⟨-, hready⟩
    · exact absurd hready (not_leftReady_of_pending hx)
    · rcases hidle with hzero | hstuck
      · omega
      · exact absurd hready hstuck
  | @expireRight y d hy hd hidle hfirst =>
    have hlt : s.rightAge < Q.waits y := hc.right y (by rw [hy.1])
    rcases ready_of_live hm h with ⟨-, hready⟩ | ⟨-, hready⟩
    · rcases hidle with hzero | hstuck
      · omega
      · exact absurd hready hstuck
    · exact absurd hready (not_rightReady_of_pending hy)

theorem Calm.moved {m : Move} {l : Duplex β ε₁ σ₁ ρ₁ ε₂ σ₂ ρ₂} (hc : Calm P Q s) (hm : m.Live)
    (h : Duplex.move P.toParty Q.toParty m s.lines = some l) : Calm P Q (s.moved m l) := by
  rcases Move.live_cases hm with ⟨-, rfl | rfl⟩ | ⟨-, rfl | rfl⟩
  · obtain ⟨e, es, n, hl, rfl⟩ := Duplex.move_emitLeft.mp h
    refine ⟨fun x hx => hc.left x ?_, hc.right⟩
    rw [hl]
    exact hx
  · obtain ⟨x, b, q, hl, hq, rfl⟩ := Duplex.move_readLeft.mp h
    exact ⟨fun x' _ => P.waits_pos x', hc.right⟩
  · obtain ⟨e, es, n, hr, rfl⟩ := Duplex.move_emitRight.mp h
    refine ⟨hc.left, fun y hy => hc.right y ?_⟩
    rw [hr]
    exact hy
  · obtain ⟨y, b, q, hr, hq, rfl⟩ := Duplex.move_readRight.mp h
    exact ⟨hc.left, fun y' _ => Q.waits_pos y'⟩

/-- A side that waits where it cannot go on has nothing to read. -/
theorem leftPending_of_wait {x : σ₁} (hx : s.lines.left.next = .wait x)
    (hidle : ¬ s.lines.LeftReady) : s.LeftPending x := by
  obtain ⟨⟨⟨es, n⟩, r, tr, tl, ll, rl⟩, a, b⟩ := s
  obtain rfl : n = .wait x := hx
  rw [Duplex.LeftReady, not_or, not_not, not_and, not_not] at hidle
  obtain ⟨rfl, hline⟩ : es = [] ∧ ((∃ z, Next.wait x = Next.wait z) → tl = []) := hidle
  exact ⟨rfl, hline ⟨x, rfl⟩⟩

theorem rightPending_of_wait {y : σ₂} (hy : s.lines.right.next = .wait y)
    (hidle : ¬ s.lines.RightReady) : s.RightPending y := by
  obtain ⟨⟨l, ⟨es, n⟩, tr, tl, ll, rl⟩, a, b⟩ := s
  obtain rfl : n = .wait y := hy
  rw [Duplex.RightReady, not_or, not_not, not_and, not_not] at hidle
  obtain ⟨rfl, hline⟩ : es = [] ∧ ((∃ z, Next.wait y = Next.wait z) → tr = []) := hidle
  exact ⟨rfl, hline ⟨y, rfl⟩⟩

theorem Calm.step (hc : Calm P Q s) (hsure : ¬ Tied P Q s) (ht : Step P Q s t) : Calm P Q t := by
  cases ht with
  | live hm h => exact hc.moved hm h
  | @expireLeft x d hx hd hidle hfirst =>
    have hlt : s.leftAge < P.waits x := hc.left x (by rw [hx.1])
    refine ⟨fun x' _ => P.waits_pos x', fun y hy => ?_⟩
    have hpending : s.RightPending y := rightPending_of_wait hy (by
      rcases hidle with hzero | hidle
      · omega
      · exact hidle)
    have hle := hfirst y hpending
    have hne : s.leftAge + Q.waits y ≠ s.rightAge + P.waits x :=
      fun he => hsure ⟨x, y, hx, hpending, he⟩
    show s.rightAge + d < Q.waits y
    omega
  | @expireRight y d hy hd hidle hfirst =>
    have hlt : s.rightAge < Q.waits y := hc.right y (by rw [hy.1])
    refine ⟨fun x hx => ?_, fun y' _ => Q.waits_pos y'⟩
    have hpending : s.LeftPending x := leftPending_of_wait hx (by
      rcases hidle with hzero | hidle
      · omega
      · exact hidle)
    have hle := hfirst x hpending
    have hne : s.leftAge + Q.waits y ≠ s.rightAge + P.waits x :=
      fun he => hsure ⟨x, y, hpending, hy, he⟩
    show s.leftAge + d < P.waits x
    omega

theorem leftPending_unique {x x' : σ₁} (h : s.LeftPending x) (h' : s.LeftPending x') : x = x' := by
  have heq := h.1.symm.trans h'.1
  cases heq
  rfl

theorem rightPending_unique {y y' : σ₂} (h : s.RightPending y) (h' : s.RightPending y') :
    y = y' := by
  have heq := h.1.symm.trans h'.1
  cases heq
  rfl

/-- A read that fails is the only thing that can happen. -/
theorem Step.expireLeft_unique {x : σ₁} {d : ℕ} (hc : Calm P Q s) (hsure : ¬ Tied P Q s)
    (hx : s.LeftPending x) (hd : s.leftAge + d = P.waits x) (hidle : d = 0 ∨ ¬ s.lines.RightReady)
    (hfirst : ∀ y, s.RightPending y → s.rightAge + d ≤ Q.waits y) (ht : Step P Q s t) :
    t = s.expiredLeft P x d := by
  have hlt : s.leftAge < P.waits x := hc.left x (by rw [hx.1])
  have hstuck : ¬ s.lines.RightReady := hidle.resolve_left (by omega)
  cases ht with
  | live hm h =>
    rcases ready_of_live hm h with ⟨-, hready⟩ | ⟨-, hready⟩
    · exact absurd hready (not_leftReady_of_pending hx)
    · exact absurd hready hstuck
  | @expireLeft x' d' hx' hd' _ _ =>
    obtain rfl := leftPending_unique hx hx'
    obtain rfl : d = d' := by omega
    rfl
  | @expireRight y d' hy hd' _ hfirst' =>
    have hle := hfirst y hy
    have hle' := hfirst' x hx
    have htied : s.leftAge + Q.waits y = s.rightAge + P.waits x := by omega
    exact absurd ⟨x, y, hx, hy, htied⟩ hsure

theorem Step.expireRight_unique {y : σ₂} {d : ℕ} (hc : Calm P Q s) (hsure : ¬ Tied P Q s)
    (hy : s.RightPending y) (hd : s.rightAge + d = Q.waits y) (hidle : d = 0 ∨ ¬ s.lines.LeftReady)
    (hfirst : ∀ x, s.LeftPending x → s.leftAge + d ≤ P.waits x) (ht : Step P Q s t) :
    t = s.expiredRight Q y d := by
  have hlt : s.rightAge < Q.waits y := hc.right y (by rw [hy.1])
  have hstuck : ¬ s.lines.LeftReady := hidle.resolve_left (by omega)
  cases ht with
  | live hm h =>
    rcases ready_of_live hm h with ⟨-, hready⟩ | ⟨-, hready⟩
    · exact absurd hready hstuck
    · exact absurd hready (not_rightReady_of_pending hy)
  | @expireLeft x d' hx hd' _ hfirst' =>
    have hle := hfirst x hx
    have hle' := hfirst' y hy
    have htied : s.leftAge + Q.waits y = s.rightAge + P.waits x := by omega
    exact absurd ⟨x, y, hx, hy, htied⟩ hsure
  | @expireRight y' d' hy' hd' _ _ =>
    obtain rfl := rightPending_unique hy hy'
    obtain rfl : d = d' := by omega
    rfl

/-! ### Determinacy -/

theorem moved_comm {m m' : Move} (hm : m.Live) (hm' : m'.Live) (hl : m.OfLeft) (hr : ¬ m'.OfLeft)
    (l l' l'' : Duplex β ε₁ σ₁ ρ₁ ε₂ σ₂ ρ₂) :
    (s.moved m l).moved m' l'' = (s.moved m' l').moved m l'' := by
  have hne : m ≠ .readRight := by
    rintro rfl
    simp [Move.OfLeft] at hl
  have hne' : m' ≠ .readLeft := by
    rintro rfl
    exact hr (.inr (.inl rfl))
  simp [moved, hne, hne']

/-- Moves of the two sides commute, and a side has one move at a time. -/
theorem live_join {m m' : Move} {l l' : Duplex β ε₁ σ₁ ρ₁ ε₂ σ₂ ρ₂} (hm : m.Live) (hm' : m'.Live)
    (h : Duplex.move P.toParty Q.toParty m s.lines = some l)
    (h' : Duplex.move P.toParty Q.toParty m' s.lines = some l') :
    s.moved m l = s.moved m' l' ∨ ∃ v, Step P Q (s.moved m l) v ∧ Step P Q (s.moved m' l') v ∧
      ¬ Tied P Q (s.moved m' l') := by
  by_cases hside : m.OfLeft ↔ m'.OfLeft
  · obtain rfl := Duplex.live_unique hm hm' hside h h'
    rw [h] at h'
    cases h'
    exact .inl rfl
  · refine .inr ?_
    by_cases hl : m.OfLeft
    · have hr : ¬ m'.OfLeft := fun hl' => hside ⟨fun _ => hl', fun _ => hl⟩
      obtain ⟨w, hw, hw'⟩ := Duplex.live_commute hm hm' hl hr h h'
      refine ⟨(s.moved m l).moved m' w, .live hm' hw, ?_, not_tied_of_live hm hw'⟩
      rw [moved_comm hm hm' hl hr l l' w]
      exact .live hm hw'
    · have hl' : m'.OfLeft := by
        by_contra hr
        exact hside ⟨fun hl'' => absurd hl'' hl, fun hl'' => absurd hl'' hr⟩
      obtain ⟨w, hw', hw⟩ := Duplex.live_commute hm' hm hl' hl h' h
      refine ⟨(s.moved m l).moved m' w, .live hm' hw, ?_, not_tied_of_live hm hw'⟩
      rw [← moved_comm hm' hm hl' hl l' l w]
      exact .live hm hw'

theorem not_step_of_final (hf : Duplex.Final s.lines) : ¬ Step P Q s t := by
  obtain ⟨⟨r, hl⟩, q, hr⟩ := hf
  intro ht
  cases ht with
  | live hm h =>
    rw [Duplex.Final.stuck ⟨⟨r, hl⟩, q, hr⟩] at h
    cases h
  | expireLeft hx _ _ _ =>
    have heq := hl.symm.trans hx.1
    cases heq
  | expireRight hy _ _ _ =>
    have heq := hr.symm.trans hy.1
    cases heq

/-- One complete run without a tie decides the first step of every other run. -/
theorem SureRun.next {k : ℕ} (h : SureRun P Q k s u) (hf : Duplex.Final u.lines)
    (hc : Calm P Q s) (hs : Step P Q s t) : ∃ j, k = j + 1 ∧ SureRun P Q j t u := by
  induction h generalizing t with
  | refl s => exact absurd hs (not_step_of_final hf)
  | @step k s v u hsure hv hrun ih =>
    refine ⟨k, rfl, ?_⟩
    cases hv with
    | @live m l hm h =>
      obtain ⟨m', l', hm', h', rfl⟩ := hc.live_of_live hm h hs
      rcases live_join hm hm' h h' with heq | ⟨w, hw, hw', hsure'⟩
      · rwa [← heq]
      · obtain ⟨j, rfl, hj⟩ := ih hf (hc.moved hm h) hw
        exact .step hsure' hw' hj
    | expireLeft hx hd hidle hfirst =>
      rwa [Step.expireLeft_unique hc hsure hx hd hidle hfirst hs]
    | expireRight hy hd hidle hfirst =>
      rwa [Step.expireRight_unique hc hsure hy hd hidle hfirst hs]

theorem Calm.of_sureRun_next {k : ℕ} (h : SureRun P Q k s u) (hf : Duplex.Final u.lines)
    (hc : Calm P Q s) (hs : Step P Q s t) : Calm P Q t := by
  cases h with
  | refl => exact absurd hs (not_step_of_final hf)
  | step hsure _ _ => exact hc.step hsure hs

theorem Run.complete {j k : ℕ} (h : SureRun P Q k s u) (hf : Duplex.Final u.lines)
    (hc : Calm P Q s) (hr : Run P Q j s t) : j ≤ k ∧ SureRun P Q (k - j) t u := by
  induction hr generalizing k with
  | refl s => exact ⟨Nat.zero_le k, h⟩
  | step hs _ ih =>
    obtain ⟨k', rfl, hk'⟩ := h.next hf hc hs
    obtain ⟨hle, hrun⟩ := ih hk' (hc.of_sureRun_next h hf hs)
    exact ⟨by omega, by rwa [Nat.add_sub_add_right]⟩

/-- Determinacy: one complete run without a tie settles the system. -/
theorem SureRun.settles {k : ℕ} {Post : Duplex β ε₁ σ₁ ρ₁ ε₂ σ₂ ρ₂ → Prop}
    (h : SureRun P Q k s u) (hf : Duplex.Final u.lines) (hc : Calm P Q s) (hu : Post u.lines) :
    Settles P Q s Post := by
  refine ⟨⟨k, fun j t hr => (hr.complete h hf hc).1⟩, ?_⟩
  intro j t hr hstuck
  obtain ⟨-, hrun⟩ := hr.complete h hf hc
  generalize k - j = i at hrun
  cases hrun with
  | refl => exact hu
  | step _ hs _ => exact absurd hs (hstuck _)

/-! ### Building complete runs -/

def Reaches (P : TimedParty β ε₁ σ₁ ρ₁) (Q : TimedParty β ε₂ σ₂ ρ₂)
    (s t : Timed β ε₁ σ₁ ρ₁ ε₂ σ₂ ρ₂) : Prop := ∃ k, SureRun P Q k s t

theorem Reaches.refl (s : Timed β ε₁ σ₁ ρ₁ ε₂ σ₂ ρ₂) : Reaches P Q s s := ⟨0, .refl s⟩

theorem Reaches.trans (h : Reaches P Q s t) (h' : Reaches P Q t u) : Reaches P Q s u := by
  obtain ⟨j, hj⟩ := h
  induction hj with
  | refl s => exact h'
  | step hsure hs _ ih =>
    obtain ⟨k, hk⟩ := ih h'
    exact ⟨k + 1, .step hsure hs hk⟩

theorem Reaches.settles {Post : Duplex β ε₁ σ₁ ρ₁ ε₂ σ₂ ρ₂ → Prop} (h : Reaches P Q s t)
    (hf : Duplex.Final t.lines) (hc : Calm P Q s) (ht : Post t.lines) : Settles P Q s Post := by
  obtain ⟨k, hk⟩ := h
  exact hk.settles hf hc ht

theorem reaches_live {m : Move} {l : Duplex β ε₁ σ₁ ρ₁ ε₂ σ₂ ρ₂} (hm : m.Live)
    (h : Duplex.move P.toParty Q.toParty m s.lines = some l) : Reaches P Q s (s.moved m l) :=
  ⟨1, .step (not_tied_of_live hm h) (.live hm h) (.refl _)⟩

/-- Moves take no time: no read gets older. -/
theorem reaches_moves {l l' : Duplex β ε₁ σ₁ ρ₁ ε₂ σ₂ ρ₂}
    (h : Duplex.Reaches P.toParty Q.toParty l l') (a b : ℕ) :
    ∃ a' b', a' ≤ a ∧ b' ≤ b ∧ Reaches P Q ⟨l, a, b⟩ ⟨l', a', b'⟩ := by
  obtain ⟨k, hk⟩ := h
  induction hk generalizing a b with
  | refl l => exact ⟨a, b, Nat.le_refl a, Nat.le_refl b, .refl _⟩
  | @step k m l v l' hm hv _ ih =>
    obtain ⟨a', b', ha, hb, hrest⟩ := ih (if m = .readLeft then 0 else a)
      (if m = .readRight then 0 else b)
    refine ⟨a', b', Nat.le_trans ha ?_, Nat.le_trans hb ?_, (reaches_live hm hv).trans hrest⟩
    · split <;> omega
    · split <;> omega

theorem reaches_of_lines {l l' : Duplex β ε₁ σ₁ ρ₁ ε₂ σ₂ ρ₂}
    (h : Duplex.Reaches P.toParty Q.toParty l l') : Reaches P Q ⟨l, 0, 0⟩ ⟨l', 0, 0⟩ := by
  obtain ⟨a, b, ha, hb, hrun⟩ := reaches_moves h 0 0
  obtain rfl : a = 0 := Nat.le_zero.mp ha
  obtain rfl : b = 0 := Nat.le_zero.mp hb
  exact hrun

theorem reaches_expireRight {y : σ₂} {d : ℕ} (hy : s.RightPending y)
    (hd : s.rightAge + d = Q.waits y) (hidle : ¬ s.lines.LeftReady)
    (hfirst : ∀ x, s.LeftPending x → s.leftAge + d < P.waits x) :
    Reaches P Q s (s.expiredRight Q y d) := by
  have hsure : ¬ Tied P Q s := by
    rintro ⟨x, y', hx, hy', htied⟩
    obtain rfl := rightPending_unique hy hy'
    have hlt := hfirst x hx
    omega
  exact ⟨1, .step hsure (.expireRight hy hd (.inr hidle) fun x hx => Nat.le_of_lt (hfirst x hx)) (.refl _)⟩

/-- When the left side has returned, the reads of the right side fail one after another. -/
theorem reaches_alone {k : ℕ} {n : Next σ₂ ρ₂} {es : List ε₂} {r : ρ₂}
    (hrun : run Q.resume n (List.replicate k .timeout) = ⟨es, .done r⟩) (q : ρ₁) (tl : List β)
    (ll : List ε₁) (rl : List ε₂) (a : ℕ) :
    ∃ a', Reaches P Q ⟨⟨⟨[], .done q⟩, ⟨[], n⟩, [], tl, ll, rl⟩, a, 0⟩
      ⟨⟨⟨[], .done q⟩, ⟨[], .done r⟩, [], tl ++ es.filterMap Q.wire, ll, rl ++ es⟩, a', 0⟩ := by
  have hleft : ∀ x, (⟨[], .done q⟩ : Out ε₁ σ₁ ρ₁) ≠ ⟨[], .wait x⟩ := by
    intro x hx
    cases hx
  induction k generalizing n es tl rl a with
  | zero =>
    rw [List.replicate_zero, run_nil] at hrun
    cases hrun
    refine ⟨a, ?_⟩
    rw [List.filterMap_nil, List.append_nil, List.append_nil]
    exact .refl _
  | succ k ih =>
    cases n with
    | done r' =>
      rw [run_done] at hrun
      cases hrun
      refine ⟨a, ?_⟩
      rw [List.filterMap_nil, List.append_nil, List.append_nil]
      exact .refl _
    | wait y =>
      rw [List.replicate_succ, run_wait] at hrun
      rcases hstep : Q.resume y .timeout with ⟨es₁, n₁⟩
      rcases hrest : run Q.resume n₁ (List.replicate k .timeout) with ⟨es₂, n₂⟩
      rw [hstep, hrest] at hrun
      obtain ⟨rfl, rfl⟩ : es₁ ++ es₂ = es ∧ n₂ = .done r := by
        cases hrun
        exact ⟨rfl, rfl⟩
      let s : Timed β ε₁ σ₁ ρ₁ ε₂ σ₂ ρ₂ := ⟨⟨⟨[], .done q⟩, ⟨[], .wait y⟩, [], tl, ll, rl⟩, a, 0⟩
      have hpending : s.RightPending y := ⟨rfl, rfl⟩
      have hidle : ¬ s.lines.LeftReady := by
        rintro (hevents | ⟨⟨x, hx⟩, -⟩)
        · exact hevents rfl
        · cases hx
      have hexpired : Reaches P Q s ⟨⟨⟨[], .done q⟩, ⟨es₁, n₁⟩, [], tl, ll, rl⟩, a + Q.waits y, 0⟩ := by
        rw [← hstep]
        exact reaches_expireRight hpending (Nat.zero_add _) hidle fun x hx => absurd hx.1 (hleft x)
      obtain ⟨a₁, b₁, -, hb, hflush⟩ := reaches_moves (P := P) (Q := Q)
        (Duplex.flushRight ⟨[], .done q⟩ es₁ n₁ [] tl ll rl) (a + Q.waits y) 0
      obtain rfl : b₁ = 0 := Nat.le_zero.mp hb
      obtain ⟨a₂, hlast⟩ := ih hrest (tl ++ es₁.filterMap Q.wire) (rl ++ es₁) a₁
      refine ⟨a₂, ?_⟩
      rw [List.filterMap_append, ← List.append_assoc, ← List.append_assoc]
      exact hexpired.trans (hflush.trans hlast)

theorem calm_start (l : Duplex β ε₁ σ₁ ρ₁ ε₂ σ₂ ρ₂) : Calm P Q ⟨l, 0, 0⟩ :=
  ⟨fun x _ => P.waits_pos x, fun y _ => Q.waits_pos y⟩

/-! ### The right side on its own -/

theorem Step.rightSide (h : Step P Q s t) : ∃ reads, t.lines.rightSide =
    (run Q.resume s.lines.rightSide.next reads).after s.lines.rightSide.events := by
  cases h with
  | live hm h => exact (Duplex.Reaches.move hm h (.refl _)).rightSide
  | expireLeft =>
    refine ⟨[], ?_⟩
    rw [run_nil]
    simp [Duplex.rightSide, expiredLeft, Out.after]
  | @expireRight y d hy =>
    refine ⟨[.timeout], ?_⟩
    have hnext : s.lines.rightSide.next = .wait y := by
      simp [Duplex.rightSide, hy.1]
    rw [hnext, run_wait, run_nil]
    simp [Duplex.rightSide, expiredRight, Out.after, hy.1]

/-- The log of the right side is that of a run of its process. -/
theorem Reaches.rightSide (h : Reaches P Q s t) : ∃ reads, t.lines.rightSide =
    (run Q.resume s.lines.rightSide.next reads).after s.lines.rightSide.events := by
  obtain ⟨k, hk⟩ := h
  induction hk with
  | refl s =>
    refine ⟨[], ?_⟩
    rw [run_nil]
    simp [Out.after]
  | step _ hs _ ih =>
    obtain ⟨first, hfirst⟩ := hs.rightSide
    obtain ⟨rest, hrest⟩ := ih
    refine ⟨first ++ rest, ?_⟩
    rw [hrest, hfirst, run_append, Out.after_after, Out.after_next, Out.after_events]

end Timed

end ZephyrModem.Reactive
