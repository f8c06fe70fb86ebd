import ZephyrModem.Reactive.Process

/-!
# Two processes joined by FIFO channels

The left and the right process run concurrently, joined by one FIFO channel in
each direction. An event of a process may put one item on its outgoing channel.
Events are performed one at a time, so that the other side can read, or time
out, between any two of them. A read takes the oldest item of the incoming
channel; it may fail only while that channel is empty.

The main result is the determinacy of patient runs: when reads fail only if the
other side is stuck, one complete run decides every other one.
-/

namespace ZephyrModem.Reactive

/-- A process seen from the line: its reaction, and the item an event sends. -/
structure Party (β ε σ ρ : Type) where
  resume : Resume (ReadResult β) ε σ ρ
  wire : ε → Option β

/-- State of the joined system. `left.events` and `right.events` are the events
of the last reaction that are still to be performed. -/
structure Duplex (β ε₁ σ₁ ρ₁ ε₂ σ₂ ρ₂ : Type) where
  left : Out ε₁ σ₁ ρ₁
  right : Out ε₂ σ₂ ρ₂
  toRight : List β
  toLeft : List β
  leftLog : List ε₁
  rightLog : List ε₂

/-- The moves of the joined system: one side performs its next event, reads the
oldest item, or has its read fail. -/
inductive Move where
  | emitLeft
  | emitRight
  | readLeft
  | readRight
  | failLeft
  | failRight
  deriving Repr, DecidableEq

/-- A move that is not a failing read. -/
def Move.Live (m : Move) : Prop := m ≠ .failLeft ∧ m ≠ .failRight

def Move.OfLeft (m : Move) : Prop := m = .emitLeft ∨ m = .readLeft ∨ m = .failLeft

theorem Move.live_cases {m : Move} (h : m.Live) :
    (m.OfLeft ∧ (m = .emitLeft ∨ m = .readLeft)) ∨
      (¬ m.OfLeft ∧ (m = .emitRight ∨ m = .readRight)) := by
  cases m <;> simp_all [Move.Live, Move.OfLeft]

namespace Duplex

variable {β ε₁ σ₁ ρ₁ ε₂ σ₂ ρ₂ : Type}

/-- Both processes before their first event, the channels empty. -/
def init (l : Out ε₁ σ₁ ρ₁) (r : Out ε₂ σ₂ ρ₂) : Duplex β ε₁ σ₁ ρ₁ ε₂ σ₂ ρ₂ :=
  ⟨l, r, [], [], [], []⟩

/-- A state after which nothing can happen: both have returned. -/
def Final (s : Duplex β ε₁ σ₁ ρ₁ ε₂ σ₂ ρ₂) : Prop :=
  (∃ r, s.left = ⟨[], .done r⟩) ∧ ∃ r, s.right = ⟨[], .done r⟩

/-- The left side can move without a failing read. -/
def LeftReady (s : Duplex β ε₁ σ₁ ρ₁ ε₂ σ₂ ρ₂) : Prop :=
  s.left.events ≠ [] ∨ (∃ x, s.left.next = .wait x) ∧ s.toLeft ≠ []

def RightReady (s : Duplex β ε₁ σ₁ ρ₁ ε₂ σ₂ ρ₂) : Prop :=
  s.right.events ≠ [] ∨ (∃ x, s.right.next = .wait x) ∧ s.toRight ≠ []

variable (P : Party β ε₁ σ₁ ρ₁) (Q : Party β ε₂ σ₂ ρ₂)

/-- The effect of one move, when it is enabled. -/
def move (m : Move) (s : Duplex β ε₁ σ₁ ρ₁ ε₂ σ₂ ρ₂) : Option (Duplex β ε₁ σ₁ ρ₁ ε₂ σ₂ ρ₂) :=
  match m with
  | .emitLeft =>
    match s.left with
    | ⟨e :: es, n⟩ => some { s with
        left := ⟨es, n⟩, toRight := s.toRight ++ (P.wire e).toList, leftLog := s.leftLog ++ [e] }
    | ⟨[], _⟩ => none
  | .emitRight =>
    match s.right with
    | ⟨e :: es, n⟩ => some { s with
        right := ⟨es, n⟩, toLeft := s.toLeft ++ (Q.wire e).toList, rightLog := s.rightLog ++ [e] }
    | ⟨[], _⟩ => none
  | .readLeft =>
    match s.left, s.toLeft with
    | ⟨[], .wait x⟩, b :: q => some { s with left := P.resume x (.ok b), toLeft := q }
    | _, _ => none
  | .readRight =>
    match s.right, s.toRight with
    | ⟨[], .wait x⟩, b :: q => some { s with right := Q.resume x (.ok b), toRight := q }
    | _, _ => none
  | .failLeft =>
    match s.left, s.toLeft with
    | ⟨[], .wait x⟩, [] => some { s with left := P.resume x .timeout }
    | _, _ => none
  | .failRight =>
    match s.right, s.toRight with
    | ⟨[], .wait x⟩, [] => some { s with right := Q.resume x .timeout }
    | _, _ => none

theorem sent_emit {ε : Type} (wire : ε → Option β) (q : List β) (e : ε) (es : List ε) :
    q ++ (wire e).toList ++ es.filterMap wire = q ++ (e :: es).filterMap wire := by
  rw [List.append_assoc]
  cases he : wire e <;> simp [he]

/-! ### What each move does -/

section Inversion

variable {P Q} {s s' : Duplex β ε₁ σ₁ ρ₁ ε₂ σ₂ ρ₂}

theorem move_emitLeft : move P Q .emitLeft s = some s' ↔ ∃ e es n, s.left = ⟨e :: es, n⟩ ∧
    s' = { s with
      left := ⟨es, n⟩, toRight := s.toRight ++ (P.wire e).toList, leftLog := s.leftLog ++ [e] } := by
  obtain ⟨⟨_ | ⟨e, es⟩, n⟩, r, a, b, c, d⟩ := s <;> simp [move, eq_comm]

theorem move_emitRight : move P Q .emitRight s = some s' ↔ ∃ e es n, s.right = ⟨e :: es, n⟩ ∧
    s' = { s with
      right := ⟨es, n⟩, toLeft := s.toLeft ++ (Q.wire e).toList, rightLog := s.rightLog ++ [e] } := by
  obtain ⟨l, ⟨_ | ⟨e, es⟩, n⟩, a, b, c, d⟩ := s <;> simp [move, eq_comm]

theorem move_readLeft : move P Q .readLeft s = some s' ↔ ∃ x b q, s.left = ⟨[], .wait x⟩ ∧
    s.toLeft = b :: q ∧ s' = { s with left := P.resume x (.ok b), toLeft := q } := by
  obtain ⟨⟨_ | ⟨e, es⟩, n | n⟩, r, a, _ | ⟨b, q⟩, c, d⟩ := s <;> simp [move, eq_comm]

theorem move_readRight : move P Q .readRight s = some s' ↔ ∃ x b q, s.right = ⟨[], .wait x⟩ ∧
    s.toRight = b :: q ∧ s' = { s with right := Q.resume x (.ok b), toRight := q } := by
  obtain ⟨l, ⟨_ | ⟨e, es⟩, n | n⟩, _ | ⟨b, q⟩, a, c, d⟩ := s <;> simp [move, eq_comm]

theorem move_failLeft : move P Q .failLeft s = some s' ↔ ∃ x, s.left = ⟨[], .wait x⟩ ∧
    s.toLeft = [] ∧ s' = { s with left := P.resume x .timeout } := by
  obtain ⟨⟨_ | ⟨e, es⟩, n | n⟩, r, a, _ | ⟨b, q⟩, c, d⟩ := s <;> simp [move, eq_comm]

theorem move_failRight : move P Q .failRight s = some s' ↔ ∃ x, s.right = ⟨[], .wait x⟩ ∧
    s.toRight = [] ∧ s' = { s with right := Q.resume x .timeout } := by
  obtain ⟨l, ⟨_ | ⟨e, es⟩, n | n⟩, _ | ⟨b, q⟩, a, c, d⟩ := s <;> simp [move, eq_comm]

theorem move_left_cases {m : Move} (h : move P Q m s = some s') : s'.left = s.left ∨
    (∃ e es n, s.left = ⟨e :: es, n⟩ ∧ s'.left = ⟨es, n⟩) ∨
    ∃ x r, s.left = ⟨[], .wait x⟩ ∧ s'.left = P.resume x r := by
  cases m with
  | emitLeft =>
    obtain ⟨e, es, n, hl, rfl⟩ := move_emitLeft.mp h
    exact .inr (.inl ⟨e, es, n, hl, rfl⟩)
  | emitRight =>
    obtain ⟨e, es, n, -, rfl⟩ := move_emitRight.mp h
    exact .inl rfl
  | readLeft =>
    obtain ⟨x, b, q, hl, -, rfl⟩ := move_readLeft.mp h
    exact .inr (.inr ⟨x, .ok b, hl, rfl⟩)
  | readRight =>
    obtain ⟨x, b, q, -, -, rfl⟩ := move_readRight.mp h
    exact .inl rfl
  | failLeft =>
    obtain ⟨x, hl, -, rfl⟩ := move_failLeft.mp h
    exact .inr (.inr ⟨x, .timeout, hl, rfl⟩)
  | failRight =>
    obtain ⟨x, -, -, rfl⟩ := move_failRight.mp h
    exact .inl rfl

end Inversion

/-! ### Patient runs -/

/-- A step whose read, if it fails, fails because the other side is stuck. -/
def PatientStep (s s' : Duplex β ε₁ σ₁ ρ₁ ε₂ σ₂ ρ₂) : Prop :=
  ∃ m, move P Q m s = some s' ∧ (m = .failLeft → ¬ s.RightReady) ∧ (m = .failRight → ¬ s.LeftReady)

inductive PatientRun : ℕ → Duplex β ε₁ σ₁ ρ₁ ε₂ σ₂ ρ₂ → Duplex β ε₁ σ₁ ρ₁ ε₂ σ₂ ρ₂ → Prop
  | refl (s) : PatientRun 0 s s
  | step {k s t u} : PatientStep P Q s t → PatientRun k t u → PatientRun (k + 1) s u

/-- A run of `k` moves without a failing read. -/
inductive LiveRun : ℕ → Duplex β ε₁ σ₁ ρ₁ ε₂ σ₂ ρ₂ → Duplex β ε₁ σ₁ ρ₁ ε₂ σ₂ ρ₂ → Prop
  | refl (s) : LiveRun 0 s s
  | step {k m s t u} : Move.Live m → move P Q m s = some t → LiveRun k t u → LiveRun (k + 1) s u

variable {P Q} {s t u : Duplex β ε₁ σ₁ ρ₁ ε₂ σ₂ ρ₂}

theorem LiveRun.trans {j k : ℕ} (h : LiveRun P Q j s t) (h' : LiveRun P Q k t u) :
    LiveRun P Q (j + k) s u := by
  induction h with
  | refl s => simpa using h'
  | @step j m s t v hm hs _ ih =>
    rw [Nat.add_right_comm]
    exact .step hm hs (ih h')

theorem Final.stuck (hf : Final s) (m : Move) : move P Q m s = none := by
  obtain ⟨⟨r, hl⟩, q, hr⟩ := hf
  cases m <;> simp [move, hl, hr]

theorem live_unique {m m' : Move} (hm : m.Live) (hm' : m'.Live) (hside : m.OfLeft ↔ m'.OfLeft)
    (h : move P Q m s = some t) (h' : move P Q m' s = some u) : m = m' := by
  rcases Move.live_cases hm with ⟨hl, rfl | rfl⟩ | ⟨hl, rfl | rfl⟩ <;>
  rcases Move.live_cases hm' with ⟨hl', rfl | rfl⟩ | ⟨hl', rfl | rfl⟩ <;>
  simp only [move_emitLeft, move_emitRight, move_readLeft, move_readRight] at h h' <;> grind

theorem live_commute {m m' : Move} (hm : m.Live) (hm' : m'.Live) (hl : m.OfLeft)
    (hr : ¬ m'.OfLeft) (h : move P Q m s = some t) (h' : move P Q m' s = some u) :
    ∃ v, move P Q m' t = some v ∧ move P Q m u = some v := by
  rcases Move.live_cases hm with ⟨-, hm⟩ | ⟨hn, -⟩
  swap
  · exact absurd hl hn
  rcases Move.live_cases hm' with ⟨hn, -⟩ | ⟨-, hm'⟩
  · exact absurd hn hr
  rcases hm with rfl | rfl <;> rcases hm' with rfl | rfl
  · obtain ⟨e, es, n, hs, rfl⟩ := move_emitLeft.mp h
    obtain ⟨e', es', n', hs', rfl⟩ := move_emitRight.mp h'
    exact ⟨_, move_emitRight.mpr ⟨e', es', n', hs', rfl⟩, move_emitLeft.mpr ⟨e, es, n, hs, rfl⟩⟩
  · obtain ⟨e, es, n, hs, rfl⟩ := move_emitLeft.mp h
    obtain ⟨x, b, q, hx, hq, rfl⟩ := move_readRight.mp h'
    exact ⟨_, move_readRight.mpr ⟨x, b, q ++ (P.wire e).toList, hx, by simp [hq], rfl⟩,
      move_emitLeft.mpr ⟨e, es, n, hs, rfl⟩⟩
  · obtain ⟨x, b, q, hx, hq, rfl⟩ := move_readLeft.mp h
    obtain ⟨e', es', n', hs', rfl⟩ := move_emitRight.mp h'
    exact ⟨_, move_emitRight.mpr ⟨e', es', n', hs', rfl⟩,
      move_readLeft.mpr ⟨x, b, q ++ (Q.wire e').toList, hx, by simp [hq], rfl⟩⟩
  · obtain ⟨x, b, q, hx, hq, rfl⟩ := move_readLeft.mp h
    obtain ⟨x', b', q', hx', hq', rfl⟩ := move_readRight.mp h'
    exact ⟨_, move_readRight.mpr ⟨x', b', q', hx', hq', rfl⟩,
      move_readLeft.mpr ⟨x, b, q, hx, hq, rfl⟩⟩

theorem leftReady_of_live {m : Move} (hm : m.Live) (hl : m.OfLeft) (h : move P Q m s = some t) :
    s.LeftReady := by
  rcases Move.live_cases hm with ⟨-, rfl | rfl⟩ | ⟨hn, -⟩
  · obtain ⟨e, es, n, hs, -⟩ := move_emitLeft.mp h
    exact .inl (by simp [hs])
  · obtain ⟨x, b, q, hx, hq, -⟩ := move_readLeft.mp h
    exact .inr ⟨⟨x, by simp [hx]⟩, by simp [hq]⟩
  · exact absurd hl hn

theorem rightReady_of_live {m : Move} (hm : m.Live) (hr : ¬ m.OfLeft)
    (h : move P Q m s = some t) : s.RightReady := by
  rcases Move.live_cases hm with ⟨hn, -⟩ | ⟨-, rfl | rfl⟩
  · exact absurd hn hr
  · obtain ⟨e, es, n, hs, -⟩ := move_emitRight.mp h
    exact .inl (by simp [hs])
  · obtain ⟨x, b, q, hx, hq, -⟩ := move_readRight.mp h
    exact .inr ⟨⟨x, by simp [hx]⟩, by simp [hq]⟩

/-- Where a live move is enabled, a patient step is live: a read that fails
needs its own side to have nothing to do and the other side to be stuck. -/
theorem PatientStep.live {m m' : Move} (hm : m.Live) (h : move P Q m s = some t)
    (h' : move P Q m' s = some u) (hl : m' = .failLeft → ¬ s.RightReady)
    (hr : m' = .failRight → ¬ s.LeftReady) : m'.Live := by
  constructor
  · rintro rfl
    by_cases hside : m.OfLeft
    · obtain ⟨x, hx, hq, -⟩ := move_failLeft.mp h'
      rcases leftReady_of_live hm hside h with he | ⟨-, he⟩
      · exact he (by simp [hx])
      · exact he hq
    · exact hl rfl (rightReady_of_live hm hside h)
  · rintro rfl
    by_cases hside : m.OfLeft
    · exact hr rfl (leftReady_of_live hm hside h)
    · obtain ⟨x, hx, hq, -⟩ := move_failRight.mp h'
      rcases rightReady_of_live hm hside h with he | ⟨-, he⟩
      · exact he (by simp [hx])
      · exact he hq

/-- One complete live run decides the first step of every other run: whatever
step is taken, the rest of a run of the same length leads to the same end. -/
theorem LiveRun.next {k : ℕ} (h : LiveRun P Q k s u) (hf : Final u) (hs : PatientStep P Q s t) :
    ∃ j, k = j + 1 ∧ LiveRun P Q j t u := by
  induction h generalizing t with
  | refl s =>
    obtain ⟨m, hm, -⟩ := hs
    rw [hf.stuck] at hm
    cases hm
  | @step k m s v u hm hv hrun ih =>
    refine ⟨k, rfl, ?_⟩
    obtain ⟨m', hm', hl, hr⟩ := hs
    have live' : m'.Live := PatientStep.live hm hv hm' hl hr
    by_cases hside : m.OfLeft ↔ m'.OfLeft
    · obtain rfl := live_unique hm live' hside hv hm'
      rw [hv] at hm'
      cases hm'
      exact hrun
    · have hw : ∃ w, move P Q m' v = some w ∧ move P Q m t = some w := by
        by_cases hl : m.OfLeft
        · exact live_commute hm live' hl (by tauto) hv hm'
        · have hl' : m'.OfLeft := by
            by_contra hn
            exact hside ⟨fun h => absurd h hl, fun h => absurd h hn⟩
          obtain ⟨w, h₁, h₂⟩ := live_commute live' hm hl' hl hm' hv
          exact ⟨w, h₂, h₁⟩
      obtain ⟨w, hvw, htw⟩ := hw
      obtain ⟨j, rfl, hj⟩ := ih hf ⟨m', hvw, fun e => absurd e live'.1, fun e => absurd e live'.2⟩
      exact .step hm htw hj

/-- Determinacy: if one live run is complete, every patient run can be extended
to the same final state, and no patient run is longer. -/
theorem PatientRun.complete {j k : ℕ} (h : LiveRun P Q k s u) (hf : Final u)
    (hr : PatientRun P Q j s t) : j ≤ k ∧ LiveRun P Q (k - j) t u := by
  induction hr generalizing k with
  | refl s => exact ⟨Nat.zero_le k, h⟩
  | step hs _ ih =>
    obtain ⟨k', rfl, hk'⟩ := h.next hf hs
    obtain ⟨hle, hrun⟩ := ih hk'
    exact ⟨by omega, by rwa [Nat.add_sub_add_right]⟩

theorem PatientRun.final_of_stuck {j k : ℕ} (h : LiveRun P Q k s u) (hf : Final u)
    (hr : PatientRun P Q j s t) (hstuck : ∀ v, ¬ PatientStep P Q t v) : t = u := by
  obtain ⟨-, hrun⟩ := hr.complete h hf
  generalize k - j = i at hrun
  cases hrun with
  | refl => rfl
  | step hm hv _ =>
    exact absurd ⟨_, hv, fun e => absurd e hm.1, fun e => absurd e hm.2⟩ (hstuck _)

/-- Every patient run from `s` ends, and where it cannot go on `Post` holds. -/
def Settles (P : Party β ε₁ σ₁ ρ₁) (Q : Party β ε₂ σ₂ ρ₂) (s : Duplex β ε₁ σ₁ ρ₁ ε₂ σ₂ ρ₂)
    (Post : Duplex β ε₁ σ₁ ρ₁ ε₂ σ₂ ρ₂ → Prop) : Prop :=
  (∃ k, ∀ j t, PatientRun P Q j s t → j ≤ k) ∧
    ∀ j t, PatientRun P Q j s t → (∀ u, ¬ PatientStep P Q t u) → Post t

theorem LiveRun.settles {k : ℕ} {Post : Duplex β ε₁ σ₁ ρ₁ ε₂ σ₂ ρ₂ → Prop}
    (h : LiveRun P Q k s u) (hf : Final u) (hu : Post u) : Settles P Q s Post := by
  refine ⟨⟨k, fun j t hr => (hr.complete h hf).1⟩, ?_⟩
  intro j t hr hstuck
  rw [hr.final_of_stuck h hf hstuck]
  exact hu

/-! ### Building complete runs -/

/-- Some live run leads from `s` to `t`. -/
def Reaches (P : Party β ε₁ σ₁ ρ₁) (Q : Party β ε₂ σ₂ ρ₂)
    (s t : Duplex β ε₁ σ₁ ρ₁ ε₂ σ₂ ρ₂) : Prop := ∃ k, LiveRun P Q k s t

theorem Reaches.refl (s : Duplex β ε₁ σ₁ ρ₁ ε₂ σ₂ ρ₂) : Reaches P Q s s := ⟨0, .refl s⟩

theorem Reaches.trans (h : Reaches P Q s t) (h' : Reaches P Q t u) : Reaches P Q s u := by
  obtain ⟨j, hj⟩ := h
  obtain ⟨k, hk⟩ := h'
  exact ⟨j + k, hj.trans hk⟩

theorem Reaches.move {m : Move} (hm : m.Live) (h : move P Q m s = some t)
    (h' : Reaches P Q t u) : Reaches P Q s u := by
  obtain ⟨k, hk⟩ := h'
  exact ⟨k + 1, .step hm h hk⟩

def swap (s : Duplex β ε₁ σ₁ ρ₁ ε₂ σ₂ ρ₂) : Duplex β ε₂ σ₂ ρ₂ ε₁ σ₁ ρ₁ :=
  ⟨s.right, s.left, s.toLeft, s.toRight, s.rightLog, s.leftLog⟩

theorem move_swap {m : Move} (hm : m.Live) (h : move P Q m s = some t) :
    ∃ m' : Move, m'.Live ∧ move Q P m' s.swap = some t.swap := by
  rcases Move.live_cases hm with ⟨-, rfl | rfl⟩ | ⟨-, rfl | rfl⟩
  · obtain ⟨e, es, n, hs, rfl⟩ := move_emitLeft.mp h
    exact ⟨.emitRight, by simp [Move.Live], move_emitRight.mpr ⟨e, es, n, hs, rfl⟩⟩
  · obtain ⟨x, b, q, hx, hq, rfl⟩ := move_readLeft.mp h
    exact ⟨.readRight, by simp [Move.Live], move_readRight.mpr ⟨x, b, q, hx, hq, rfl⟩⟩
  · obtain ⟨e, es, n, hs, rfl⟩ := move_emitRight.mp h
    exact ⟨.emitLeft, by simp [Move.Live], move_emitLeft.mpr ⟨e, es, n, hs, rfl⟩⟩
  · obtain ⟨x, b, q, hx, hq, rfl⟩ := move_readRight.mp h
    exact ⟨.readLeft, by simp [Move.Live], move_readLeft.mpr ⟨x, b, q, hx, hq, rfl⟩⟩

theorem Reaches.swap (h : Reaches P Q s t) : Reaches Q P s.swap t.swap := by
  obtain ⟨k, hk⟩ := h
  induction hk with
  | refl s => exact .refl _
  | step hm hs _ ih =>
    obtain ⟨m', hm', hs'⟩ := move_swap hm hs
    exact ih.move hm' hs'

theorem flushRight (l : Out ε₁ σ₁ ρ₁) (es : List ε₂) (n : Next σ₂ ρ₂) (tr tl : List β)
    (ll : List ε₁) (rl : List ε₂) :
    Reaches P Q ⟨l, ⟨es, n⟩, tr, tl, ll, rl⟩
      ⟨l, ⟨[], n⟩, tr, tl ++ es.filterMap Q.wire, ll, rl ++ es⟩ := by
  induction es generalizing tl rl with
  | nil => simpa using Reaches.refl _
  | cons e es ih =>
    refine Reaches.move (m := .emitRight) (by simp [Move.Live])
      (move_emitRight.mpr ⟨e, es, n, rfl, rfl⟩) ?_
    have h := ih (tl ++ (Q.wire e).toList) (rl ++ [e])
    cases hw : Q.wire e <;> simpa [hw] using h

theorem readsLeft (x : σ₁) (r : Out ε₂ σ₂ ρ₂) (b : β) (tr tl : List β) (ll : List ε₁)
    (rl : List ε₂) :
    Reaches P Q ⟨⟨[], .wait x⟩, r, tr, b :: tl, ll, rl⟩ ⟨P.resume x (.ok b), r, tr, tl, ll, rl⟩ :=
  Reaches.move (m := .readLeft) (by simp [Move.Live])
    (move_readLeft.mpr ⟨x, b, tl, rfl, rfl, rfl⟩) (.refl _)

theorem readsRight (x : σ₂) (l : Out ε₁ σ₁ ρ₁) (b : β) (tr tl : List β) (ll : List ε₁)
    (rl : List ε₂) :
    Reaches P Q ⟨l, ⟨[], .wait x⟩, b :: tr, tl, ll, rl⟩ ⟨l, Q.resume x (.ok b), tr, tl, ll, rl⟩ :=
  Reaches.move (m := .readRight) (by simp [Move.Live])
    (move_readRight.mpr ⟨x, b, tr, rfl, rfl, rfl⟩) (.refl _)

theorem feedRight {x y : σ₂} {bs : List β} {es : List ε₂} (l : Out ε₁ σ₁ ρ₁) (tr tl : List β)
    (ll : List ε₁) (rl : List ε₂)
    (h : run Q.resume (.wait x) (bs.map .ok) = ⟨es, .wait y⟩) :
    Reaches P Q ⟨l, ⟨[], .wait x⟩, bs ++ tr, tl, ll, rl⟩
      ⟨l, ⟨[], .wait y⟩, tr, tl ++ es.filterMap Q.wire, ll, rl ++ es⟩ := by
  induction bs generalizing x es tl rl with
  | nil =>
    simp only [List.map_nil, run_nil, Out.mk.injEq, Next.wait.injEq] at h
    obtain ⟨rfl, rfl⟩ := h
    simpa using Reaches.refl _
  | cons b bs ih =>
    rw [List.map_cons, run_wait] at h
    rcases hr : Q.resume x (.ok b) with ⟨es₁, n₁⟩
    refine Reaches.move (m := .readRight) (by simp [Move.Live])
      (move_readRight.mpr ⟨x, b, bs ++ tr, rfl, rfl, rfl⟩) ?_
    rw [hr] at h ⊢
    refine (flushRight l es₁ n₁ (bs ++ tr) tl ll rl).trans ?_
    cases n₁ with
    | done r => simp [Out.after] at h
    | wait z =>
      rcases hz : run Q.resume (.wait z) (bs.map .ok) with ⟨es₂, n₂⟩
      simp only [hz, Out.after, Out.mk.injEq] at h
      obtain ⟨rfl, rfl⟩ := h
      have hrest := ih (tl ++ es₁.filterMap Q.wire) (rl ++ es₁) hz
      simpa [List.filterMap_append] using hrest

theorem feedRight_last {x y : σ₂} {bs : List β} {b : β} {es es' : List ε₂} {n : Next σ₂ ρ₂}
    (l : Out ε₁ σ₁ ρ₁) (tr tl : List β) (ll : List ε₁) (rl : List ε₂)
    (h : run Q.resume (.wait x) (bs.map .ok) = ⟨es, .wait y⟩)
    (hlast : Q.resume y (.ok b) = ⟨es', n⟩) :
    Reaches P Q ⟨l, ⟨[], .wait x⟩, bs ++ b :: tr, tl, ll, rl⟩
      ⟨l, ⟨[], n⟩, tr, tl ++ (es ++ es').filterMap Q.wire, ll, rl ++ (es ++ es')⟩ := by
  refine (feedRight l (b :: tr) tl ll rl h).trans ?_
  refine Reaches.move (m := .readRight) (by simp [Move.Live])
    (move_readRight.mpr ⟨y, b, tr, rfl, rfl, rfl⟩) ?_
  rw [hlast]
  simpa [List.filterMap_append] using
    flushRight (P := P) l es' n tr (tl ++ es.filterMap Q.wire) ll (rl ++ es)

theorem feedRight_done {x : σ₂} {bs : List β} {es : List ε₂} {q : ρ₂} (l : Out ε₁ σ₁ ρ₁)
    (tr tl : List β) (ll : List ε₁) (rl : List ε₂)
    (h : feed Q.resume (.wait x) bs = ⟨es, .done q⟩) :
    ∃ left, Reaches P Q ⟨l, ⟨[], .wait x⟩, bs ++ tr, tl, ll, rl⟩
      ⟨l, ⟨[], .done q⟩, left ++ tr, tl ++ es.filterMap Q.wire, ll, rl ++ es⟩ := by
  obtain ⟨init, b, rest, es₁, es₂, t, rfl, rfl, hinit, hlast⟩ := feed_done_split Q.resume h
  refine ⟨rest, ?_⟩
  rw [List.append_assoc, List.cons_append]
  exact feedRight_last l (rest ++ tr) tl ll rl hinit hlast

theorem flushLeft (es : List ε₁) (n : Next σ₁ ρ₁) (r : Out ε₂ σ₂ ρ₂) (tr tl : List β)
    (ll : List ε₁) (rl : List ε₂) :
    Reaches P Q ⟨⟨es, n⟩, r, tr, tl, ll, rl⟩
      ⟨⟨[], n⟩, r, tr ++ es.filterMap P.wire, tl, ll ++ es, rl⟩ :=
  (flushRight (P := Q) (Q := P) r es n tl tr rl ll).swap

theorem feedLeft_done {x : σ₁} {bs : List β} {es : List ε₁} {q : ρ₁} (r : Out ε₂ σ₂ ρ₂)
    (tr tl : List β) (ll : List ε₁) (rl : List ε₂)
    (h : feed P.resume (.wait x) bs = ⟨es, .done q⟩) :
    ∃ left, Reaches P Q ⟨⟨[], .wait x⟩, r, tr, bs ++ tl, ll, rl⟩
      ⟨⟨[], .done q⟩, r, tr ++ es.filterMap P.wire, left ++ tl, ll ++ es, rl⟩ := by
  obtain ⟨left, hreach⟩ := feedRight_done (P := Q) (Q := P) r tl tr rl ll h
  exact ⟨left, hreach.swap⟩

/-! ### Runs that do not settle -/

theorem LiveRun.patient {k : ℕ} (h : LiveRun P Q k s t) : PatientRun P Q k s t := by
  induction h with
  | refl s => exact .refl s
  | step hm hs _ ih =>
    exact .step ⟨_, hs, fun e => absurd e hm.1, fun e => absurd e hm.2⟩ ih

theorem PatientRun.trans {j k : ℕ} (h : PatientRun P Q j s t) (h' : PatientRun P Q k t u) :
    PatientRun P Q (j + k) s u := by
  induction h with
  | refl s => simpa using h'
  | step hs _ ih =>
    rw [Nat.add_right_comm]
    exact .step hs (ih h')

theorem PatientRun.left_done {k : ℕ} {q : ρ₁} (h : PatientRun P Q k s t)
    (hs : s.left = ⟨[], .done q⟩) : t.left = ⟨[], .done q⟩ := by
  induction h with
  | refl s => exact hs
  | step hstep _ ih =>
    refine ih ?_
    obtain ⟨m, hm, -⟩ := hstep
    rcases move_left_cases hm with ht | ⟨e, es, n, hl, -⟩ | ⟨x, r, hl, -⟩
    · exact ht.trans hs
    · rw [hs] at hl
      cases hl
    · rw [hs] at hl
      cases hl

theorem exists_stuck {k : ℕ} (h : ∀ j t, PatientRun P Q j s t → j ≤ k) :
    ∃ j t, PatientRun P Q j s t ∧ ∀ u, ¬ PatientStep P Q t u := by
  by_contra hgo
  push Not at hgo
  -- then there are runs of every length
  have hlong : ∀ n, ∃ t, PatientRun P Q n s t := by
    intro n
    induction n with
    | zero => exact ⟨s, .refl s⟩
    | succ n ih =>
      obtain ⟨t, ht⟩ := ih
      obtain ⟨u, hu⟩ := hgo n t ht
      exact ⟨u, ht.trans (.step hu (.refl u))⟩
  obtain ⟨t, ht⟩ := hlong (k + 1)
  have := h (k + 1) t ht
  omega

/-- A system whose left side can return `q` does not settle where it must not. -/
theorem not_settles_of_left_done {q : ρ₁} {Post : Duplex β ε₁ σ₁ ρ₁ ε₂ σ₂ ρ₂ → Prop}
    (h : Reaches P Q s t) (ht : t.left = ⟨[], .done q⟩)
    (hpost : ∀ u, Post u → u.left ≠ ⟨[], .done q⟩) : ¬ Settles P Q s Post := by
  rintro ⟨⟨k, hbound⟩, hend⟩
  obtain ⟨i, hi⟩ := h
  have hbound' : ∀ j u, PatientRun P Q j t u → j ≤ k := by
    intro j u hj
    have := hbound (i + j) u (hi.patient.trans hj)
    omega
  obtain ⟨j, u, hj, hstuck⟩ := exists_stuck hbound'
  exact hpost u (hend (i + j) u (hi.patient.trans hj) hstuck) (hj.left_done ht)

/-- A system that can come back to `I` again and again does not settle. -/
theorem not_settles_of_cycle {I Post : Duplex β ε₁ σ₁ ρ₁ ε₂ σ₂ ρ₂ → Prop}
    (hcycle : ∀ s, I s → ∃ k t, 0 < k ∧ PatientRun P Q k s t ∧ I t)
    (h : Reaches P Q s t) (ht : I t) : ¬ Settles P Q s Post := by
  rintro ⟨⟨k, hbound⟩, -⟩
  have hlong : ∀ n, ∃ j u, n ≤ j ∧ PatientRun P Q j s u ∧ I u := by
    intro n
    induction n with
    | zero =>
      obtain ⟨i, hi⟩ := h
      exact ⟨i, t, Nat.zero_le i, hi.patient, ht⟩
    | succ n ih =>
      obtain ⟨j, u, hj, hrun, hu⟩ := ih
      obtain ⟨i, v, hi, hrest, hv⟩ := hcycle u hu
      exact ⟨j + i, v, by omega, hrun.trans hrest, hv⟩
  obtain ⟨j, u, hj, hrun, -⟩ := hlong (k + 1)
  have := hbound j u hrun
  omega

end Duplex
end ZephyrModem.Reactive
