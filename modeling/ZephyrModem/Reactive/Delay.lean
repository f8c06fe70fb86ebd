import ZephyrModem.Reactive.Duplex

/-!
# A left side that comes late

Until the left side reads for the first time, the reads of the right side may
fail whether or not the left side is stuck.
-/

namespace ZephyrModem.Reactive.Duplex

variable {β ε₁ σ₁ ρ₁ ε₂ σ₂ ρ₂ : Type} (P : Party β ε₁ σ₁ ρ₁) (Q : Party β ε₂ σ₂ ρ₂)

/-- A run in which the left side does not read and `k` reads of the right side fail. -/
inductive Delayed : ℕ → Duplex β ε₁ σ₁ ρ₁ ε₂ σ₂ ρ₂ → Duplex β ε₁ σ₁ ρ₁ ε₂ σ₂ ρ₂ → Prop
  | refl (s) : Delayed 0 s s
  | step {k m s t u} : Delayed k s t → (m = .emitLeft ∨ m = .emitRight ∨ m = .readRight) →
      move P Q m t = some u → Delayed k s u
  | fail {k s t u} : Delayed k s t → move P Q .failRight t = some u → Delayed (k + 1) s u

variable {P Q} {s t : Duplex β ε₁ σ₁ ρ₁ ε₂ σ₂ ρ₂}

/-- Invariant rule: what each move preserves holds after at most `n` failed reads. -/
theorem Delayed.invariant {I : ℕ → Duplex β ε₁ σ₁ ρ₁ ε₂ σ₂ ρ₂ → Prop} {n k : ℕ} (hs : I 0 s)
    (hemitLeft : ∀ k t u, I k t → move P Q .emitLeft t = some u → I k u)
    (hemitRight : ∀ k t u, I k t → move P Q .emitRight t = some u → I k u)
    (hreadRight : ∀ k t u, I k t → move P Q .readRight t = some u → I k u)
    (hfailRight : ∀ k t u, k < n → I k t → move P Q .failRight t = some u → I (k + 1) u)
    (hk : k ≤ n) (h : Delayed P Q k s t) : I k t := by
  induction h with
  | refl s => exact hs
  | step _ hm hmove ih =>
    rcases hm with rfl | rfl | rfl
    · exact hemitLeft _ _ _ (ih hs hk) hmove
    · exact hemitRight _ _ _ (ih hs hk) hmove
    · exact hreadRight _ _ _ (ih hs hk) hmove
  | fail _ hmove ih => exact hfailRight _ _ _ hk (ih hs (Nat.le_of_succ_le hk)) hmove

/-- The right side can always finish what it has to say. -/
theorem Delayed.flushRight {k : ℕ} (h : Delayed P Q k s t) :
    ∃ u, Delayed P Q k s u ∧ u.right = ⟨[], t.right.next⟩ ∧ u.toRight = t.toRight := by
  obtain ⟨l, ⟨es, n⟩, tr, tl, ll, rl⟩ := t
  induction es generalizing tl rl with
  | nil => exact ⟨_, h, rfl, rfl⟩
  | cons e es ih =>
    exact ih _ _ (.step h (.inr (.inl rfl)) (move_emitRight.mpr ⟨e, es, n, rfl, rfl⟩))

theorem exists_delayed {n k : ℕ}
    (hidle : ∀ k t, k < n → Delayed P Q k s t → (∃ x, t.right.next = .wait x) ∧ t.toRight = [])
    (hk : k ≤ n) : ∃ t, Delayed P Q k s t := by
  induction k with
  | zero => exact ⟨s, .refl s⟩
  | succ k ih =>
    obtain ⟨t, ht⟩ := ih (Nat.le_of_succ_le hk)
    obtain ⟨⟨x, hx⟩, hempty⟩ := hidle k t hk ht
    obtain ⟨u, hu, hright, htoRight⟩ := ht.flushRight
    rw [hx] at hright
    exact ⟨_, .fail hu (move_failRight.mpr ⟨x, hright, htoRight.trans hempty, rfl⟩)⟩

end ZephyrModem.Reactive.Duplex
