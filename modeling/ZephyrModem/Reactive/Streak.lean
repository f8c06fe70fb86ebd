import ZephyrModem.Reactive.Process

/-!
# Streaks

How many marked reads a history holds since the last one that resets the count, and
the rule for a process whose own counter bounds that number.
-/

namespace ZephyrModem.Reactive

section Streak

variable {α : Type} (reset mark : α → Bool)

def streakStep (c : ℕ) (a : α) : ℕ := if reset a then 0 else if mark a then c + 1 else c

/-- The marks since the last reset. -/
def streak (as : List α) : ℕ := as.foldl (streakStep reset mark) 0

theorem streak_append (as bs : List α) :
    streak reset mark (as ++ bs) = bs.foldl (streakStep reset mark) (streak reset mark as) :=
  List.foldl_append

theorem streakStep_mono {c d : ℕ} (h : c ≤ d) (a : α) :
    streakStep reset mark c a ≤ streakStep reset mark d a := by
  unfold streakStep
  split
  · exact Nat.le_refl 0
  · split
    · exact Nat.succ_le_succ h
    · exact h

theorem streakStep_le (c : ℕ) (a : α) : streakStep reset mark c a ≤ c + 1 := by
  unfold streakStep
  split
  · exact Nat.zero_le _
  · split <;> omega

variable {reset mark}

theorem streakStep_of_reset {c : ℕ} {a : α} (h : reset a = true) :
    streakStep reset mark c a = 0 := if_pos h

theorem streakStep_of_not_mark {c : ℕ} {a : α} (h : mark a = false) :
    streakStep reset mark c a ≤ c := by
  unfold streakStep
  split
  · exact Nat.zero_le c
  · have hkeep : (if mark a = true then c + 1 else c) = c := by
      rw [h]
      rfl
    exact Nat.le_of_eq hkeep

variable {ι ε σ ρ : Type}

/-- The counter `k` of the process keeps up with the streak, as long as it reads on and
every read meets `C`; so the streak is never more than one above the counter's bound. -/
theorem streak_le_of_counter (step : Resume ι ε σ ρ) {reset mark : σ × ι → Bool} (I : σ → Prop)
    (k : σ → ℕ) (limit : ℕ) (C : σ → ι → Prop) (hk : ∀ s, I s → k s ≤ limit)
    (hstep : ∀ s i t, C s i → I s → (step s i).next = .wait t →
      I t ∧ streakStep reset mark (k s) (s, i) ≤ k t)
    {s₀ : σ} (hstart : I s₀) (is : List ι)
    (hc : ∀ v ∈ visits step (.wait s₀) is, C v.1 v.2) :
    streak reset mark (visits step (.wait s₀) is) ≤ limit + 1 := by
  let J : List (σ × ι) → List ε → Next σ ρ → Prop := fun vs _ n =>
    (∀ v ∈ vs, C v.1 v.2) →
      streak reset mark vs ≤ limit + 1 ∧ ∀ s, n = .wait s → I s ∧ streak reset mark vs ≤ k s
  have hrun : J (visits step (.wait s₀) is) (run step (.wait s₀) is).events
      (run step (.wait s₀) is).next := by
    refine history_invariant step J ?_ (.wait s₀) is (fun _ => ⟨Nat.zero_le _, ?_⟩)
    · intro vs tr s i hJ hall
      obtain ⟨hI, hle⟩ := (hJ fun v hv => hall v (List.mem_append_left _ hv)).2 s rfl
      have hread : C s i := hall (s, i) (List.mem_append_right _ (List.mem_singleton_self _))
      have hcount : streak reset mark (vs ++ [(s, i)]) ≤ streakStep reset mark (k s) (s, i) := by
        rw [streak_append]
        exact streakStep_mono reset mark hle (s, i)
      constructor
      · have hlast := streakStep_le reset mark (k s) (s, i)
        have hlimit := hk s hI
        omega
      · intro t hnext
        obtain ⟨ht, hkt⟩ := hstep s i t hread hI hnext
        exact ⟨ht, Nat.le_trans hcount hkt⟩
    · intro s hs
      cases hs
      exact ⟨hstart, Nat.zero_le _⟩
  exact (hrun hc).1

/-- A sequence of inputs that is marked once and brings the process back can come any
number of times, and all of them count. -/
theorem streak_replicate (step : Resume ι ε σ ρ) (reset mark : σ × ι → Bool) (S : σ → Prop)
    (is : List ι)
    (his : ∀ s, S s → (∃ t, (run step (.wait s) is).next = .wait t ∧ S t) ∧
      ∀ c, (visits step (.wait s) is).foldl (streakStep reset mark) c = c + 1)
    {n : Next σ ρ} {pre : List ι} {s : σ} (hpre : (run step n pre).next = .wait s) (hs : S s)
    (k : ℕ) :
    (∃ t, (run step n (pre ++ (List.replicate k is).flatten)).next = .wait t ∧ S t) ∧
      streak reset mark (visits step n (pre ++ (List.replicate k is).flatten)) =
        streak reset mark (visits step n pre) + k := by
  induction k with
  | zero =>
    rw [List.replicate_zero, List.flatten_nil, List.append_nil]
    exact ⟨⟨s, hpre, hs⟩, rfl⟩
  | succ k ih =>
    obtain ⟨⟨t, ht, hSt⟩, hcount⟩ := ih
    obtain ⟨⟨t', ht', hSt'⟩, hmore⟩ := his t hSt
    rw [List.replicate_succ', List.flatten_append, List.flatten_singleton, ← List.append_assoc]
    constructor
    · refine ⟨t', ?_, hSt'⟩
      rw [run_append, ht]
      exact ht'
    · rw [visits_append, streak_append, ht, hmore, hcount, Nat.add_assoc]

end Streak

end ZephyrModem.Reactive
