import ZephyrModem.Reactive.Cancel

/-!
# Dead lines

A line is dead when every read on it times out. A process returns on a dead line when
a measure decreases from one time-out to the next; it never does when the time-outs
keep it in a set of states. When the measure decreases whatever is read, it bounds the
number of reads.
-/

namespace ZephyrModem.Reactive

section DeadLine

variable {β ε σ ρ : Type} (step : Resume (ReadResult β) ε σ ρ)

def Returns (n : Next σ ρ) : Prop := ∃ k r, (run step n (List.replicate k .timeout)).next = .done r

/-- The process returns on a line that carries the items `bs` and is dead then. -/
def ReturnsAfter (n : Next σ ρ) (bs : List β) : Prop :=
  ∃ k r, (run step n (bs.map .ok ++ List.replicate k .timeout)).next = .done r

variable {step}

theorem returnsAfter_iff {n : Next σ ρ} {bs : List β} :
    ReturnsAfter step n bs ↔ Returns step (feed step n bs).next := by
  simp only [ReturnsAfter, Returns, run_append, Out.after_next, feed]

theorem returns_done (r : ρ) : Returns step (.done r) := ⟨0, r, rfl⟩

theorem returns_wait_iff (s : σ) : Returns step (.wait s) ↔ Returns step (step s .timeout).next := by
  constructor
  · rintro ⟨k, r, hrun⟩
    cases k with
    | zero => cases hrun
    | succ k => exact ⟨k, r, hrun⟩
  · rintro ⟨k, r, hrun⟩
    exact ⟨k + 1, r, hrun⟩

theorem returns_of_measure (I : σ → Prop) (μ : σ → ℕ)
    (hstep : ∀ s t, I s → (step s .timeout).next = .wait t → I t ∧ μ t < μ s) {s : σ} (h : I s) :
    Returns step (.wait s) := by
  induction hm : μ s using Nat.strongRecOn generalizing s with
  | ind m ih =>
    apply (returns_wait_iff s).mpr
    cases hnext : (step s .timeout).next with
    | done r => exact returns_done r
    | wait t =>
      obtain ⟨ht, hlt⟩ := hstep s t h hnext
      exact ih (μ t) (hm ▸ hlt) ht rfl

theorem not_returns (I : σ → Prop) (hstep : ∀ s, I s → ∃ t, (step s .timeout).next = .wait t ∧ I t)
    {s : σ} (h : I s) : ¬ Returns step (.wait s) := by
  rintro ⟨k, r, hrun⟩
  have hstay : ∃ t, (run step (.wait s) (List.replicate k .timeout)).next = .wait t ∧ I t := by
    apply run_timeouts_invariant (fun n => ∃ t, n = .wait t ∧ I t)
    · rintro s ⟨t, ht, hI⟩
      cases ht
      exact hstep s hI
    · exact ⟨s, rfl, h⟩
  obtain ⟨t, ht, -⟩ := hstay
  rw [hrun] at ht
  cases ht

theorem feed_invariant (I : Next σ ρ → Prop) (hstep : ∀ s b, I (.wait s) → I (step s (.ok b)).next)
    (n : Next σ ρ) (bs : List β) (h : I n) : I (feed step n bs).next := by
  induction bs generalizing n with
  | nil => rwa [feed_nil]
  | cons b bs ih =>
    cases n with
    | done r => rwa [feed_done]
    | wait s => exact ih (step s (.ok b)).next (hstep s b h)

theorem done_cases {n : Next σ ρ} {bs : List β} {k : ℕ} {r : ρ}
    (h : (run step n (bs.map .ok ++ List.replicate k .timeout)).next = .done r) :
    n = .done r ∨
    (∃ pre b post s, bs = pre ++ b :: post ∧ (feed step n pre).next = .wait s ∧
      (step s (.ok b)).next = .done r) ∨
    ∃ s, (step s .timeout).next = .done r := by
  rw [run_append, Out.after_next] at h
  cases hnext : (run step n (bs.map .ok)).next with
  | done r' =>
    rw [hnext, run_done] at h
    cases h
    rcases exists_of_run_done step hnext with hn | ⟨pre, i, post, s, hreads, hpre, hlast⟩
    · exact .inl hn
    · obtain ⟨bs₁, bs₂, rfl, rfl, hpost⟩ := List.map_eq_append_iff.mp hreads
      obtain ⟨b, bs₃, rfl, rfl, -⟩ := List.map_eq_cons_iff.mp hpost
      exact .inr (.inl ⟨bs₁, b, bs₃, s, rfl, hpre, hlast⟩)
  | wait s =>
    rw [hnext] at h
    rcases exists_of_run_done step h with hn | ⟨pre, i, post, t, hreads, -, hlast⟩
    · cases hn
    · have hi : i ∈ List.replicate k ReadResult.timeout := by
        rw [hreads]
        simp
      rw [List.eq_of_mem_replicate hi] at hlast
      exact .inr (.inr ⟨t, hlast⟩)

end DeadLine

section Bounded

variable {ι ε σ ρ : Type} {step : Resume ι ε σ ρ}

theorem run_done_of_measure (I : σ → Prop) (μ : σ → ℕ) (hpos : ∀ s, I s → 0 < μ s)
    (hstep : ∀ s i t, I s → (step s i).next = .wait t → I t ∧ μ t < μ s) {s : σ} (h : I s)
    (is : List ι) (hlen : μ s ≤ is.length) : ∃ r, (run step (.wait s) is).next = .done r := by
  induction is generalizing s with
  | nil => exact absurd (hpos s h) (Nat.not_lt.mpr hlen)
  | cons i is ih =>
    rw [run_wait, Out.after_next]
    cases hnext : (step s i).next with
    | done r => exact ⟨r, by rw [run_done]⟩
    | wait t =>
      obtain ⟨ht, hlt⟩ := hstep s i t h hnext
      rw [List.length_cons] at hlen
      exact ih ht (by omega)

end Bounded

end ZephyrModem.Reactive
