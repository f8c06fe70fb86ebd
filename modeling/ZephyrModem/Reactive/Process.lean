import Mathlib.Data.List.Basic

/-!
# Reactive processes

A program that talks to its environment through reads is cut at those reads:
between two reads it performs a finite list of events and then either reads
again or returns. The program is given by its reaction to the result of one
read; everything it does on a finite input history is the fold of that
reaction. Nothing here depends on what is read or what an event is.
-/

namespace ZephyrModem.Reactive

/-- Result of one read: an item, a time-out, or a request to stop. -/
inductive ReadResult (β : Type) where
  | ok (b : β)
  | timeout
  | cancel
  deriving Repr, DecidableEq

/-- Where a process stands: reading in state `s`, or returned with `r`. -/
inductive Next (σ ρ : Type) where
  | wait (s : σ)
  | done (r : ρ)
  deriving Repr, DecidableEq

/-- One reaction: the events performed, then where the process stands. -/
structure Out (ε σ ρ : Type) where
  events : List ε
  next : Next σ ρ
  deriving Repr, DecidableEq

/-- Reaction of a process in state `s` to the input `i`. -/
abbrev Resume (ι ε σ ρ : Type) := σ → ι → Out ε σ ρ

section Run

variable {ι ε σ ρ : Type}

/-- Events performed before a reaction. -/
def Out.after (es : List ε) (o : Out ε σ ρ) : Out ε σ ρ := ⟨es ++ o.events, o.next⟩

@[simp] theorem Out.after_events (es : List ε) (o : Out ε σ ρ) :
    (o.after es).events = es ++ o.events := rfl

@[simp] theorem Out.after_next (es : List ε) (o : Out ε σ ρ) : (o.after es).next = o.next := rfl

@[simp] theorem Out.after_nil (o : Out ε σ ρ) : o.after [] = o := rfl

theorem Out.after_after (as bs : List ε) (o : Out ε σ ρ) :
    (o.after bs).after as = o.after (as ++ bs) := by
  simp only [Out.after, List.append_assoc]

/-- All reactions to a finite input history; inputs after the return are not read. -/
def run (step : Resume ι ε σ ρ) : Next σ ρ → List ι → Out ε σ ρ
  | n, [] => ⟨[], n⟩
  | .done r, _ :: _ => ⟨[], .done r⟩
  | .wait s, i :: is => (run step (step s i).next is).after (step s i).events

variable (step : Resume ι ε σ ρ)

@[simp] theorem run_nil (n : Next σ ρ) : run step n [] = ⟨[], n⟩ := by
  cases n <;> rfl

@[simp] theorem run_done (r : ρ) (is : List ι) : run step (.done r) is = ⟨[], .done r⟩ := by
  cases is <;> rfl

theorem run_wait (s : σ) (i : ι) (is : List ι) :
    run step (.wait s) (i :: is) = (run step (step s i).next is).after (step s i).events := rfl

theorem run_append (n : Next σ ρ) (as bs : List ι) :
    run step n (as ++ bs) = (run step (run step n as).next bs).after (run step n as).events := by
  induction as generalizing n with
  | nil => rw [List.nil_append, run_nil]; rfl
  | cons a as ih =>
    cases n with
    | done r => simp only [run_done, List.cons_append]; rfl
    | wait s =>
      rw [List.cons_append, run_wait, run_wait, ih, Out.after_after, Out.after_next,
        Out.after_events]

theorem run_next_append (n : Next σ ρ) (as bs : List ι) :
    (run step n (as ++ bs)).next = (run step (run step n as).next bs).next := by
  rw [run_append, Out.after_next]

/-- The reactions to items that all arrive. -/
def feed {β : Type} (step : Resume (ReadResult β) ε σ ρ) (n : Next σ ρ) (bs : List β) : Out ε σ ρ :=
  run step n (bs.map .ok)

theorem feed_nil {β : Type} (step : Resume (ReadResult β) ε σ ρ) (n : Next σ ρ) :
    feed step n [] = ⟨[], n⟩ := run_nil step n

theorem feed_done {β : Type} (step : Resume (ReadResult β) ε σ ρ) (r : ρ) (bs : List β) :
    feed step (.done r) bs = ⟨[], .done r⟩ := run_done step r _

theorem feed_cons {β : Type} (step : Resume (ReadResult β) ε σ ρ) (s : σ) (b : β) (bs : List β) :
    feed step (.wait s) (b :: bs) =
      (feed step (step s (.ok b)).next bs).after (step s (.ok b)).events := rfl

theorem feed_append {β : Type} (step : Resume (ReadResult β) ε σ ρ) (n : Next σ ρ) (as bs : List β) :
    feed step n (as ++ bs) =
      (feed step (feed step n as).next bs).after (feed step n as).events := by
  simp only [feed, List.map_append, run_append]

theorem feed_snoc {β : Type} (step : Resume (ReadResult β) ε σ ρ) {n : Next σ ρ} {bs : List β} {x : σ}
    (h : feed step n bs = ⟨[], .wait x⟩) (b : β) : feed step n (bs ++ [b]) = step x (.ok b) := by
  rw [feed_append, h, feed_cons, feed_nil]
  simp [Out.after]

theorem feed_done_split {β : Type} (step : Resume (ReadResult β) ε σ ρ) {s : σ} {bs : List β}
    {es : List ε} {r : ρ} (h : feed step (.wait s) bs = ⟨es, .done r⟩) :
    ∃ init b rest es₁ es₂ t, bs = init ++ b :: rest ∧ es = es₁ ++ es₂ ∧
      feed step (.wait s) init = ⟨es₁, .wait t⟩ ∧ step t (.ok b) = ⟨es₂, .done r⟩ := by
  induction bs generalizing s es with
  | nil =>
    rw [feed_nil] at h
    cases h
  | cons b bs ih =>
    rw [feed_cons] at h
    rcases hs : step s (.ok b) with ⟨es₁, n⟩
    rw [hs] at h
    cases n with
    | done r' =>
      rw [feed_done] at h
      simp only [Out.after, List.append_nil, Out.mk.injEq, Next.done.injEq] at h
      obtain ⟨rfl, rfl⟩ := h
      exact ⟨[], b, bs, [], es₁, s, rfl, rfl, feed_nil step _, hs⟩
    | wait s' =>
      rcases hrest : feed step (.wait s') bs with ⟨es', n'⟩
      simp only [hrest, Out.after, Out.mk.injEq] at h
      obtain ⟨rfl, rfl⟩ := h
      obtain ⟨init, b', rest, es₁', es₂', t, rfl, rfl, hinit, hlast⟩ := ih hrest
      refine ⟨b :: init, b', rest, es₁ ++ es₁', es₂', t, rfl, (List.append_assoc ..).symm, ?_, hlast⟩
      rw [feed_cons, hs, hinit]
      rfl

/-! ### What is visited -/

/-- The reads a run performs: the state at each read and the result it got. -/
def visits : Next σ ρ → List ι → List (σ × ι)
  | _, [] => []
  | .done _, _ :: _ => []
  | .wait s, i :: is => (s, i) :: visits (step s i).next is

@[simp] theorem visits_nil (n : Next σ ρ) : visits step n [] = [] := by
  cases n <;> rfl

@[simp] theorem visits_done (r : ρ) (is : List ι) : visits step (.done r) is = [] := by
  cases is <;> rfl

theorem visits_wait (s : σ) (i : ι) (is : List ι) :
    visits step (.wait s) (i :: is) = (s, i) :: visits step (step s i).next is := rfl

theorem visits_append (n : Next σ ρ) (as bs : List ι) :
    visits step n (as ++ bs) = visits step n as ++ visits step (run step n as).next bs := by
  induction as generalizing n with
  | nil => simp
  | cons a as ih =>
    cases n with
    | done r => simp
    | wait s => simp only [List.cons_append, visits_wait, run_wait, ih, Out.after_next]

theorem exists_of_mem_visits {n : Next σ ρ} {is : List ι} {v : σ × ι} (h : v ∈ visits step n is) :
    ∃ pre post, is = pre ++ v.2 :: post ∧ (run step n pre).next = .wait v.1 := by
  induction is generalizing n with
  | nil => simp at h
  | cons i is ih =>
    cases n with
    | done r => simp at h
    | wait s =>
      rw [visits_wait, List.mem_cons] at h
      rcases h with rfl | h
      · exact ⟨[], is, rfl, rfl⟩
      · obtain ⟨pre, post, his, hpre⟩ := ih h
        exact ⟨i :: pre, post, by rw [his]; rfl, hpre⟩

theorem mem_visits {n : Next σ ρ} {pre : List ι} {s : σ} (h : (run step n pre).next = .wait s)
    (i : ι) (post : List ι) : (s, i) ∈ visits step n (pre ++ i :: post) := by
  rw [visits_append, h, visits_wait]
  exact List.mem_append_right _ (List.mem_cons_self ..)

/-- Where an event of a run happens: the history before it, the state in which
the process was reading, and its reaction. -/
theorem exists_of_events_eq {n : Next σ ρ} {is : List ι} {l₁ l₂ : List ε} {e : ε}
    (h : (run step n is).events = l₁ ++ e :: l₂) :
    ∃ pre i post s a b, is = pre ++ i :: post ∧ (run step n pre).next = .wait s ∧
      (step s i).events = a ++ e :: b ∧ l₁ = (run step n pre).events ++ a := by
  induction is generalizing n l₁ with
  | nil => simp at h
  | cons i is ih =>
    cases n with
    | done r => simp at h
    | wait s =>
      rw [run_wait, Out.after_events, List.append_eq_append_iff] at h
      rcases h with ⟨a, rfl, hrest⟩ | ⟨b, hstep, hrest⟩
      · obtain ⟨pre, i', post, s', a', b, rfl, hpre, hstep, rfl⟩ := ih hrest
        refine ⟨i :: pre, i', post, s', a', b, rfl, hpre, hstep, ?_⟩
        rw [run_wait, Out.after_events, List.append_assoc]
      · cases b with
        | nil =>
          rw [List.append_nil] at hstep
          obtain ⟨pre, i', post, s', a', b, rfl, hpre, hstep', ha⟩ :=
            ih (show (run step (step s i).next is).events = [] ++ e :: l₂ from hrest.symm)
          obtain ⟨hnil, rfl⟩ := List.append_eq_nil_iff.mp ha.symm
          refine ⟨i :: pre, i', post, s', [], b, rfl, hpre, hstep', ?_⟩
          rw [run_wait, Out.after_events, hnil, hstep, List.append_nil, List.append_nil]
        | cons x b =>
          obtain ⟨rfl, rfl⟩ := List.cons.inj hrest
          refine ⟨[], i, is, s, l₁, b, rfl, rfl, hstep, ?_⟩
          rw [run_nil, List.nil_append]

theorem run_events_eq {n : Next σ ρ} {pre : List ι} {i : ι} {s : σ} {a b : List ε} {e : ε}
    (post : List ι) (hpre : (run step n pre).next = .wait s) (hstep : (step s i).events = a ++ e :: b) :
    (run step n (pre ++ i :: post)).events =
      ((run step n pre).events ++ a) ++ e :: (b ++ (run step (step s i).next post).events) := by
  rw [run_append, hpre, run_wait, Out.after_events, Out.after_events, hstep]
  simp only [List.append_assoc, List.cons_append]

theorem exists_of_mem_events {n : Next σ ρ} {is : List ι} {e : ε} (h : e ∈ (run step n is).events) :
    ∃ pre i post s, is = pre ++ i :: post ∧ (run step n pre).next = .wait s ∧
      e ∈ (step s i).events := by
  obtain ⟨l₁, l₂, hl⟩ := List.append_of_mem h
  obtain ⟨pre, i, post, s, a, b, his, hpre, hstep, -⟩ := exists_of_events_eq step hl
  exact ⟨pre, i, post, s, his, hpre, hstep ▸ by simp⟩

/-- A run that returns does so at some input, unless it had returned before. -/
theorem exists_of_run_done {n : Next σ ρ} {is : List ι} {r : ρ} (h : (run step n is).next = .done r) :
    n = .done r ∨ ∃ pre i post s, is = pre ++ i :: post ∧ (run step n pre).next = .wait s ∧
      (step s i).next = .done r := by
  induction is generalizing n with
  | nil => exact .inl (by rwa [run_nil] at h)
  | cons i is ih =>
    cases n with
    | done r' => exact .inl (by rwa [run_done] at h)
    | wait s =>
      right
      rw [run_wait, Out.after_next] at h
      rcases ih h with hs | ⟨pre, i', post, t, rfl, hpre, hlast⟩
      · exact ⟨[], i, is, s, rfl, rfl, hs⟩
      · exact ⟨i :: pre, i', post, t, rfl, hpre, hlast⟩

theorem run_eq_of_done {n : Next σ ρ} {pre : List ι} {i : ι} {s : σ} {r : ρ} (post : List ι)
    (hpre : (run step n pre).next = .wait s) (hstep : (step s i).next = .done r) :
    run step n (pre ++ i :: post) = ⟨(run step n pre).events ++ (step s i).events, .done r⟩ := by
  rw [run_append, hpre, run_wait, hstep, run_done]
  simp [Out.after]

theorem run_snoc {n : Next σ ρ} {is : List ι} {s : σ} (h : (run step n is).next = .wait s) (i : ι) :
    run step n (is ++ [i]) = (step s i).after (run step n is).events := by
  rw [run_append, h, run_wait, run_nil]
  simp [Out.after]

/-! ### Invariants over whole runs -/

/-- Invariant rule: what one reaction preserves, every run preserves. -/
theorem run_invariant (I : Next σ ρ → Prop) (hstep : ∀ s i, I (.wait s) → I (step s i).next)
    (n : Next σ ρ) (is : List ι) (h : I n) : I (run step n is).next := by
  induction is generalizing n with
  | nil => rwa [run_nil]
  | cons i is ih =>
    cases n with
    | done r => rwa [run_done]
    | wait s => exact ih (step s i).next (hstep s i h)

theorem visits_invariant (I : Next σ ρ → Prop) (hstep : ∀ s i, I (.wait s) → I (step s i).next)
    (n : Next σ ρ) (is : List ι) (h : I n) : ∀ v ∈ visits step n is, I (.wait v.1) := by
  induction is generalizing n with
  | nil => simp
  | cons i is ih =>
    cases n with
    | done r => simp
    | wait s =>
      intro v hv
      rw [visits_wait, List.mem_cons] at hv
      rcases hv with rfl | hv
      · exact h
      · exact ih _ (hstep s i h) v hv

/-- Invariant rule relating the trace so far to where the process stands. The
step may assume a condition `C` on the read, which the run meets at each visit. -/
theorem trace_invariant (I : List ε → Next σ ρ → Prop) (C : σ → ι → Prop)
    (hstep : ∀ tr s i, C s i → I tr (.wait s) → I (tr ++ (step s i).events) (step s i).next)
    (n : Next σ ρ) (is : List ι) (tr : List ε) (hc : ∀ v ∈ visits step n is, C v.1 v.2)
    (h : I tr n) : I (tr ++ (run step n is).events) (run step n is).next := by
  induction is generalizing n tr with
  | nil => simpa using h
  | cons i is ih =>
    cases n with
    | done r => simpa using h
    | wait s =>
      rw [visits_wait] at hc
      have hs := hstep tr s i (hc (s, i) (List.mem_cons_self ..)) h
      have hr := ih _ _ (fun v hv => hc v (List.mem_cons_of_mem _ hv)) hs
      simpa only [run_wait, Out.after_events, Out.after_next, List.append_assoc] using hr

/-- Invariant rule relating what was visited, the trace so far, and where the
process stands. -/
theorem history_invariant (I : List (σ × ι) → List ε → Next σ ρ → Prop)
    (hstep : ∀ vs tr s i, I vs tr (.wait s) →
      I (vs ++ [(s, i)]) (tr ++ (step s i).events) (step s i).next)
    (n : Next σ ρ) (is : List ι) (h : I [] [] n) :
    I (visits step n is) (run step n is).events (run step n is).next := by
  have hall : ∀ (is : List ι) (n : Next σ ρ) (vs : List (σ × ι)) (tr : List ε), I vs tr n →
      I (vs ++ visits step n is) (tr ++ (run step n is).events) (run step n is).next := by
    intro is
    induction is with
    | nil =>
      intro n vs tr h
      simpa using h
    | cons i is ih =>
      intro n vs tr h
      cases n with
      | done r => simpa using h
      | wait s => simpa [visits_wait, run_wait] using ih _ _ _ (hstep vs tr s i h)
  simpa using hall is n [] [] h

end Run

/-! ### Sub-programs that only read

A sub-program without events of its own is a reader: it consumes inputs and
hands a value back to its caller. -/

section Reader

variable {β ε σ τ α ρ : Type}

/-- Reaction of a reader to one input. -/
abbrev Reader (ι τ α : Type) := τ → ι → Next τ α

/-- Runs a reader on items that all arrive until it has its value; returns the
unread items. -/
def parse (rd : Reader (ReadResult β) τ α) : Next τ α → List β → Next τ α × List β
  | .done a, bs => (.done a, bs)
  | .wait t, [] => (.wait t, [])
  | .wait t, b :: bs => parse rd (rd t (.ok b)) bs

variable (rd : Reader (ReadResult β) τ α)

@[simp] theorem parse_done (a : α) (bs : List β) : parse rd (.done a) bs = (.done a, bs) := by
  cases bs <;> rfl

@[simp] theorem parse_nil (n : Next τ α) : parse rd n [] = (n, []) := by
  cases n <;> rfl

theorem parse_cons (t : τ) (b : β) (bs : List β) :
    parse rd (.wait t) (b :: bs) = parse rd (rd t (.ok b)) bs := rfl

/-- A process that embeds a reader: while the reader reads, the process is
silent; when it has its value `a`, the process continues with `k a`. -/
theorem feed_embed (step : Resume (ReadResult β) ε σ ρ) (wrap : τ → σ) (k : α → Out ε σ ρ)
    (hstep : ∀ t i, step (wrap t) i =
      match rd t i with
      | .wait t' => ⟨[], .wait (wrap t')⟩
      | .done a => k a) (t : τ) (bs : List β) :
    feed step (.wait (wrap t)) bs =
      match parse rd (.wait t) bs with
      | (.wait t', _) => ⟨[], .wait (wrap t')⟩
      | (.done a, rest) => (feed step (k a).next rest).after (k a).events := by
  induction bs generalizing t with
  | nil => simp [feed_nil]
  | cons b bs ih =>
    rw [feed_cons, parse_cons, hstep]
    cases rd t (.ok b) with
    | wait t' => simpa using ih t'
    | done a => simp

theorem parse_embed {υ γ : Type} (outer : Reader (ReadResult β) υ γ) (wrap : τ → υ) (k : α → Next υ γ)
    (hstep : ∀ t i, outer (wrap t) i =
      match rd t i with
      | .wait t' => .wait (wrap t')
      | .done a => k a) (t : τ) (bs : List β) :
    parse outer (.wait (wrap t)) bs =
      match parse rd (.wait t) bs with
      | (.wait t', _) => (.wait (wrap t'), [])
      | (.done a, rest) => parse outer (k a) rest := by
  induction bs generalizing t with
  | nil => simp
  | cons b bs ih =>
    rw [parse_cons, parse_cons, hstep]
    cases rd t (.ok b) with
    | wait t' => simpa using ih t'
    | done a => simp

end Reader

/-! ### State that only events change -/

section Replay

variable {ε υ : Type} (effect : ε → υ → υ)

/-- What the events of a log leave of a state of the environment. -/
def replay (log : List ε) (u : υ) : υ := log.foldl (fun u e => effect e u) u

@[simp] theorem replay_nil (u : υ) : replay effect [] u = u := rfl

@[simp] theorem replay_cons (e : ε) (log : List ε) (u : υ) :
    replay effect (e :: log) u = replay effect log (effect e u) := rfl

@[simp] theorem replay_append (as bs : List ε) (u : υ) :
    replay effect (as ++ bs) u = replay effect bs (replay effect as u) := List.foldl_append

variable {effect}

/-- An invariant that every event of a log keeps. -/
theorem replay_invariant {I : υ → Prop} {log : List ε}
    (hstep : ∀ e ∈ log, ∀ u, I u → I (effect e u)) {u : υ} (h : I u) : I (replay effect log u) := by
  induction log generalizing u with
  | nil => exact h
  | cons e log ih =>
    exact ih (fun x hx => hstep x (List.mem_cons_of_mem _ hx)) (hstep e (List.mem_cons_self ..) u h)

end Replay

end ZephyrModem.Reactive
