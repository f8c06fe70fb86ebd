import Mathlib.Data.List.Basic

/-!
# Bounded queues

A queue of at most `cap` items. What is offered is queued as far as there is room and
dropped behind that. A history is the list of what was offered and what the polls
brought.
-/

namespace ZephyrModem.Memory.Fifo

variable {α : Type}

def offer (cap : ℕ) (q as : List α) : List α := q ++ as.take (cap - q.length)

theorem offer_nil (cap : ℕ) (q : List α) : offer cap q [] = q := by
  rw [offer, List.take_nil, List.append_nil]

theorem offer_singleton (cap : ℕ) (q : List α) (a : α) :
    offer cap q [a] = if q.length < cap then q ++ [a] else q := by
  unfold offer
  by_cases h : q.length < cap
  · rw [if_pos h, List.take_of_length_le]
    rw [List.length_singleton]
    omega
  · have hroom : cap - q.length = 0 := by omega
    rw [if_neg h, hroom, List.take_zero, List.append_nil]

/-- Offered one by one, an item is dropped only when the queue is full. -/
theorem offer_cons (cap : ℕ) (q : List α) (a : α) (as : List α) :
    offer cap q (a :: as) = offer cap (offer cap q [a]) as := by
  rw [offer_singleton]
  unfold offer
  by_cases h : q.length < cap
  · have hroom : cap - q.length = cap - (q.length + 1) + 1 := by omega
    rw [if_pos h, List.length_append, List.length_singleton, hroom, List.take_succ_cons,
      List.append_assoc]
    rfl
  · have hroom : cap - q.length = 0 := by omega
    rw [if_neg h, hroom, List.take_zero, List.take_zero]

theorem length_offer (cap : ℕ) (q as : List α) :
    (offer cap q as).length = q.length + min (cap - q.length) as.length := by
  rw [offer, List.length_append, List.length_take]

theorem offer_ne_nil {cap : ℕ} (hcap : 0 < cap) (q : List α) {as : List α} (h : as ≠ []) :
    offer cap q as ≠ [] := by
  intro hnil
  have hlen := length_offer cap q as
  have hpos := List.length_pos_iff.mpr h
  rw [hnil, List.length_nil] at hlen
  omega

theorem offer_of_fits {cap : ℕ} {q as : List α} (h : q.length + as.length ≤ cap) :
    offer cap q as = q ++ as := by
  rw [offer, List.take_of_length_le]
  omega

/-! ### Histories -/

inductive Act (α : Type) where
  | offer (as : List α)
  | poll (result : Option α)
  deriving Repr, DecidableEq

/-- Every poll brings the oldest item, if there is one. -/
inductive Run (cap : ℕ) : List α → List (Act α) → List α → Prop where
  | nil (q : List α) : Run cap q [] q
  | offer {q q' : List α} {acts : List (Act α)} (as : List α)
      (rest : Run cap (offer cap q as) acts q') : Run cap q (.offer as :: acts) q'
  | poll {q q' : List α} {acts : List (Act α)}
      (rest : Run cap q.tail acts q') : Run cap q (.poll q.head? :: acts) q'

def polled : List (Act α) → List α
  | [] => []
  | .offer _ :: acts => polled acts
  | .poll result :: acts => result.toList ++ polled acts

def enqueued (cap : ℕ) : List α → List (Act α) → List α
  | _, [] => []
  | q, .offer as :: acts => as.take (cap - q.length) ++ enqueued cap (offer cap q as) acts
  | q, .poll _ :: acts => enqueued cap q.tail acts

def dropped (cap : ℕ) : List α → List (Act α) → List α
  | _, [] => []
  | q, .offer as :: acts => as.drop (cap - q.length) ++ dropped cap (offer cap q as) acts
  | q, .poll _ :: acts => dropped cap q.tail acts

def offered : List (Act α) → List α
  | [] => []
  | .offer as :: acts => as ++ offered acts
  | .poll _ :: acts => offered acts

theorem polled_append (as bs : List (Act α)) : polled (as ++ bs) = polled as ++ polled bs := by
  induction as with
  | nil => rfl
  | cons a as ih =>
    cases a with
    | offer items => exact ih
    | poll result =>
      show result.toList ++ polled (as ++ bs) = _
      rw [ih, ← List.append_assoc]
      rfl

theorem offered_append (as bs : List (Act α)) :
    offered (as ++ bs) = offered as ++ offered bs := by
  induction as with
  | nil => rfl
  | cons a as ih =>
    cases a with
    | offer items =>
      show items ++ offered (as ++ bs) = _
      rw [ih, ← List.append_assoc]
      rfl
    | poll result => exact ih

theorem length_offered (cap : ℕ) (q : List α) (acts : List (Act α)) :
    (offered acts).length = (enqueued cap q acts).length + (dropped cap q acts).length := by
  induction acts generalizing q with
  | nil => rfl
  | cons a acts ih =>
    cases a with
    | offer as =>
      have hrest := ih (offer cap q as)
      simp only [offered, enqueued, dropped, List.length_append, List.length_take,
        List.length_drop]
      omega
    | poll result => exact ih q.tail

namespace Run

variable {cap : ℕ} {q q' q'' : List α} {acts more : List (Act α)}

theorem append (h : Run cap q acts q') (hmore : Run cap q' more q'') :
    Run cap q (acts ++ more) q'' := by
  induction h with
  | nil => exact hmore
  | offer as _ ih => exact .offer as (ih hmore)
  | poll _ ih => exact .poll (ih hmore)

/-- What was queued at first and what found room later has been polled, in this order,
or is still queued. -/
theorem conserved (h : Run cap q acts q') : q ++ enqueued cap q acts = polled acts ++ q' := by
  induction h with
  | nil q => exact List.append_nil q
  | offer as _ ih =>
    rw [enqueued, polled, ← ih, ← List.append_assoc]
    rfl
  | @poll q _ acts _ ih =>
    cases q with
    | nil => exact ih
    | cons a q =>
      show a :: (q ++ enqueued cap q acts) = a :: (polled acts ++ _)
      rw [← ih]
      rfl

theorem enqueued_append (h : Run cap q acts q') (more : List (Act α)) :
    enqueued cap q (acts ++ more) = enqueued cap q acts ++ enqueued cap q' more := by
  induction h with
  | nil => rfl
  | offer as _ ih =>
    rw [List.cons_append, enqueued, ih, enqueued, List.append_assoc]
  | poll _ ih => exact ih

theorem dropped_append (h : Run cap q acts q') (more : List (Act α)) :
    dropped cap q (acts ++ more) = dropped cap q acts ++ dropped cap q' more := by
  induction h with
  | nil => rfl
  | offer as _ ih =>
    rw [List.cons_append, dropped, ih, dropped, List.append_assoc]
  | poll _ ih => exact ih

end Run

/-! ### Systems with a queue -/

section Systems

variable {σ ε β γ : Type}

/-- What a system gives out over a list of calls. -/
def gather (step : σ → ε → σ) (out : σ → ε → List β) : σ → List ε → List β
  | _, [] => []
  | s, e :: es => out s e ++ gather step out (step s e) es

theorem gather_map (step : σ → ε → σ) {out : σ → ε → List β} {out' : σ → ε → List γ}
    (f : List β → List γ) (hnil : f [] = []) (happend : ∀ as bs, f (as ++ bs) = f as ++ f bs)
    (hout : ∀ s e, f (out s e) = out' s e) (s : σ) (es : List ε) :
    f (gather step out s es) = gather step out' s es := by
  induction es generalizing s with
  | nil => exact hnil
  | cons e es ih => rw [gather, gather, happend, hout, ih]

theorem gather_stateless (step : σ → ε → σ) (out : ε → List β) (s : σ) (es : List ε) :
    gather step (fun _ e => out e) s es = es.flatMap out := by
  induction es generalizing s with
  | nil => rfl
  | cons e es ih => rw [gather, ih, List.flatMap_cons]

/-- A system whose calls act on its queue as a bounded queue does. -/
theorem Run.of_steps {cap : ℕ} {step : σ → ε → σ} {acts : σ → ε → List (Act α)}
    {contents : σ → List α}
    (hstep : ∀ s e, Run cap (contents s) (acts s e) (contents (step s e)))
    (s : σ) (es : List ε) :
    Run cap (contents s) (gather step acts s es) (contents (es.foldl step s)) := by
  induction es generalizing s with
  | nil => exact .nil (contents s)
  | cons e es ih => exact (hstep s e).append (ih (step s e))

end Systems

/-- A history from the empty queue: `delivered` was offered, the polls brought `returned`,
and `left` is still queued. -/
structure Serves (cap : ℕ) (acts : List (Act α)) (delivered returned left : List α) : Prop where
  run : Run cap [] acts left
  offered_eq : offered acts = delivered
  polled_eq : polled acts = returned

namespace Serves

variable {cap : ℕ} {acts : List (Act α)} {delivered returned left : List α}

theorem enqueued_eq (h : Serves cap acts delivered returned left) :
    enqueued cap [] acts = returned ++ left := by
  rw [← h.polled_eq]
  exact h.run.conserved

theorem length_delivered (h : Serves cap acts delivered returned left) :
    delivered.length = (enqueued cap [] acts).length + (dropped cap [] acts).length := by
  rw [← h.offered_eq]
  exact length_offered cap [] acts

end Serves

end ZephyrModem.Memory.Fifo
