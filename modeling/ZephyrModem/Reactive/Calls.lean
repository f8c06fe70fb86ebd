import ZephyrModem.Reactive.Process

/-!
# Calls of a reader

A reader that is called on a line which delivers some items and then falls
silent, once or several times in a row.
-/

namespace ZephyrModem.Reactive

section Calls

variable {β τ α γ : Type} (rd : Reader (ReadResult β) τ α)

/-- One call: what it returns, and what it leaves unread. -/
def call (start : τ) (bs : List β) : Next τ α × List β :=
  match parse rd (.wait start) bs with
  | (.done a, rest) => (.done a, rest)
  | (.wait t, rest) => (rd t .timeout, rest)

/-- `n` calls, each on what the one before it left unread. -/
def calls (start : τ) : ℕ → List β → List (Next τ α) × List β
  | 0, bs => ([], bs)
  | n + 1, bs =>
    let first := call rd start bs
    let others := calls start n first.2
    (first.1 :: others.1, others.2)

variable {rd}

theorem call_of_done {start : τ} {bs rest : List β} {a : α}
    (h : parse rd (.wait start) bs = (.done a, rest)) : call rd start bs = (.done a, rest) := by
  rw [call, h]

theorem call_of_wait {start t : τ} {bs rest : List β}
    (h : parse rd (.wait start) bs = (.wait t, rest)) : call rd start bs = (rd t .timeout, rest) := by
  rw [call, h]

/-- How a reader goes on with what another reader does for it. -/
def Next.into {υ : Type} (wrap : τ → υ) (k : α → Next υ γ) : Next τ α → Next υ γ
  | .wait t => .wait (wrap t)
  | .done a => k a

theorem parse_into {υ : Type} (outer : Reader (ReadResult β) υ γ) (wrap : τ → υ) (k : α → Next υ γ)
    (hstep : ∀ t i, outer (wrap t) i = (rd t i).into wrap k) {t : τ} {bs rest : List β} {a : α}
    (h : parse rd (.wait t) bs = (.done a, rest)) :
    parse outer (.wait (wrap t)) bs = parse outer (k a) rest := by
  rw [parse_embed rd outer wrap k, h]
  intro t i
  rw [hstep]
  cases rd t i <;> rfl

theorem parse_into_wait {υ : Type} (outer : Reader (ReadResult β) υ γ) (wrap : τ → υ)
    (k : α → Next υ γ) (hstep : ∀ t i, outer (wrap t) i = (rd t i).into wrap k) {t t' : τ}
    {bs : List β} (h : parse rd (.wait t) bs = (.wait t', [])) :
    parse outer (.wait (wrap t)) bs = (.wait (wrap t'), []) := by
  rw [parse_embed rd outer wrap k, h]
  intro t i
  rw [hstep]
  cases rd t i <;> rfl

/-- A call depends on its start only through what it reads from there. -/
theorem call_congr {start start' : τ} {bs bs' : List β}
    (h : parse rd (.wait start) bs = parse rd (.wait start') bs') :
    call rd start bs = call rd start' bs' := by
  rw [call, call, h]

/-- Items that a caller consumes without returning. -/
theorem parse_append_of_wait {n : Next τ α} {t : τ} {as : List β}
    (h : parse rd n as = (.wait t, [])) (bs : List β) :
    parse rd n (as ++ bs) = parse rd (.wait t) bs := by
  induction as generalizing n with
  | nil =>
    rw [parse_nil] at h
    rw [List.nil_append, (Prod.mk.inj h).1]
  | cons a as ih =>
    cases n with
    | done a =>
      rw [parse_done] at h
      cases h
    | wait s => exact ih h

/-- Invariant rule: what one item preserves, every stretch of items preserves. -/
theorem parse_invariant (I : τ → Prop)
    (hstep : ∀ t b t', I t → rd t (.ok b) = .wait t' → I t') {t t' : τ} {bs rest : List β}
    (ht : I t) (h : parse rd (.wait t) bs = (.wait t', rest)) : I t' := by
  induction bs generalizing t with
  | nil =>
    rw [parse_nil] at h
    cases h
    exact ht
  | cons b bs ih =>
    rw [parse_cons] at h
    cases hb : rd t (.ok b) with
    | done a =>
      rw [hb, parse_done] at h
      cases h
    | wait s =>
      rw [hb] at h
      exact ih (hstep t b s ht hb) h

/-- The reader of a stream of items: each call returns one of them and may leave
junk behind, which the next call skips. -/
theorem calls_flatMap {start : τ} (emit : γ → List β) (value : γ → α) (left : γ → List β)
    (junk : List β → Prop) (hleft : ∀ x, junk (left x))
    (hread : ∀ bs x rest, junk bs →
      parse rd (.wait start) (bs ++ (emit x ++ rest)) = (.done (value x), left x ++ rest))
    (xs : List γ) (bs rest : List β) (hbs : junk bs) :
    calls rd start xs.length (bs ++ (xs.flatMap emit ++ rest)) =
      (xs.map fun x => .done (value x), (xs.getLast?.map left).getD bs ++ rest) := by
  induction xs generalizing bs with
  | nil => rfl
  | cons x xs ih =>
    have hfirst : call rd start (bs ++ ((x :: xs).flatMap emit ++ rest)) =
        (.done (value x), left x ++ (xs.flatMap emit ++ rest)) := by
      rw [List.flatMap_cons, List.append_assoc]
      exact call_of_done (hread bs x _ hbs)
    have hlast : (((x :: xs).getLast?).map left).getD bs = (xs.getLast?.map left).getD (left x) := by
      cases xs with
      | nil => rfl
      | cons y ys => simp [List.getLast?_eq_some_getLast]
    rw [List.length_cons, calls, hfirst, ih (left x) (hleft x), hlast]
    rfl

end Calls

end ZephyrModem.Reactive
