import Mathlib.Logic.Relation
import ZephyrModem.Memory.Fifo

/-!
# Two bounded queues with a medium between them

What is written waits in a queue of at most `capOut` items, travels in packets over a
medium that keeps their order, and waits in a queue of at most `capIn` items until it is
read. Items are lost at three places: in front of the first queue, on the way out of it,
and in front of the second queue.
-/

namespace ZephyrModem.Memory

variable {α : Type}

structure Relay (α : Type) where
  out : List α
  air : List (List α)
  inn : List α
  written : List α
  read : List α
  dropped : ℕ
  spilled : ℕ
  overflowed : ℕ

namespace Relay

def empty : Relay α := ⟨[], [], [], [], [], 0, 0, 0⟩

inductive Step (capOut capIn : ℕ) : Relay α → Relay α → Prop where
  | write (r : Relay α) (as : List α) :
    Step capOut capIn r
      { r with
        out := Fifo.offer capOut r.out as
        written := r.written ++ as
        dropped := r.dropped + (as.drop (capOut - r.out.length)).length }
  | send (r : Relay α) (n : ℕ) :
    Step capOut capIn r { r with out := r.out.drop n, air := r.air ++ [r.out.take n] }
  | spill (r : Relay α) (n : ℕ) :
    Step capOut capIn r
      { r with out := r.out.drop n, spilled := r.spilled + (r.out.take n).length }
  | deliver (r : Relay α) {as : List α} {air : List (List α)} (h : r.air = as :: air) :
    Step capOut capIn r
      { r with
        air := air
        inn := Fifo.offer capIn r.inn as
        overflowed := r.overflowed + (as.drop (capIn - r.inn.length)).length }
  | poll (r : Relay α) {a : α} {inn : List α} (h : r.inn = a :: inn) :
    Step capOut capIn r { r with inn := inn, read := r.read ++ [a] }

abbrev Run (capOut capIn : ℕ) : Relay α → Relay α → Prop :=
  Relation.ReflTransGen (Step capOut capIn)

/-- The packets offered, each on its own. -/
def packets : List (Fifo.Act α) → List (List α)
  | [] => []
  | .offer as :: acts => as :: packets acts
  | .poll _ :: acts => packets acts

/-- The second queue may be served by any history whose offers come off the medium. -/
theorem run_acts {capOut capIn : ℕ} {acts : List (Fifo.Act α)} {inn inn' : List α}
    (h : Fifo.Run capIn inn acts inn') (r : Relay α) (hinn : r.inn = inn) {air : List (List α)}
    (hair : r.air = packets acts ++ air) :
    Run capOut capIn r
      { r with
        air := air
        inn := inn'
        read := r.read ++ Fifo.polled acts
        overflowed := r.overflowed + (Fifo.dropped capIn inn acts).length } := by
  induction h generalizing r with
  | nil q =>
    have hsame : r = { r with
        air := air
        inn := q
        read := r.read ++ Fifo.polled []
        overflowed := r.overflowed + (Fifo.dropped capIn q []).length } := by
      cases r
      simp_all [packets, Fifo.polled, Fifo.dropped]
    rw [← hsame]
  | @offer q q' acts as _ ih =>
    have hstep : Step capOut capIn r _ := .deliver r hair
    refine .head hstep ?_
    have hrest := ih { r with
      air := packets acts ++ air
      inn := Fifo.offer capIn r.inn as
      overflowed := r.overflowed + (as.drop (capIn - r.inn.length)).length } (by rw [hinn]) rfl
    simp only [hinn, Fifo.polled, Fifo.dropped, List.length_append, Nat.add_assoc] at hrest ⊢
    exact hrest
  | @poll q q' acts _ ih =>
    cases q with
    | nil => exact ih r hinn hair
    | cons a q =>
      have hstep : Step capOut capIn r _ := .poll r hinn
      refine .head hstep ?_
      have hrest := ih { r with inn := q, read := r.read ++ [a] } rfl hair
      simp only [List.append_assoc] at hrest
      exact hrest

/-- What has been read and what is still on the way, the oldest first. -/
def held (r : Relay α) : List α := r.read ++ (r.inn ++ (r.air.flatten ++ r.out))

/-- Nothing is made up, doubled or overtaken, and the three counts say how much is missing. -/
structure Accounted (r : Relay α) : Prop where
  sublist : r.held.Sublist r.written
  length : r.written.length = r.held.length + r.dropped + r.spilled + r.overflowed

variable {capOut capIn : ℕ} {r r' : Relay α}

theorem accounted_empty : Accounted (empty : Relay α) := ⟨List.Sublist.refl _, rfl⟩

/-- One step either keeps what is held or loses what it counts. -/
theorem Step.held (h : Step capOut capIn r r') (hr : r.held.Sublist r.written) :
    r'.held.Sublist r'.written ∧
      r'.written.length + r.held.length + r.dropped + r.spilled + r.overflowed =
        r.written.length + r'.held.length + r'.dropped + r'.spilled + r'.overflowed := by
  cases h with
  | write as =>
    have hheld : ({ r with
        out := Fifo.offer capOut r.out as
        written := r.written ++ as
        dropped := r.dropped + (as.drop (capOut - r.out.length)).length } : Relay α).held =
          r.held ++ as.take (capOut - r.out.length) := by
      simp only [Relay.held, Fifo.offer, List.append_assoc]
    rw [hheld]
    refine ⟨hr.append (List.take_sublist _ _), ?_⟩
    have hcut := congrArg List.length (List.take_append_drop (capOut - r.out.length) as)
    simp only [List.length_append] at hcut ⊢
    omega
  | send n =>
    have hheld : ({ r with out := r.out.drop n, air := r.air ++ [r.out.take n] } : Relay α).held =
        r.held := by
      simp only [Relay.held, List.flatten_append, List.flatten_cons, List.flatten_nil,
        List.append_nil, List.append_assoc, List.take_append_drop]
    rw [hheld]
    exact ⟨hr, rfl⟩
  | spill n =>
    have hout : (r.out.drop n).Sublist r.out := List.drop_sublist n r.out
    have hless := (((hout.append_left r.air.flatten).append_left r.inn).append_left r.read).trans hr
    refine ⟨hless, ?_⟩
    have hcut := congrArg List.length (List.take_append_drop n r.out)
    simp only [Relay.held, List.length_append] at hcut ⊢
    omega
  | @deliver as air h =>
    have hcut := List.take_append_drop (capIn - r.inn.length) as
    have hkept : (as.take (capIn - r.inn.length) ++ (air.flatten ++ r.out)).Sublist
        (as ++ (air.flatten ++ r.out)) := (List.take_sublist _ _).append_right _
    have hless := ((hkept.append_left r.inn).append_left r.read)
    simp only [Relay.held, h, List.flatten_cons, List.append_assoc] at hr
    have hlen := congrArg List.length hcut
    simp only [Relay.held, Fifo.offer, h, List.flatten_cons, List.append_assoc, List.length_append]
      at hlen ⊢
    exact ⟨hless.trans hr, by omega⟩
  | @poll a inn h =>
    have hheld : ({ r with inn := inn, read := r.read ++ [a] } : Relay α).held = r.held := by
      simp only [Relay.held, h, List.cons_append, List.append_assoc, List.nil_append]
    rw [hheld]
    exact ⟨hr, rfl⟩

theorem Accounted.step (hr : Accounted r) (h : Step capOut capIn r r') : Accounted r' := by
  obtain ⟨hsublist, hlen⟩ := h.held hr.sublist
  refine ⟨hsublist, ?_⟩
  have := hr.length
  omega

theorem Accounted.run (hr : Accounted r) (h : Run capOut capIn r r') : Accounted r' := by
  induction h with
  | refl => exact hr
  | tail _ hstep ih => exact ih.step hstep

/-- Without losses everything written has been read or is on the way. -/
theorem Accounted.held_eq_iff (hr : Accounted r) :
    r.held = r.written ↔ r.dropped + r.spilled + r.overflowed = 0 := by
  have hlen := hr.length
  constructor
  · intro heq
    rw [heq] at hlen
    omega
  · intro hzero
    exact hr.sublist.eq_of_length (by omega)

end Relay

end ZephyrModem.Memory
