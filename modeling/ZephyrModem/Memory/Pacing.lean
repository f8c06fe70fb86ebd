import Mathlib.Algebra.Ring.Nat
import ZephyrModem.Memory.Fifo

/-!
# A bounded queue drained a portion at a time

After every offer at most `portion` items leave the queue. Everything has left at the
end exactly when the lengths of the offers are paced: every block of offers in a row is
small enough for the room there is and what leaves in between, and every block at the
end for what leaves.
-/

namespace ZephyrModem.Memory.Fifo

variable {α : Type}

/-- What leaves over the offers `ws`, the queue being `q` at first. -/
def drained (cap portion : ℕ) : List α → List (List α) → List α
  | _, [] => []
  | q, w :: ws =>
    (offer cap q w).take portion ++ drained cap portion ((offer cap q w).drop portion) ws

/-- Offers of these lengths find room, and at the end nothing is left. -/
def Fits (cap portion : ℕ) : ℕ → List ℕ → Prop
  | n, [] => n = 0
  | n, l :: lens => n + l ≤ cap ∧ Fits cap portion (n + l - portion) lens

instance decidableFits (cap portion : ℕ) :
    (n : ℕ) → (lens : List ℕ) → Decidable (Fits cap portion n lens)
  | n, [] => inferInstanceAs (Decidable (n = 0))
  | n, l :: lens =>
    haveI := decidableFits cap portion (n + l - portion) lens
    inferInstanceAs (Decidable (n + l ≤ cap ∧ Fits cap portion (n + l - portion) lens))

theorem length_drained_le (cap portion : ℕ) (q : List α) (ws : List (List α)) :
    (drained cap portion q ws).length ≤ q.length + ws.flatten.length := by
  induction ws generalizing q with
  | nil => exact Nat.zero_le _
  | cons w ws ih =>
    have hrest := ih ((offer cap q w).drop portion)
    have hoffer := length_offer cap q w
    simp only [drained, List.flatten_cons, List.length_append, List.length_take,
      List.length_drop] at hrest ⊢
    omega

theorem drained_eq_iff {cap : ℕ} (portion : ℕ) {q : List α} (hq : q.length ≤ cap)
    (ws : List (List α)) : drained cap portion q ws = q ++ ws.flatten ↔
      Fits cap portion q.length (ws.map List.length) := by
  induction ws generalizing q with
  | nil =>
    show [] = q ++ [] ↔ q.length = 0
    rw [List.append_nil, List.length_eq_zero_iff, eq_comm]
  | cons w ws ih =>
    have hrest := length_drained_le cap portion ((offer cap q w).drop portion) ws
    have hoffer := length_offer cap q w
    rw [List.map_cons, Fits, drained, List.flatten_cons]
    by_cases hroom : q.length + w.length ≤ cap
    · have hlen : q.length + w.length - portion = ((q ++ w).drop portion).length := by
        rw [List.length_drop, List.length_append]
      have hsplit : q ++ (w ++ ws.flatten) =
          (q ++ w).take portion ++ ((q ++ w).drop portion ++ ws.flatten) := by
        rw [← List.append_assoc, ← List.append_assoc, List.take_append_drop]
      have hle : ((q ++ w).drop portion).length ≤ cap := by omega
      rw [offer_of_fits hroom, hsplit, List.append_cancel_left_eq, ih hle, hlen]
      exact (and_iff_right hroom).symm
    · -- something is dropped, and the lengths differ
      constructor
      · intro heq
        have hlens := congrArg List.length heq
        simp only [List.length_append, List.length_take, List.length_drop] at hlens hrest
        omega
      · intro h
        exact absurd h.1 hroom

/-- Offers of the lengths `lens` to an empty queue. -/
structure Paced (cap portion : ℕ) (lens : List ℕ) : Prop where
  room : ∀ block, block <:+: lens → block ≠ [] →
    block.sum + portion ≤ cap + portion * block.length
  emptied : ∀ block, block <:+ lens → block.sum ≤ portion * block.length

structure PacedFrom (cap portion n : ℕ) (lens : List ℕ) : Prop extends Paced cap portion lens where
  roomFirst : ∀ block, block <+: lens → block ≠ [] →
    n + block.sum + portion ≤ cap + portion * block.length
  emptiedFirst : n + lens.sum ≤ portion * lens.length

theorem pacedFrom_nil_iff (cap portion n : ℕ) : PacedFrom cap portion n [] ↔ n = 0 := by
  constructor
  · intro h
    exact Nat.le_zero.mp h.emptiedFirst
  · intro h
    subst h
    refine ⟨⟨?_, ?_⟩, ?_, Nat.le_refl 0⟩
    · intro block hblock hne
      exact absurd (List.infix_nil.mp hblock) hne
    · intro block hblock
      rw [List.suffix_nil.mp hblock]
      exact Nat.le_refl 0
    · intro block hblock hne
      exact absurd (List.prefix_nil.mp hblock) hne

theorem PacedFrom.head {cap portion n l : ℕ} {lens : List ℕ}
    (h : PacedFrom cap portion n (l :: lens)) : n + l ≤ cap := by
  have hone := h.roomFirst [l] ⟨lens, rfl⟩ (List.cons_ne_nil l [])
  simp only [List.sum_cons, List.sum_nil, List.length_cons, List.length_nil] at hone
  omega

theorem PacedFrom.tail {cap portion n l : ℕ} {lens : List ℕ}
    (h : PacedFrom cap portion n (l :: lens)) :
    PacedFrom cap portion (n + l - portion) lens where
  room block hblock := h.room block (List.infix_cons hblock)
  emptied block hblock := h.emptied block (hblock.trans (List.suffix_cons l lens))
  roomFirst := by
    intro block hblock hne
    have hlong := h.roomFirst (l :: block) (List.prefix_cons_inj l |>.mpr hblock)
      (List.cons_ne_nil l block)
    have hshort := h.room block (List.infix_cons hblock.isInfix) hne
    simp only [List.sum_cons, List.length_cons, Nat.mul_add] at hlong
    omega
  emptiedFirst := by
    have hlong := h.emptiedFirst
    have hshort := h.emptied lens (List.suffix_cons l lens)
    simp only [List.sum_cons, List.length_cons, Nat.mul_add] at hlong
    omega

theorem PacedFrom.cons {cap portion n l : ℕ} {lens : List ℕ} (hl : n + l ≤ cap)
    (h : PacedFrom cap portion (n + l - portion) lens) : PacedFrom cap portion n (l :: lens) := by
  have hfirst : ∀ block, block <+: l :: lens → block ≠ [] →
      n + block.sum + portion ≤ cap + portion * block.length := by
    intro block hblock hne
    cases block with
    | nil => exact absurd rfl hne
    | cons l' block =>
      obtain ⟨rfl, htail⟩ := List.cons_prefix_cons.mp hblock
      simp only [List.sum_cons, List.length_cons, Nat.mul_add]
      cases block with
      | nil =>
        simp only [List.sum_nil, List.length_nil]
        omega
      | cons a block =>
        have hrest := h.roomFirst (a :: block) htail (List.cons_ne_nil a block)
        omega
  have hall : n + (l :: lens).sum ≤ portion * (l :: lens).length := by
    have hrest := h.emptiedFirst
    simp only [List.sum_cons, List.length_cons, Nat.mul_add]
    omega
  refine ⟨⟨?_, ?_⟩, hfirst, hall⟩
  · intro block hblock hne
    cases List.infix_cons_iff.mp hblock with
    | inl hprefix =>
      have hblock := hfirst block hprefix hne
      omega
    | inr hinfix => exact h.room block hinfix hne
  · intro block hblock
    cases List.suffix_cons_iff.mp hblock with
    | inl heq =>
      rw [heq]
      omega
    | inr hsuffix => exact h.emptied block hsuffix

theorem fits_iff_pacedFrom (cap portion n : ℕ) (lens : List ℕ) :
    Fits cap portion n lens ↔ PacedFrom cap portion n lens := by
  induction lens generalizing n with
  | nil => exact (pacedFrom_nil_iff cap portion n).symm
  | cons l lens ih =>
    rw [Fits, ih]
    constructor
    · intro h
      exact PacedFrom.cons h.1 h.2
    · intro h
      exact ⟨h.head, h.tail⟩

theorem pacedFrom_zero_iff (cap portion : ℕ) (lens : List ℕ) :
    PacedFrom cap portion 0 lens ↔ Paced cap portion lens := by
  constructor
  · intro h
    exact h.toPaced
  · intro h
    refine ⟨h, ?_, ?_⟩
    · intro block hblock hne
      rw [Nat.zero_add]
      exact h.room block hblock.isInfix hne
    · rw [Nat.zero_add]
      exact h.emptied lens (List.suffix_refl lens)

instance (cap portion : ℕ) (lens : List ℕ) : Decidable (Paced cap portion lens) :=
  decidable_of_iff (Fits cap portion 0 lens)
    ((fits_iff_pacedFrom cap portion 0 lens).trans (pacedFrom_zero_iff cap portion lens))

/-- From an empty queue everything that is offered leaves, in order, exactly when the
offers are paced. -/
theorem drained_eq_flatten_iff (cap portion : ℕ) (ws : List (List α)) :
    drained cap portion [] ws = ws.flatten ↔ Paced cap portion (ws.map List.length) := by
  rw [← pacedFrom_zero_iff, ← fits_iff_pacedFrom]
  exact drained_eq_iff portion (Nat.zero_le cap) ws

end ZephyrModem.Memory.Fifo
