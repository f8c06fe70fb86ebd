import Mathlib.Data.List.Basic

/-!
# The last items of a stream

An array of `cap` cells that the items of a stream are written to round and round. The
item with index `j` is in cell `j % cap` until `cap` more have come.
-/

namespace ZephyrModem.Memory

variable {α : Type} {cap : ℕ}

def Window (cells : Vector α cap) (stream : List α) : Prop :=
  ∀ j (_ : j < stream.length) (_ : j % cap < cap), stream.length ≤ j + cap →
    cells[j % cap] = stream[j]

namespace Window

theorem nil (cells : Vector α cap) : Window cells [] :=
  fun _ hj _ _ => absurd hj (Nat.not_lt_zero _)

/-- Two indices less than `cap` apart do not share a cell. -/
theorem mod_ne {j n : ℕ} (hlt : j < n) (hnear : n < j + cap) : j % cap ≠ n % cap := by
  intro heq
  have hdvd : (n - j) % cap = 0 := Nat.sub_mod_eq_zero_of_mod_eq heq.symm
  rw [Nat.mod_eq_of_lt (by omega)] at hdvd
  omega

theorem snoc {cells : Vector α cap} {stream : List α} (h : Window cells stream) (hcap : 0 < cap)
    (a : α) :
    Window (cells.set (stream.length % cap) a (Nat.mod_lt _ hcap)) (stream ++ [a]) := by
  intro j hj _ hnear
  rw [List.length_append, List.length_singleton] at hj hnear
  by_cases hlast : j = stream.length
  · subst hlast
    rw [Vector.getElem_set_self, List.getElem_concat_length rfl]
  · have hlt : j < stream.length := by omega
    have hne := mod_ne hlt (by omega : stream.length < j + cap)
    rw [Vector.getElem_set_ne _ _ (Ne.symm hne), List.getElem_append_left hlt]
    exact h j hlt (Nat.mod_lt j hcap) (by omega)

end Window

end ZephyrModem.Memory
