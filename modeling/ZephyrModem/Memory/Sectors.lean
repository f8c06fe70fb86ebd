import Mathlib.Algebra.Order.Floor.Div
import Mathlib.Data.List.Nodup

/-!
# Storage that is erased by sectors

The cells of a sector are erased together, and a cell is programmed once after that. A
writer that goes through the cells in order erases a sector when it comes to its first
cell.
-/

namespace ZephyrModem.Memory.Sectors

inductive Act where
  | erase (sector : ℕ)
  | program (cell : ℕ)
  deriving Repr, DecidableEq

def Act.erased? : Act → Option ℕ
  | .erase sector => some sector
  | .program _ => none

def Act.programmed? : Act → Option ℕ
  | .erase _ => none
  | .program cell => some cell

/-- Acts on a storage with sectors of `s` cells: each cell is programmed after its sector
was erased, nothing is done twice, and no sector is erased for nothing. -/
structure Disciplined (s : ℕ) (acts : List Act) : Prop where
  erasedBefore : ∀ before cell after, acts = before ++ .program cell :: after →
    .erase (cell / s) ∈ before
  erasedOnce : (acts.filterMap Act.erased?).Nodup
  programmedOnce : (acts.filterMap Act.programmed?).Nodup
  needed : ∀ sector, .erase sector ∈ acts → ∃ cell, .program cell ∈ acts ∧ cell / s = sector

/-! ### Rounding up -/

theorem lt_ceilDiv_iff {s n k : ℕ} (hs : 0 < s) : k < n ⌈/⌉ s ↔ s * k < n := by
  rw [← Nat.not_le, ceilDiv_le_iff_le_mul hs, Nat.not_le]

theorem div_lt_ceilDiv {s n i : ℕ} (hs : 0 < s) (h : i < n) : i / s < n ⌈/⌉ s :=
  (lt_ceilDiv_iff hs).mpr (Nat.lt_of_le_of_lt (Nat.mul_div_le i s) h)

theorem ceilDiv_le_ceilDiv {s n m : ℕ} (hs : 0 < s) (h : n ≤ m) : n ⌈/⌉ s ≤ m ⌈/⌉ s :=
  (ceilDiv_le_iff_le_mul hs).mpr (h.trans ((ceilDiv_le_iff_le_mul hs).mp le_rfl))

theorem le_ceilDiv_mul {s n : ℕ} (hs : 0 < s) : n ≤ n ⌈/⌉ s * s := by
  rw [Nat.mul_comm]
  exact (ceilDiv_le_iff_le_mul hs).mp le_rfl

theorem ceilDiv_mul_lt {s n : ℕ} (hs : 0 < s) : n ⌈/⌉ s * s < n + s := by
  have hle : n ⌈/⌉ s * s ≤ n + s - 1 := Nat.div_mul_le_self (n + s - 1) s
  omega

/-! ### A writer in order -/

/-- From cell `n` to cell `m`. -/
def advance (s n m : ℕ) : List Act :=
  (List.range' (n ⌈/⌉ s) (m ⌈/⌉ s - n ⌈/⌉ s)).map .erase ++
    (List.range' n (m - n)).map .program

/-- The acts that led to cell `n`. -/
structure Sequential (s n : ℕ) (acts : List Act) : Prop where
  erased : acts.filterMap Act.erased? = List.range (n ⌈/⌉ s)
  programmed : acts.filterMap Act.programmed? = List.range n
  erasedBefore : ∀ before cell after, acts = before ++ .program cell :: after →
    .erase (cell / s) ∈ before

theorem erased_advance (s n m : ℕ) :
    (advance s n m).filterMap Act.erased? = List.range' (n ⌈/⌉ s) (m ⌈/⌉ s - n ⌈/⌉ s) := by
  have hprograms : ((List.range' n (m - n)).map Act.program).filterMap Act.erased? = [] := by
    rw [List.filterMap_map, List.filterMap_eq_nil_iff]
    intro i _
    rfl
  have herases : ∀ l : List ℕ, (l.map Act.erase).filterMap Act.erased? = l := by
    intro l
    rw [List.filterMap_map]
    exact List.filterMap_some
  rw [advance, List.filterMap_append, hprograms, List.append_nil, herases]

theorem programmed_advance (s n m : ℕ) :
    (advance s n m).filterMap Act.programmed? = List.range' n (m - n) := by
  have herases : ∀ l : List ℕ, (l.map Act.erase).filterMap Act.programmed? = [] := by
    intro l
    rw [List.filterMap_map, List.filterMap_eq_nil_iff]
    intro i _
    rfl
  have hprograms : ∀ l : List ℕ, (l.map Act.program).filterMap Act.programmed? = l := by
    intro l
    rw [List.filterMap_map]
    exact List.filterMap_some
  rw [advance, List.filterMap_append, herases, List.nil_append, hprograms]

theorem range_append_range' {n m : ℕ} (h : n ≤ m) :
    List.range n ++ List.range' n (m - n) = List.range m := by
  rw [List.range_eq_range', List.range_eq_range']
  have happend : List.range' 0 n ++ List.range' (0 + n) (m - n) = List.range' 0 (n + (m - n)) :=
    List.range'_append_1
  rw [Nat.zero_add, Nat.add_sub_cancel' h] at happend
  exact happend

theorem prefix_of_not_mem {a : Act} {l r x y : List Act} (h : l ++ r = x ++ a :: y) (ha : a ∉ l) :
    l <+: x := by
  rcases List.append_eq_append_iff.mp h with ⟨z, rfl, -⟩ | ⟨z, rfl, hz⟩
  · exact List.prefix_append l z
  · cases z with
    | nil =>
      rw [List.append_nil]
    | cons c z =>
      rw [(List.cons.inj hz).1] at ha
      exact absurd (List.mem_append_right x (List.mem_cons_self ..)) ha

theorem erase_mem {s n k : ℕ} {acts : List Act} (h : Sequential s n acts) (hk : k < n ⌈/⌉ s) :
    .erase k ∈ acts := by
  have hmem : k ∈ acts.filterMap Act.erased? := by
    rw [h.erased]
    exact List.mem_range.mpr hk
  obtain ⟨act, hact, hsome⟩ := List.mem_filterMap.mp hmem
  cases act with
  | erase sector =>
    cases hsome
    exact hact
  | program cell => cases hsome

theorem Sequential.start (s : ℕ) : Sequential s 0 [] where
  erased := by
    rw [zero_ceilDiv]
    rfl
  programmed := rfl
  erasedBefore := by
    intro before cell after h
    exact absurd h.symm (List.append_ne_nil_of_right_ne_nil before (List.cons_ne_nil _ _))

theorem erase_mem_of_advance {s n m cell : ℕ} {acts x after : List Act} (hs : 0 < s)
    (h : Sequential s n acts) (hadvance : advance s n m = x ++ .program cell :: after) :
    .erase (cell / s) ∈ acts ++ x := by
  have hcell : cell ∈ List.range' n (m - n) := by
    rw [← programmed_advance s, hadvance, List.filterMap_append]
    exact List.mem_append_right _ (List.mem_cons_self ..)
  rw [List.mem_range'_1] at hcell
  have hlt : cell / s < m ⌈/⌉ s := div_lt_ceilDiv hs (by omega)
  -- the erasures come first
  have hnot : Act.program cell ∉ (List.range' (n ⌈/⌉ s) (m ⌈/⌉ s - n ⌈/⌉ s)).map Act.erase := by
    intro hmem
    obtain ⟨i, -, hi⟩ := List.mem_map.mp hmem
    cases hi
  have hprefix := prefix_of_not_mem hadvance hnot
  by_cases hold : cell / s < n ⌈/⌉ s
  · exact List.mem_append_left _ (erase_mem h hold)
  · apply List.mem_append_right
    apply hprefix.subset
    apply List.mem_map_of_mem
    rw [List.mem_range'_1]
    omega

theorem Sequential.advance {s n m : ℕ} {acts : List Act} (hs : 0 < s) (h : Sequential s n acts)
    (hle : n ≤ m) : Sequential s m (acts ++ advance s n m) where
  erased := by
    rw [List.filterMap_append, h.erased, erased_advance,
      range_append_range' (ceilDiv_le_ceilDiv hs hle)]
  programmed := by
    rw [List.filterMap_append, h.programmed, programmed_advance, range_append_range' hle]
  erasedBefore := by
    intro before cell after hacts
    rcases List.append_eq_append_iff.mp hacts with ⟨x, rfl, htail⟩ | ⟨x, hfirst, hrest⟩
    · exact erase_mem_of_advance hs h htail
    · cases x with
      | nil =>
        have hmem := erase_mem_of_advance hs h (x := []) hrest.symm
        rw [hfirst, List.append_nil, List.append_nil] at hmem
        exact hmem
      | cons c x =>
        obtain ⟨rfl, -⟩ := List.cons.inj hrest
        exact h.erasedBefore before cell x hfirst

theorem Sequential.disciplined {s n : ℕ} {acts : List Act} (hs : 0 < s)
    (h : Sequential s n acts) : Disciplined s acts where
  erasedBefore := h.erasedBefore
  erasedOnce := by
    rw [h.erased]
    exact List.nodup_range
  programmedOnce := by
    rw [h.programmed]
    exact List.nodup_range
  needed := by
    intro sector hsector
    have herased : sector ∈ acts.filterMap Act.erased? :=
      List.mem_filterMap.mpr ⟨.erase sector, hsector, rfl⟩
    rw [h.erased, List.mem_range, lt_ceilDiv_iff hs] at herased
    have hcell : s * sector ∈ acts.filterMap Act.programmed? := by
      rw [h.programmed]
      exact List.mem_range.mpr herased
    obtain ⟨act, hact, hsome⟩ := List.mem_filterMap.mp hcell
    cases act with
    | erase sector => cases hsome
    | program cell =>
      cases hsome
      exact ⟨s * sector, hact, Nat.mul_div_cancel_left sector hs⟩

end ZephyrModem.Memory.Sectors
