import Mathlib.Data.List.Basic

/-!
# Arrays filled through a cursor

A local array that is only ever written by `buf[pos++] = a`. The stores are kept
with the index they went to, also those past the end of the array: whether the
array is large enough is a question about them.
-/

namespace ZephyrModem.Memory

theorem map_fst_snoc {α : Type} {stores : List (ℕ × α)} {pos : ℕ}
    (h : stores.map Prod.fst = List.range pos) (a : α) :
    (stores ++ [(pos, a)]).map Prod.fst = List.range (pos + 1) := by
  rw [List.map_append, h, List.range_succ]
  rfl

/-- The stores so far, oldest first, and the next index. -/
structure Cursor (α : Type) where
  stores : List (ℕ × α)
  pos : ℕ
  dense : stores.map Prod.fst = List.range pos

namespace Cursor

variable {α : Type}

def start : Cursor α := ⟨[], 0, rfl⟩

/-- `buf[pos++] = a`. -/
def put (s : Cursor α) (a : α) : Cursor α :=
  ⟨s.stores ++ [(s.pos, a)], s.pos + 1, map_fst_snoc s.dense a⟩

def contents (s : Cursor α) : List α := s.stores.map Prod.snd

/-- Every store went into an array of `cap` cells. -/
def Within (s : Cursor α) (cap : ℕ) : Prop := ∀ w ∈ s.stores, w.1 < cap

instance (s : Cursor α) (cap : ℕ) : Decidable (s.Within cap) :=
  inferInstanceAs (Decidable (∀ w ∈ s.stores, w.1 < cap))

@[simp] theorem pos_start : (start : Cursor α).pos = 0 := rfl

@[simp] theorem contents_start : (start : Cursor α).contents = [] := rfl

@[simp] theorem pos_put (s : Cursor α) (a : α) : (s.put a).pos = s.pos + 1 := rfl

@[simp] theorem contents_put (s : Cursor α) (a : α) : (s.put a).contents = s.contents ++ [a] := by
  show (s.stores ++ [(s.pos, a)]).map Prod.snd = _
  rw [List.map_append]
  rfl

theorem length_contents (s : Cursor α) : s.contents.length = s.pos := by
  have hlen : (s.stores.map Prod.fst).length = s.pos := by
    rw [s.dense, List.length_range]
  rw [contents, List.length_map]
  rwa [List.length_map] at hlen

theorem mem_indices_iff (s : Cursor α) (i : ℕ) : (∃ w ∈ s.stores, w.1 = i) ↔ i < s.pos := by
  rw [← List.mem_range, ← s.dense, List.mem_map]

theorem within_iff (s : Cursor α) (cap : ℕ) : s.Within cap ↔ s.pos ≤ cap := by
  constructor
  · intro h
    apply Nat.le_of_not_lt
    intro hlt
    obtain ⟨w, hw, hcap⟩ := (s.mem_indices_iff cap).mpr hlt
    have := h w hw
    omega
  · intro h w hw
    have hlt : w.1 < s.pos := (s.mem_indices_iff w.1).mp ⟨w, hw, rfl⟩
    omega

/-- A loop that advances the cursor by `k` and appends `f b` for each item `b`. -/
theorem foldl_spec {β : Type} (body : Cursor α → β → Cursor α) (f : β → List α) (k : ℕ)
    (hbody : ∀ s b, (body s b).pos = s.pos + k ∧ (body s b).contents = s.contents ++ f b)
    (bs : List β) (s : Cursor α) :
    (bs.foldl body s).pos = s.pos + k * bs.length ∧
      (bs.foldl body s).contents = s.contents ++ bs.flatMap f := by
  induction bs generalizing s with
  | nil => simp
  | cons b bs ih =>
    obtain ⟨hpos, hcontents⟩ := hbody s b
    obtain ⟨ihpos, ihcontents⟩ := ih (body s b)
    rw [List.foldl_cons, ihpos, ihcontents, hpos, hcontents]
    constructor
    · rw [List.length_cons, Nat.mul_succ]
      omega
    · rw [List.flatMap_cons, List.append_assoc]

end Cursor

end ZephyrModem.Memory
