import ZephyrModem.Memory.Fifo

/-!
# Ring buffers

An array of `cap` cells with the next cell to fill (`head`), the oldest cell in use
(`tail`) and the number of cells in use. It refines a bounded queue.
-/

namespace ZephyrModem.Memory

theorem mod_of_lt_twice {n cap : ℕ} (h : n < 2 * cap) :
    n % cap = if n < cap then n else n - cap := by
  by_cases hn : n < cap
  · rw [if_pos hn, Nat.mod_eq_of_lt hn]
  · rw [if_neg hn, Nat.mod_eq_sub_mod (Nat.le_of_not_lt hn), Nat.mod_eq_of_lt (by omega)]

structure Ring (α : Type) (cap : ℕ) where
  buf : Vector α cap
  head : ℕ
  tail : ℕ
  count : ℕ
  tail_lt : tail < cap
  count_le : count ≤ cap
  head_eq : head = (tail + count) % cap

namespace Ring

variable {α : Type} {cap : ℕ}

theorem cap_pos (r : Ring α cap) : 0 < cap := Nat.zero_lt_of_lt r.tail_lt

theorem head_lt (r : Ring α cap) : r.head < cap := by
  rw [r.head_eq]
  exact Nat.mod_lt _ r.cap_pos

/-- All cells hold `a` and none is in use. -/
def zeroed (a : α) (hcap : 0 < cap) : Ring α cap where
  buf := Vector.replicate cap a
  head := 0
  tail := 0
  count := 0
  tail_lt := hcap
  count_le := Nat.zero_le _
  head_eq := (Nat.zero_mod _).symm

def reset (r : Ring α cap) : Ring α cap where
  buf := r.buf
  head := 0
  tail := 0
  count := 0
  tail_lt := r.cap_pos
  count_le := Nat.zero_le _
  head_eq := (Nat.zero_mod _).symm

def push (r : Ring α cap) (a : α) : Ring α cap :=
  if h : r.count < cap then
    { buf := r.buf.set r.head a r.head_lt
      head := (r.head + 1) % cap
      tail := r.tail
      count := r.count + 1
      tail_lt := r.tail_lt
      count_le := h
      head_eq := by rw [r.head_eq, Nat.mod_add_mod, Nat.add_assoc] }
  else r

/-- The cell at the tail is read and given back. -/
def shift (r : Ring α cap) (h : 0 < r.count) : α × Ring α cap :=
  (r.buf.get ⟨r.tail, r.tail_lt⟩,
    { buf := r.buf
      head := r.head
      tail := (r.tail + 1) % cap
      count := r.count - 1
      tail_lt := Nat.mod_lt _ r.cap_pos
      count_le := Nat.le_trans (Nat.sub_le _ _) r.count_le
      head_eq := by
        have hsum : r.tail + 1 + (r.count - 1) = r.tail + r.count := by omega
        rw [Nat.mod_add_mod, hsum]
        exact r.head_eq })

def cell (r : Ring α cap) (i : ℕ) : α := r.buf.get ⟨(r.tail + i) % cap, Nat.mod_lt _ r.cap_pos⟩

/-- The queue that the ring stands for, oldest item first. -/
def contents (r : Ring α cap) : List α := (List.range r.count).map r.cell

@[simp] theorem length_contents (r : Ring α cap) : r.contents.length = r.count := by
  rw [contents, List.length_map, List.length_range]

theorem contents_eq_nil_iff (r : Ring α cap) : r.contents = [] ↔ r.count = 0 := by
  rw [← List.length_eq_zero_iff, length_contents]

theorem index_ne_head (r : Ring α cap) {i : ℕ} (hi : i < r.count) (hcount : r.count < cap) :
    (r.tail + i) % cap ≠ r.head := by
  have ht := r.tail_lt
  rw [r.head_eq, mod_of_lt_twice (by omega), mod_of_lt_twice (by omega)]
  split <;> split <;> omega

theorem contents_push (r : Ring α cap) (a : α) :
    (r.push a).contents = if r.count < cap then r.contents ++ [a] else r.contents := by
  unfold push
  by_cases h : r.count < cap
  · rw [dif_pos h, if_pos h, contents, List.range_succ, List.map_append, List.map_singleton]
    congr 1
    · apply List.map_congr_left
      intro i hi
      have hne := r.index_ne_head (List.mem_range.mp hi) h
      exact Vector.getElem_set_ne r.head_lt (Nat.mod_lt _ r.cap_pos) (Ne.symm hne)
    · simp only [cell, ← r.head_eq]
      exact congrArg (fun b => [b]) (Vector.getElem_set_self r.head_lt)
  · rw [dif_neg h, if_neg h]

theorem contents_push_offer (r : Ring α cap) (a : α) :
    (r.push a).contents = Fifo.offer cap r.contents [a] := by
  rw [contents_push, Fifo.offer_singleton, length_contents]

theorem contents_shift (r : Ring α cap) (h : 0 < r.count) :
    r.contents = (r.shift h).1 :: (r.shift h).2.contents := by
  have hcount : r.count = (r.count - 1) + 1 := by omega
  rw [contents, hcount, List.range_succ_eq_map, List.map_cons, List.map_map]
  congr 1
  · simp only [cell, shift, Nat.add_zero, Nat.mod_eq_of_lt r.tail_lt]
  · apply List.map_congr_left
    intro i _
    have hsum : r.tail + (i + 1) = r.tail + 1 + i := by omega
    simp only [Function.comp_apply, cell, shift, Nat.succ_eq_add_one, hsum, Nat.mod_add_mod]

theorem run_shift (r : Ring α cap) (h : 0 < r.count) :
    Fifo.Run cap r.contents [.poll (some (r.shift h).1)] (r.shift h).2.contents := by
  rw [r.contents_shift h]
  exact .poll (.nil _)

theorem run_empty (r : Ring α cap) (h : ¬ 0 < r.count) :
    Fifo.Run cap r.contents [.poll none] r.contents := by
  rw [r.contents_eq_nil_iff.mpr (Nat.eq_zero_of_not_pos h)]
  exact .poll (.nil _)

def pushAll (r : Ring α cap) (as : List α) : Ring α cap := as.foldl push r

theorem contents_pushAll (r : Ring α cap) (as : List α) :
    (r.pushAll as).contents = Fifo.offer cap r.contents as := by
  induction as generalizing r with
  | nil => exact (Fifo.offer_nil cap r.contents).symm
  | cons a as ih =>
    rw [Fifo.offer_cons, ← contents_push_offer]
    exact ih (r.push a)

/-- At most `n` items are taken, oldest first. -/
def shiftUpTo : ℕ → Ring α cap → List α × Ring α cap
  | 0, r => ([], r)
  | n + 1, r =>
    if h : 0 < r.count then
      let rest := shiftUpTo n (r.shift h).2
      ((r.shift h).1 :: rest.1, rest.2)
    else ([], r)

theorem shiftUpTo_spec (n : ℕ) (r : Ring α cap) :
    (shiftUpTo n r).1 = r.contents.take n ∧ (shiftUpTo n r).2.contents = r.contents.drop n := by
  induction n generalizing r with
  | zero => exact ⟨rfl, rfl⟩
  | succ n ih =>
    unfold shiftUpTo
    by_cases h : 0 < r.count
    · obtain ⟨ihtaken, ihleft⟩ := ih (r.shift h).2
      rw [dif_pos h, r.contents_shift h, List.take_succ_cons, List.drop_succ_cons]
      exact ⟨congrArg _ ihtaken, ihleft⟩
    · have hnil : r.contents = [] := (r.contents_eq_nil_iff).mpr (Nat.eq_zero_of_not_pos h)
      rw [dif_neg h, hnil]
      exact ⟨rfl, rfl⟩

end Ring

end ZephyrModem.Memory
