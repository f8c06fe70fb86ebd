import ZephyrModem.Memory.Window
import ZephyrModem.Platform

/-!
# Auto-start detection

`src/modem_autostart.c` keeps the last eight bytes of the console and looks for the
command "rz" and CR among them.
-/

namespace ZephyrModem.Console

open Memory

/-- `g_autostart_buf` and `g_autostart_idx`. -/
structure Autostart where
  buf : Vector UInt8 8
  idx : ℕ
  deriving DecidableEq

namespace Autostart

def boot : Autostart := ⟨Vector.replicate 8 0, 0⟩

def cell (buf : Vector UInt8 8) (i : ℕ) : UInt8 := buf.get ⟨i % 8, Nat.mod_lt _ (by decide)⟩

variable (P : Platform)

/-- `console_modem_check_autostart`. -/
def check (s : Autostart) (byte : UInt8) : Bool × Autostart :=
  let buf := s.buf.set (s.idx % 8) byte (Nat.mod_lt _ (by decide))
  let idx := P.toSize (s.idx + 1)
  if idx ≥ 3 then
    let i := P.subSize idx 3 % 8
    (cell buf i = 0x72 ∧ cell buf (i + 1) = 0x7A ∧ cell buf (i + 2) = 0x0D, ⟨buf, idx⟩)
  else (false, ⟨buf, idx⟩)

/-- The results of the calls with the bytes of a stream. -/
def results : Autostart → List UInt8 → List Bool
  | _, [] => []
  | s, b :: bs => (check P s b).1 :: results (check P s b).2 bs

/-- The variables after the bytes of `stream`. -/
structure Has (stream : List UInt8) (s : Autostart) : Prop where
  idx : s.idx = stream.length
  window : Window s.buf stream

/-- "rz" and CR are the last three bytes. -/
def EndsInCommand (stream : List UInt8) : Prop :=
  3 ≤ stream.length ∧ stream[stream.length - 3]? = some 0x72 ∧
    stream[stream.length - 2]? = some 0x7A ∧ stream[stream.length - 1]? = some 0x0D

theorem cell_mod (buf : Vector UInt8 8) (i : ℕ) : cell buf (i % 8) = cell buf i := by
  simp only [cell, Nat.mod_mod]

theorem cell_mod_add (buf : Vector UInt8 8) (i k : ℕ) :
    cell buf (i % 8 + k) = cell buf (i + k) := by
  simp only [cell, Nat.mod_add_mod]

theorem has_boot : Has [] boot := ⟨rfl, Window.nil _⟩

variable {P}

theorem Has.cell {stream : List UInt8} {s : Autostart} (h : Has stream s) {j : ℕ}
    (hj : j < stream.length) (hnear : stream.length ≤ j + 8) :
    stream[j]? = some (Autostart.cell s.buf j) := by
  have hcell : s.buf[j % 8] = stream[j] := h.window j hj (Nat.mod_lt j (by decide)) hnear
  rw [List.getElem?_eq_getElem hj, ← hcell]
  rfl

theorem Has.check {stream : List UInt8} {s : Autostart} (h : Has stream s) (b : UInt8)
    (hlen : stream.length + 1 < P.sizeMod) :
    Has (stream ++ [b]) (Autostart.check P s b).2 ∧
      ((Autostart.check P s b).1 = true ↔ EndsInCommand (stream ++ [b])) := by
  have hwindow := h.window.snoc (by decide) b
  have hlength : (stream ++ [b]).length = stream.length + 1 := by
    rw [List.length_append, List.length_singleton]
  simp only [← h.idx] at hwindow
  have hidx : P.toSize (s.idx + 1) = (stream ++ [b]).length := by
    rw [h.idx, P.toSize_of_lt hlen, hlength]
  unfold Autostart.check
  simp only [hidx]
  by_cases hthree : (stream ++ [b]).length ≥ 3
  · have hhas : Has (stream ++ [b]) ⟨s.buf.set (s.idx % 8) b (Nat.mod_lt _ (by decide)),
        (stream ++ [b]).length⟩ := ⟨rfl, hwindow⟩
    have hsub : P.subSize (stream ++ [b]).length 3 = (stream ++ [b]).length - 3 :=
      P.subSize_of_le (by omega) hthree
    have hfirst := hhas.cell (j := (stream ++ [b]).length - 3) (by omega) (by omega)
    have hsecond := hhas.cell (j := (stream ++ [b]).length - 2) (by omega) (by omega)
    have hthird := hhas.cell (j := (stream ++ [b]).length - 1) (by omega) (by omega)
    have hs : (stream ++ [b]).length - 3 + 1 = (stream ++ [b]).length - 2 := by omega
    have ht : (stream ++ [b]).length - 3 + 2 = (stream ++ [b]).length - 1 := by omega
    rw [if_pos hthree]
    refine ⟨hhas, ?_⟩
    simp only [hsub, cell_mod, cell_mod_add, hs, ht, decide_eq_true_eq, EndsInCommand, hfirst,
      hsecond, hthird, Option.some.injEq]
    exact (and_iff_right hthree).symm
  · rw [if_neg hthree]
    refine ⟨⟨rfl, hwindow⟩, ?_⟩
    constructor
    · intro hfalse
      cases hfalse
    · intro hends
      exact absurd hends.1 hthree

theorem Has.results {stream bs : List UInt8} {s : Autostart} (h : Has stream s)
    (hlen : stream.length + bs.length < P.sizeMod) {k : ℕ} (hk : k < bs.length) :
    (Autostart.results P s bs)[k]? = some true ↔ EndsInCommand (stream ++ bs.take (k + 1)) := by
  induction bs generalizing stream s k with
  | nil => exact absurd hk (Nat.not_lt_zero k)
  | cons b bs ih =>
    rw [List.length_cons] at hlen hk
    obtain ⟨hhas, hresult⟩ := h.check b (P := P) (by omega)
    cases k with
    | zero =>
      rw [Autostart.results, List.getElem?_cons_zero, Option.some.injEq, hresult]
      rfl
    | succ k =>
      have hlen' : (stream ++ [b]).length + bs.length < P.sizeMod := by
        rw [List.length_append, List.length_singleton]
        omega
      have hrest := ih hhas hlen' (Nat.lt_of_succ_lt_succ hk)
      rw [List.append_assoc] at hrest
      rw [Autostart.results, List.getElem?_cons_succ, hrest]
      rfl

/-- The `n`-th call detects the command exactly when it ends with the `n`-th byte. -/
theorem check_autostart_iff (stream : List UInt8) (hlen : stream.length < P.sizeMod - 1) (n : ℕ)
    (hpos : 1 ≤ n) (hn : n ≤ stream.length) :
    (results P boot stream)[n - 1]? = some true ↔
      n ≥ 3 ∧ stream[n - 3]? = some 0x72 ∧ stream[n - 2]? = some 0x7A ∧
        stream[n - 1]? = some 0x0D := by
  have hsucc : n - 1 + 1 = n := by omega
  have hlast : (results P boot stream)[n - 1]? = some true ↔
      EndsInCommand ([] ++ stream.take (n - 1 + 1)) := by
    apply has_boot.results
    · rw [List.length_nil]
      omega
    · omega
  have htake : (stream.take n).length = n := List.length_take_of_le hn
  have hget : ∀ i, 1 ≤ i → (stream.take n)[n - i]? = stream[n - i]? := by
    intro i hi
    exact List.getElem?_take_of_lt (by omega)
  rw [hlast, List.nil_append, hsucc, EndsInCommand, htake, hget 3 (by decide), hget 2 (by decide),
    hget 1 (by decide)]

/-- "login: rz" and CR: the command lies across the end of the buffer. -/
theorem check_autostart_iff_login :
    (results platform32 boot
      [0x6C, 0x6F, 0x67, 0x69, 0x6E, 0x3A, 0x20, 0x72, 0x7A, 0x0D])[9]? = some true ∧
    (results platform32 boot
      [0x6C, 0x6F, 0x67, 0x69, 0x6E, 0x3A, 0x20, 0x72, 0x7A, 0x0D])[8]? ≠ some true := by
  refine ⟨?_, ?_⟩
  · exact (check_autostart_iff _ (by decide) 10 (by decide) (by decide)).mpr (by decide)
  · exact mt (check_autostart_iff _ (by decide) 9 (by decide) (by decide)).mp (by decide)

end Autostart

end ZephyrModem.Console
