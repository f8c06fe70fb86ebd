import Mathlib.Data.Nat.Digits.Lemmas
import ZephyrModem.Platform

/-!
# Strings of the C library

The library functions that the protocols use to put a file size into text and
to read it back: `%zu` and `strtoul` in base 10, in the C locale.
-/

namespace ZephyrModem

/-- The bytes before the first NUL, or all of them. -/
def cstr (buf : List UInt8) : List UInt8 := buf.takeWhile (· ≠ 0)

/-- `%zu`. -/
def decimal (n : ℕ) : List UInt8 :=
  if n = 0 then [0x30] else (Nat.digits 10 n).reverse.map fun d => UInt8.ofNat (0x30 + d)

def isSpace (b : UInt8) : Bool := b = 0x20 ∨ 0x09 ≤ b ∧ b ≤ 0x0D

def isDigit (b : UInt8) : Bool := 0x30 ≤ b ∧ b ≤ 0x39

def digitsValue (ds : List UInt8) : ℕ := ds.foldl (fun a d => 10 * a + (d.toNat - 0x30)) 0

/-- `strtoul(s, NULL, 10)`: white space, a sign, digits; too large a value saturates. -/
def strtoul (P : Platform) (s : List UInt8) : ℕ :=
  let t := s.dropWhile isSpace
  let signed : Bool × List UInt8 :=
    match t with
    | 0x2D :: t => (true, t)
    | 0x2B :: t => (false, t)
    | t => (false, t)
  let n := digitsValue (signed.2.takeWhile isDigit)
  if n > P.ulongMax then P.ulongMax
  else if signed.1 then (P.ulongMax + 1 - n) % (P.ulongMax + 1)
  else n

def splitSign : List UInt8 → Bool × List UInt8
  | 0x2D :: t => (true, t)
  | 0x2B :: t => (false, t)
  | t => (false, t)

/-- The number of `strtoul` for a sign and a digit string of value `n`. -/
def signedValue (P : Platform) (negative : Bool) (n : ℕ) : ℕ :=
  if n > P.ulongMax then P.ulongMax
  else if negative then (P.ulongMax + 1 - n) % (P.ulongMax + 1)
  else n

theorem strtoul_eq (P : Platform) (s : List UInt8) :
    strtoul P s = signedValue P (splitSign (s.dropWhile isSpace)).1
      (digitsValue ((splitSign (s.dropWhile isSpace)).2.takeWhile isDigit)) := rfl

theorem splitSign_of_digit {b : UInt8} (hb : isDigit b = true) (t : List UInt8) :
    splitSign (b :: t) = (false, b :: t) := by
  unfold splitSign
  split
  · rename_i heq
    cases heq
    cases hb
  · rename_i heq
    cases heq
    cases hb
  · rfl

theorem isSpace_of_digit {b : UInt8} (hb : isDigit b = true) : isSpace b = false := by
  unfold isSpace isDigit at *
  simp_all [UInt8.le_iff_toNat_le, ← UInt8.toNat_inj]
  omega

/-! ### Reading back what was written -/

theorem cstr_append_nul {s : List UInt8} (h : (0 : UInt8) ∉ s) (rest : List UInt8) :
    cstr (s ++ 0 :: rest) = s := by
  unfold cstr
  rw [List.takeWhile_append_of_pos]
  · simp
  · intro b hb
    simp only [decide_not, Bool.not_eq_true', decide_eq_false_iff_not]
    rintro rfl
    exact h hb

theorem cstr_of_noNul {s : List UInt8} (h : (0 : UInt8) ∉ s) : cstr s = s := by
  unfold cstr
  induction s with
  | nil => rfl
  | cons b s ih =>
    have hb : b ≠ 0 := by
      rintro rfl
      exact h (List.mem_cons_self ..)
    rw [List.takeWhile_cons_of_pos (by simpa using hb), ih fun hin => h (List.mem_cons_of_mem b hin)]

theorem isDigit_ofNat {d : ℕ} (h : d < 10) : isDigit (UInt8.ofNat (0x30 + d)) = true := by
  interval_cases d <;> decide

theorem decimal_all_digits (n : ℕ) : ∀ b ∈ decimal n, isDigit b = true := by
  intro b hb
  unfold decimal at hb
  split at hb
  · rw [List.mem_singleton] at hb
    subst hb
    decide
  · simp only [List.mem_map, List.mem_reverse] at hb
    obtain ⟨d, hd, rfl⟩ := hb
    exact isDigit_ofNat (Nat.digits_lt_base (by decide) hd)

theorem decimal_ne_nil (n : ℕ) : decimal n ≠ [] := by
  unfold decimal
  split
  · simp
  · rename_i h
    have hne : Nat.digits 10 n ≠ [] := Nat.digits_ne_nil_iff_ne_zero.mpr h
    simpa using hne

theorem decimal_no_nul (n : ℕ) : (0 : UInt8) ∉ decimal n := by
  intro h
  exact absurd (decimal_all_digits n 0 h) (by decide)

theorem decimal_length_le {n : ℕ} (h : n < 2 ^ 64) : (decimal n).length ≤ 20 := by
  unfold decimal
  split
  · simp
  · rw [List.length_map, List.length_reverse, Nat.digits_length_le_iff (by decide)]
    exact Nat.lt_of_lt_of_le h (by decide)

theorem digitsValue_decimal (n : ℕ) : digitsValue (decimal n) = n := by
  unfold decimal
  split
  · rename_i h
    rw [h]
    rfl
  · have hvalue : ∀ ds : List ℕ, (∀ d ∈ ds, d < 10) →
        digitsValue (ds.reverse.map fun d => UInt8.ofNat (0x30 + d)) = Nat.ofDigits 10 ds := by
      intro ds
      induction ds with
      | nil => intro _; rfl
      | cons d ds ih =>
        intro hds
        have hd : d < 10 := hds d (List.mem_cons_self ..)
        have hbyte : (UInt8.ofNat (0x30 + d)).toNat - 0x30 = d := by
          rw [UInt8.toNat_ofNat']
          omega
        have hrest := ih fun e he => hds e (List.mem_cons_of_mem d he)
        unfold digitsValue at hrest ⊢
        rw [List.reverse_cons, List.map_append, List.foldl_append, hrest, Nat.ofDigits_cons]
        simp only [List.map_cons, List.map_nil, List.foldl_cons, List.foldl_nil, hbyte]
        omega
    rw [hvalue _ fun d hd => Nat.digits_lt_base (by decide) hd, Nat.ofDigits_digits]

theorem strtoul_digits (P : Platform) {ds : List UInt8} (hne : ds ≠ [])
    (hds : ∀ b ∈ ds, isDigit b = true) {c : UInt8} (hc : isDigit c = false) (rest : List UInt8) :
    strtoul P (ds ++ c :: rest) = min (digitsValue ds) P.ulongMax := by
  have htake : (ds ++ c :: rest).takeWhile isDigit = ds := by
    rw [List.takeWhile_append_of_pos hds, List.takeWhile_cons_of_neg (by rw [hc]; decide),
      List.append_nil]
  obtain ⟨b, tail, rfl⟩ := List.exists_cons_of_ne_nil hne
  have hb : isDigit b = true := hds b (List.mem_cons_self ..)
  have hdrop : (b :: tail ++ c :: rest).dropWhile isSpace = b :: tail ++ c :: rest := by
    rw [List.cons_append, List.dropWhile_cons, isSpace_of_digit hb]
    rfl
  rw [strtoul_eq, hdrop, List.cons_append, splitSign_of_digit hb, ← List.cons_append, htake,
    signedValue]
  split
  · omega
  · rw [if_neg Bool.false_ne_true]
    omega

/-- A size written with `%zu` and ended by NUL is read back by `strtoul`. -/
theorem strtoul_decimal (P : Platform) {n : ℕ} (h : n ≤ P.ulongMax) (rest : List UInt8) :
    strtoul P (decimal n ++ 0 :: rest) = n := by
  rw [strtoul_digits P (decimal_ne_nil n) (decimal_all_digits n) (by decide), digitsValue_decimal]
  exact Nat.min_eq_left h

/-! ### Numbers cut short -/

theorem le_foldl_digits (ds : List UInt8) (a : ℕ) :
    a ≤ ds.foldl (fun a d => 10 * a + (d.toNat - 0x30)) a := by
  induction ds generalizing a with
  | nil => exact Nat.le_refl a
  | cons d ds ih =>
    have hrest := ih (10 * a + (d.toNat - 0x30))
    rw [List.foldl_cons]
    omega

theorem digitsValue_append_ge (as : List UInt8) {bs : List UInt8} (h : bs ≠ []) :
    10 * digitsValue as ≤ digitsValue (as ++ bs) := by
  obtain ⟨b, bs, rfl⟩ := List.exists_cons_of_ne_nil h
  have hrest := le_foldl_digits bs (10 * digitsValue as + (b.toNat - 0x30))
  have happend : digitsValue (as ++ b :: bs) =
      bs.foldl (fun a d => 10 * a + (d.toNat - 0x30)) (10 * digitsValue as + (b.toNat - 0x30)) := by
    unfold digitsValue
    rw [List.foldl_append, List.foldl_cons]
  omega

theorem digitsValue_take_lt {n k : ℕ} (hn : 0 < n) (hk : k < (decimal n).length) :
    digitsValue ((decimal n).take k) < n := by
  have hne : (decimal n).drop k ≠ [] := by
    intro h
    have hlen := congrArg List.length h
    rw [List.length_drop, List.length_nil] at hlen
    omega
  have hge := digitsValue_append_ge ((decimal n).take k) hne
  rw [List.take_append_drop, digitsValue_decimal] at hge
  omega

/-! ### How far `strtoul` looks -/

/-- What is left at the byte where `strtoul` stops. -/
def strtoulRest (s : List UInt8) : List UInt8 :=
  (splitSign (s.dropWhile isSpace)).2.dropWhile isDigit

/-- The number of bytes `strtoul` looks at: those it passes over and the one where it stops. -/
def strtoulExamined (s : List UInt8) : ℕ := s.length - (strtoulRest s).length + 1

theorem dropWhile_append_of_ne_nil {p : UInt8 → Bool} {as : List UInt8} (h : as.dropWhile p ≠ [])
    (bs : List UInt8) : (as ++ bs).dropWhile p = as.dropWhile p ++ bs := by
  rw [List.dropWhile_append, if_neg (by simpa using h)]

theorem takeWhile_append_of_ne_nil {p : UInt8 → Bool} {as : List UInt8} (h : as.dropWhile p ≠ [])
    (bs : List UInt8) : (as ++ bs).takeWhile p = as.takeWhile p := by
  induction as with
  | nil => exact absurd rfl h
  | cons a as ih =>
    cases hp : p a with
    | true =>
      rw [List.dropWhile_cons_of_pos hp] at h
      rw [List.cons_append, List.takeWhile_cons_of_pos hp, List.takeWhile_cons_of_pos hp, ih h]
    | false =>
      have hneg : ¬ p a = true := by
        rw [hp]
        exact Bool.false_ne_true
      rw [List.cons_append, List.takeWhile_cons_of_neg hneg, List.takeWhile_cons_of_neg hneg]

theorem splitSign_append {t : List UInt8} (h : t ≠ []) (more : List UInt8) :
    splitSign (t ++ more) = ((splitSign t).1, (splitSign t).2 ++ more) := by
  obtain ⟨b, t, rfl⟩ := List.exists_cons_of_ne_nil h
  by_cases hminus : b = 0x2D
  · subst hminus
    rfl
  · by_cases hplus : b = 0x2B
    · subst hplus
      rfl
    · have hnone : ∀ t : List UInt8, splitSign (b :: t) = (false, b :: t) := by
        intro t
        unfold splitSign
        split
        · rename_i heq
          exact absurd (List.cons.inj heq).1 hminus
        · rename_i heq
          exact absurd (List.cons.inj heq).1 hplus
        · rfl
      rw [List.cons_append, hnone, hnone]
      rfl

theorem dropWhile_isSpace_ne_nil {s : List UInt8} (h : strtoulRest s ≠ []) :
    s.dropWhile isSpace ≠ [] := by
  intro hnil
  unfold strtoulRest at h
  rw [hnil] at h
  exact h rfl

theorem strtoulRest_append {s : List UInt8} (h : strtoulRest s ≠ []) (more : List UInt8) :
    strtoulRest (s ++ more) = strtoulRest s ++ more := by
  have hspace := dropWhile_isSpace_ne_nil h
  unfold strtoulRest at h ⊢
  rw [dropWhile_append_of_ne_nil hspace, splitSign_append hspace]
  exact dropWhile_append_of_ne_nil h more

theorem strtoul_append (P : Platform) {s : List UInt8} (h : strtoulRest s ≠ []) (more : List UInt8) :
    strtoul P (s ++ more) = strtoul P s := by
  have hspace := dropWhile_isSpace_ne_nil h
  unfold strtoulRest at h
  rw [strtoul_eq, strtoul_eq, dropWhile_append_of_ne_nil hspace, splitSign_append hspace]
  simp only [takeWhile_append_of_ne_nil h]

theorem strtoulRest_length_le (s : List UInt8) : (strtoulRest s).length ≤ s.length := by
  have hsign : ∀ t : List UInt8, (splitSign t).2.length ≤ t.length := by
    intro t
    unfold splitSign
    split
    · exact Nat.le_succ _
    · exact Nat.le_succ _
    · exact Nat.le_refl _
  calc (strtoulRest s).length
      ≤ (splitSign (s.dropWhile isSpace)).2.length := (List.dropWhile_sublist _).length_le
    _ ≤ (s.dropWhile isSpace).length := hsign _
    _ ≤ s.length := (List.dropWhile_sublist _).length_le

theorem strtoulExamined_le_iff (s : List UInt8) :
    (∀ more, strtoulExamined (s ++ more) ≤ s.length) ↔ strtoulRest s ≠ [] := by
  constructor
  · intro h hnil
    have hnone := h []
    unfold strtoulExamined at hnone
    rw [List.append_nil, hnil, List.length_nil] at hnone
    omega
  · intro h more
    have hpos : 0 < (strtoulRest s).length := List.length_pos_of_ne_nil h
    have hle := strtoulRest_length_le s
    unfold strtoulExamined
    rw [strtoulRest_append h, List.length_append, List.length_append]
    omega

theorem strtoulRest_nul (s : List UInt8) : strtoulRest (s ++ [0]) ≠ [] := by
  have hdrop : ∀ (p : UInt8 → Bool) (t : List UInt8), p 0 = false →
      ∃ t', (t ++ [0]).dropWhile p = t' ++ [0] := by
    intro p t hp
    induction t with
    | nil => exact ⟨[], List.dropWhile_cons_of_neg (by rw [hp]; exact Bool.false_ne_true)⟩
    | cons b t ih =>
      by_cases hb : p b = true
      · rw [List.cons_append, List.dropWhile_cons_of_pos hb]
        exact ih
      · rw [List.cons_append, List.dropWhile_cons_of_neg hb]
        exact ⟨b :: t, rfl⟩
  have hsign : ∀ t : List UInt8, ∃ t', (splitSign (t ++ [0])).2 = t' ++ [0] := by
    intro t
    cases t with
    | nil => exact ⟨[], rfl⟩
    | cons b t => exact ⟨_, congrArg Prod.snd (splitSign_append (List.cons_ne_nil b t) [0])⟩
  obtain ⟨t, ht⟩ := hdrop isSpace s (by decide)
  obtain ⟨t', ht'⟩ := hsign t
  obtain ⟨t'', ht''⟩ := hdrop isDigit t' (by decide)
  unfold strtoulRest
  rw [ht, ht', ht'']
  simp

/-- A number that ends inside a text is the number up to the first NUL of the text. -/
theorem strtoul_cstr (P : Platform) {s : List UInt8} (h : strtoulRest s ≠ []) :
    strtoul P s = strtoul P (cstr s ++ [0]) := by
  by_cases hnul : (0 : UInt8) ∈ s
  · obtain ⟨pre, post, rfl, hpre⟩ : ∃ pre post, s = pre ++ 0 :: post ∧ (0 : UInt8) ∉ pre :=
      List.eq_append_cons_of_mem hnul
    have hsplit : pre ++ 0 :: post = (pre ++ [0]) ++ post := by simp
    rw [cstr_append_nul hpre, hsplit, strtoul_append P (strtoulRest_nul pre)]
  · rw [cstr_of_noNul hnul, strtoul_append P h]

end ZephyrModem
