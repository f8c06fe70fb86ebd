import ZephyrModem.Reactive.Calls
import ZephyrModem.Zmodem.Frames

/-!
# Units of the ZDLE escape

What `read_zdle_byte` reads in one call is a unit: a byte other than ZDLE, or ZDLE
and any byte. A stream is cut into units in one way.
-/

namespace ZephyrModem.Zmodem
open ZephyrModem.Reactive

def IsFrameEnd (b : Byte) : Prop := b = zcrce ∨ b = zcrcg ∨ b = zcrcq ∨ b = zcrcw

instance : DecidablePred IsFrameEnd := fun b =>
  inferInstanceAs (Decidable (b = zcrce ∨ b = zcrcg ∨ b = zcrcq ∨ b = zcrcw))

inductive ZUnit where
  | plain (b : Byte) (h : b ≠ zdle)
  | pair (b : Byte)
  deriving Repr, DecidableEq

/-- What ZDLE and `b` stand for, if `b` ends no frame. -/
def unescape (rub : Bool) (b : Byte) : Byte :=
  if b = zdlee then zdle
  else if rub ∧ b = zrub0 then 0x7F
  else if rub ∧ b = zrub1 then 0xFF
  else b ^^^ 0x40

namespace ZUnit

def bytes : ZUnit → List Byte
  | plain b _ => [b]
  | pair b => [zdle, b]

def IsEnder : ZUnit → Prop
  | plain _ _ => False
  | pair b => IsFrameEnd b

instance : DecidablePred IsEnder
  | plain _ _ => inferInstanceAs (Decidable False)
  | pair b => inferInstanceAs (Decidable (IsFrameEnd b))

/-- The byte that `read_zdle_byte` stores. -/
def value (rub : Bool) : ZUnit → Byte
  | plain b _ => b
  | pair b => if IsFrameEnd b then b else unescape rub b

/-- What `read_zdle_byte` returns. -/
def result (rub : Bool) (u : ZUnit) : ZdleResult :=
  if u.IsEnder then .ender (u.value rub) else .byte (u.value rub)

def ofByte (b : Byte) : ZUnit :=
  if b = 0x11 ∨ b = 0x13 ∨ b = 0x81 ∨ b = 0x83 then .pair (b ^^^ 0x40)
  else if h : b = zdle then .pair zdlee else .plain b h

theorem bytes_ofByte (b : Byte) : (ofByte b).bytes = zdleByte b := by
  unfold ofByte
  split
  · rename_i h
    exact (if_pos (.inr h)).symm
  · split
    · rename_i h
      subst h
      rfl
    · rename_i h hb
      refine (if_neg ?_).symm
      rintro (hz | hrest)
      · exact hb hz
      · exact h hrest

theorem not_isEnder_ofByte (b : Byte) : ¬ (ofByte b).IsEnder := by
  unfold ofByte
  split
  · rename_i h
    rcases h with rfl | rfl | rfl | rfl <;> decide
  · split
    · decide
    · exact not_false

theorem value_ofByte (rub : Bool) (b : Byte) : (ofByte b).value rub = b := by
  unfold ofByte
  split
  · rename_i h
    rcases h with rfl | rfl | rfl | rfl <;> cases rub <;> decide
  · split
    · rename_i h
      subst h
      cases rub <;> decide
    · rfl

/-! ### Cutting a stream -/

theorem bytes_append_inj {u v : ZUnit} {as bs : List Byte} (h : u.bytes ++ as = v.bytes ++ bs) :
    u = v ∧ as = bs := by
  cases u with
  | plain a ha =>
    cases v with
    | plain b hb =>
      obtain ⟨rfl, rfl⟩ := List.cons.inj h
      exact ⟨rfl, rfl⟩
    | pair b => exact absurd (List.cons.inj h).1 ha
  | pair a =>
    cases v with
    | plain b hb => exact absurd (List.cons.inj h).1.symm hb
    | pair b =>
      obtain ⟨rfl, rfl⟩ := List.cons.inj (List.cons.inj h).2
      exact ⟨rfl, rfl⟩

theorem length_bytes_pos (u : ZUnit) : 0 < u.bytes.length := by
  cases u <;> exact Nat.succ_pos _

theorem stream_cases (bs : List Byte) :
    bs = [] ∨ bs = [zdle] ∨ ∃ (u : ZUnit) (rest : List Byte), bs = u.bytes ++ rest := by
  cases bs with
  | nil => exact .inl rfl
  | cons b bs =>
    by_cases hb : b = zdle
    · subst hb
      cases bs with
      | nil => exact .inr (.inl rfl)
      | cons c bs => exact .inr (.inr ⟨.pair c, bs, rfl⟩)
    · exact .inr (.inr ⟨.plain b hb, bs, rfl⟩)

theorem take_units (n : ℕ) (bs : List Byte) :
    (∃ (us : List ZUnit) (rest : List Byte), us.length = n ∧ bs = us.flatMap bytes ++ rest) ∨
      ∃ (us : List ZUnit) (tail : List Byte), us.length < n ∧ (tail = [] ∨ tail = [zdle]) ∧
        bs = us.flatMap bytes ++ tail := by
  induction n generalizing bs with
  | zero => exact .inl ⟨[], bs, rfl, rfl⟩
  | succ n ih =>
    rcases stream_cases bs with hnil | hcut | ⟨u, rest, rfl⟩
    · exact .inr ⟨[], bs, Nat.succ_pos n, .inl hnil, rfl⟩
    · exact .inr ⟨[], bs, Nat.succ_pos n, .inr hcut, rfl⟩
    · rcases ih rest with ⟨us, rest', hlen, rfl⟩ | ⟨us, tail, hlen, htail, rfl⟩
      · refine .inl ⟨u :: us, rest', ?_, ?_⟩
        · rw [List.length_cons, hlen]
        · rw [List.flatMap_cons, List.append_assoc]
      · refine .inr ⟨u :: us, tail, ?_, htail, ?_⟩
        · rw [List.length_cons]
          omega
        · rw [List.flatMap_cons, List.append_assoc]

/-- Data units up to the pair that ends them. -/
theorem data_append_inj {us vs : List ZUnit} {a b : Byte} {as bs : List Byte}
    (hus : ∀ u ∈ us, ¬ u.IsEnder) (hvs : ∀ v ∈ vs, ¬ v.IsEnder) (ha : IsFrameEnd a)
    (hb : IsFrameEnd b)
    (h : us.flatMap bytes ++ zdle :: a :: as = vs.flatMap bytes ++ zdle :: b :: bs) :
    us = vs ∧ a = b ∧ as = bs := by
  induction us generalizing vs with
  | nil =>
    cases vs with
    | nil =>
      obtain ⟨rfl, rfl⟩ := List.cons.inj (List.cons.inj h).2
      exact ⟨rfl, rfl, rfl⟩
    | cons v vs =>
      rw [List.flatMap_cons, List.append_assoc] at h
      obtain ⟨rfl, -⟩ := bytes_append_inj (u := .pair a) h
      exact absurd ha (hvs _ (List.mem_cons_self ..))
  | cons u us ih =>
    rw [List.flatMap_cons, List.append_assoc] at h
    cases vs with
    | nil =>
      obtain ⟨rfl, -⟩ := bytes_append_inj (v := .pair b) h
      exact absurd hb (hus _ (List.mem_cons_self ..))
    | cons v vs =>
      rw [List.flatMap_cons, List.append_assoc] at h
      obtain ⟨rfl, htail⟩ := bytes_append_inj h
      obtain ⟨rfl, rfl, rfl⟩ := ih (fun w hw => hus w (List.mem_cons_of_mem _ hw))
        (fun w hw => hvs w (List.mem_cons_of_mem _ hw)) htail
      exact ⟨rfl, rfl, rfl⟩

/-! ### Reading units -/

theorem parse_bytes (rub : Bool) (u : ZUnit) (rest : List Byte) :
    parse (readZdleByte rub) (.wait false) (u.bytes ++ rest) = (.done (u.result rub), rest) := by
  cases u with
  | plain b h =>
    rw [bytes, List.singleton_append, parse_cons, readZdleByte, if_neg h, parse_done]
    rfl
  | pair b =>
    have hread : readZdleByte rub true (.ok b) = .done ((pair b).result rub) := by
      by_cases h : IsFrameEnd b
      · have hres : (pair b).result rub = .ender b := by
          rw [result, if_pos (show (pair b).IsEnder from h), value, if_pos h]
        rw [hres]
        exact if_pos h
      · have hres : (pair b).result rub = .byte (unescape rub b) := by
          rw [result, if_neg (show ¬ (pair b).IsEnder from h), value, if_neg h]
        rw [hres, unescape]
        refine (if_neg h).trans ?_
        split <;> [rfl; split <;> [rfl; split <;> rfl]]
    have hzdle : readZdleByte rub false (.ok zdle) = .wait true := rfl
    rw [bytes, List.cons_append, List.singleton_append, parse_cons, hzdle, parse_cons, hread,
      parse_done]

theorem parse_cut (rub : Bool) {tail : List Byte} (htail : tail = [] ∨ tail = [zdle]) :
    ∃ esc, parse (readZdleByte rub) (.wait false) tail = (.wait esc, []) := by
  rcases htail with rfl | rfl
  · exact ⟨false, rfl⟩
  · exact ⟨true, rfl⟩

/-! ### The two readers -/

/-- ZDLE and a code that only `read_zdle_byte_rx` knows. -/
def IsRub (u : ZUnit) : Prop := u = .pair zrub0 ∨ u = .pair zrub1

instance : DecidablePred IsRub := fun u =>
  inferInstanceAs (Decidable (u = .pair zrub0 ∨ u = .pair zrub1))

theorem value_eq_iff (u : ZUnit) : u.value true = u.value false ↔ ¬ u.IsRub := by
  constructor
  · intro h hrub
    rcases hrub with rfl | rfl <;> exact absurd h (by decide)
  · intro h
    cases u with
    | plain b hb => rfl
    | pair b =>
      have h0 : b ≠ zrub0 := by
        rintro rfl
        exact h (.inl rfl)
      have h1 : b ≠ zrub1 := by
        rintro rfl
        exact h (.inr rfl)
      simp [value, unescape, h0, h1]

theorem result_eq_iff (u : ZUnit) : u.result true = u.result false ↔ ¬ u.IsRub := by
  rw [← value_eq_iff]
  unfold result
  split <;> simp

theorem map_value_eq_iff (us : List ZUnit) :
    us.map (value true) = us.map (value false) ↔ ¬ ∃ u ∈ us, u.IsRub := by
  rw [List.map_inj_left]
  constructor
  · rintro h ⟨u, hu, hrub⟩
    exact (value_eq_iff u).mp (h u hu) hrub
  · intro h u hu
    apply (value_eq_iff u).mpr
    intro hrub
    exact h ⟨u, hu, hrub⟩

end ZUnit

end ZephyrModem.Zmodem
