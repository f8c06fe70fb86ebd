import Mathlib.Data.Nat.Bitwise
import Mathlib.Logic.Function.Iterate

/-!
# Maps of words that respect exclusive or

Words are natural numbers, added by `^^^`. A register that absorbs items by such a
map is the exclusive or of one term for its seed and one for each item.
-/

namespace ZephyrModem.Gf2

def XorLinear (f : ℕ → ℕ) : Prop := ∀ a b, f (a ^^^ b) = f a ^^^ f b

theorem xor_xor_xor_comm (a b c d : ℕ) : (a ^^^ b) ^^^ (c ^^^ d) = (a ^^^ c) ^^^ (b ^^^ d) := by
  rw [Nat.xor_assoc, ← Nat.xor_assoc b, Nat.xor_comm b c, Nat.xor_assoc c, ← Nat.xor_assoc a]

theorem xor_eq_iff {a b c : ℕ} : a ^^^ b = c ↔ a = c ^^^ b := by
  constructor
  · intro h
    rw [← h, Nat.xor_assoc, Nat.xor_self, Nat.xor_zero]
  · intro h
    rw [h, Nat.xor_assoc, Nat.xor_self, Nat.xor_zero]

namespace XorLinear

variable {f g : ℕ → ℕ}

theorem map_zero (hf : XorLinear f) : f 0 = 0 := by
  have h := hf 0 0
  rwa [Nat.xor_self, Nat.xor_self] at h

theorem id : XorLinear fun n => n := fun _ _ => rfl

theorem comp (hf : XorLinear f) (hg : XorLinear g) : XorLinear fun n => f (g n) := by
  intro a b
  show f (g (a ^^^ b)) = _
  rw [hg, hf]

theorem xor (hf : XorLinear f) (hg : XorLinear g) : XorLinear fun n => f n ^^^ g n := by
  intro a b
  show f (a ^^^ b) ^^^ g (a ^^^ b) = _
  rw [hf, hg, xor_xor_xor_comm]

theorem iterate (hf : XorLinear f) (n : ℕ) : XorLinear f^[n] := by
  induction n with
  | zero => exact id
  | succ n ih =>
    intro a b
    rw [Function.iterate_succ_apply, Function.iterate_succ_apply, Function.iterate_succ_apply, hf,
      ih]

theorem shiftLeft (k : ℕ) : XorLinear fun n => n <<< k := fun _ _ => Nat.shiftLeft_xor_distrib

theorem div_two_pow (k : ℕ) : XorLinear fun n => n / 2 ^ k := fun _ _ => Nat.xor_div_two_pow

theorem mod_two_pow (k : ℕ) : XorLinear fun n => n % 2 ^ k := fun _ _ => Nat.xor_mod_two_pow

end XorLinear

/-! ### Bits -/

/-- A word of `w + 1` bits is its top bit and the others. -/
theorem eq_top_xor (w n : ℕ) (h : n < 2 ^ (w + 1)) :
    n = (if n.testBit w then 2 ^ w else 0) ^^^ n % 2 ^ w := by
  apply Nat.eq_of_testBit_eq
  intro i
  rw [Nat.testBit_xor, Nat.testBit_mod_two_pow]
  rcases Nat.lt_trichotomy i w with hi | rfl | hi
  · have htop : (if n.testBit w then 2 ^ w else 0).testBit i = false := by
      split
      · exact Nat.testBit_two_pow_of_ne (Nat.ne_of_gt hi)
      · exact Nat.zero_testBit i
    rw [htop, decide_eq_true hi, Bool.true_and, Bool.false_xor]
  · rw [decide_eq_false (Nat.lt_irrefl i), Bool.false_and, Bool.xor_false]
    split
    · rename_i hbit
      rw [hbit, Nat.testBit_two_pow_self]
    · rename_i hbit
      rw [Nat.zero_testBit]
      exact eq_false_of_ne_true hbit
  · have hhigh : n.testBit i = false := by
      apply Nat.testBit_lt_two_pow
      exact Nat.lt_of_lt_of_le h (Nat.pow_le_pow_right (by decide) hi)
    have htop : (if n.testBit w then 2 ^ w else 0).testBit i = false := by
      split
      · exact Nat.testBit_two_pow_of_ne (Nat.ne_of_lt hi)
      · exact Nat.zero_testBit i
    rw [hhigh, htop, decide_eq_false (by omega), Bool.false_and, Bool.false_xor]

theorem XorLinear.eq_of_bits {f g : ℕ → ℕ} (hf : XorLinear f) (hg : XorLinear g) (w : ℕ)
    (h : ∀ i < w, f (2 ^ i) = g (2 ^ i)) : ∀ n < 2 ^ w, f n = g n := by
  induction w with
  | zero =>
    intro n hn
    have hzero : n = 0 := by
      rw [Nat.pow_zero] at hn
      omega
    rw [hzero, hf.map_zero, hg.map_zero]
  | succ w ih =>
    intro n hn
    have hlow : f (n % 2 ^ w) = g (n % 2 ^ w) :=
      ih (fun i hi => h i (Nat.lt_succ_of_lt hi)) _ (Nat.mod_lt _ (Nat.two_pow_pos w))
    have htop : f (if n.testBit w then 2 ^ w else 0) = g (if n.testBit w then 2 ^ w else 0) := by
      split
      · exact h w (Nat.lt_succ_self w)
      · rw [hf.map_zero, hg.map_zero]
    rw [eq_top_xor w n hn, hf, hg, htop, hlow]

/-- The map with given values on the bits `2 ^ 0, 2 ^ 1, …`. -/
def ofBits : List ℕ → ℕ → ℕ
  | [], _ => 0
  | c :: cs, n => (if n % 2 = 1 then c else 0) ^^^ ofBits cs (n / 2)

theorem ofBits_linear (cs : List ℕ) : XorLinear (ofBits cs) := by
  induction cs with
  | nil =>
    intro a b
    simp only [ofBits, Nat.xor_self]
  | cons c cs ih =>
    intro a b
    have hdiv : (a ^^^ b) / 2 = a / 2 ^^^ b / 2 := Nat.xor_div_two
    have hbit := @Nat.xor_mod_two_eq_one a b
    simp only [ofBits]
    rw [hdiv, ih, xor_xor_xor_comm]
    congr 1
    by_cases ha : a % 2 = 1
    · by_cases hb : b % 2 = 1
      · rw [if_neg (fun h => hbit.mp h ⟨fun _ => hb, fun _ => ha⟩), if_pos ha, if_pos hb,
          Nat.xor_self]
      · rw [if_pos (hbit.mpr fun h => hb (h.mp ha)), if_pos ha, if_neg hb, Nat.xor_zero]
    · by_cases hb : b % 2 = 1
      · rw [if_pos (hbit.mpr fun h => ha (h.mpr hb)), if_neg ha, if_pos hb, Nat.zero_xor]
      · rw [if_neg (fun h => hbit.mp h ⟨fun h => absurd h ha, fun h => absurd h hb⟩), if_neg ha,
          if_neg hb, Nat.zero_xor]

/-! ### Registers -/

section Digest

variable {β : Type} (f : ℕ → ℕ) (load : β → ℕ)

/-- A register that adds each item and then applies `f`. -/
def digest (seed : ℕ) (bs : List β) : ℕ := bs.foldl (fun c b => f (c ^^^ load b)) seed

/-- What the items contribute, by their distance from the end. -/
def weights : List β → ℕ
  | [] => 0
  | b :: bs => f^[bs.length + 1] (load b) ^^^ weights bs

theorem digest_append (seed : ℕ) (as bs : List β) :
    digest f load seed (as ++ bs) = digest f load (digest f load seed as) bs := List.foldl_append

variable {f}

theorem digest_eq (hf : XorLinear f) (seed : ℕ) (bs : List β) :
    digest f load seed bs = f^[bs.length] seed ^^^ weights f load bs := by
  induction bs generalizing seed with
  | nil => exact (Nat.xor_zero seed).symm
  | cons b bs ih =>
    show digest f load (f (seed ^^^ load b)) bs = _
    rw [ih, ← Function.iterate_succ_apply, hf.iterate, List.length_cons, weights, Nat.xor_assoc]

/-- The difference of two seeds goes through the register as if there were no items. -/
theorem digest_xor (hf : XorLinear f) (s t : ℕ) (bs : List β) :
    digest f load (s ^^^ t) bs = digest f load s bs ^^^ f^[bs.length] t := by
  rw [digest_eq load hf, digest_eq load hf, hf.iterate, Nat.xor_assoc,
    Nat.xor_comm (f^[bs.length] t), ← Nat.xor_assoc]

theorem digest_lt {w : ℕ} (hf : ∀ n < 2 ^ w, f n < 2 ^ w) (hload : ∀ b, load b < 2 ^ w) {seed : ℕ}
    (hseed : seed < 2 ^ w) (bs : List β) : digest f load seed bs < 2 ^ w := by
  induction bs generalizing seed with
  | nil => exact hseed
  | cons b bs ih => exact ih (hf _ (Nat.xor_lt_two_pow hseed (hload b)))

end Digest

/-! ### Shift registers -/

/-- One shift towards the low end; `poly` is added for a bit that drops out. -/
def lsbStep (poly n : ℕ) : ℕ := if n % 2 = 1 then n / 2 ^^^ poly else n / 2

/-- One shift towards the high end of a register of `w + 1` bits. -/
def msbStep (w poly n : ℕ) : ℕ :=
  if n.testBit w then n <<< 1 % 2 ^ (w + 1) ^^^ poly else n <<< 1 % 2 ^ (w + 1)

theorem lsbStep_linear (poly : ℕ) : XorLinear (lsbStep poly) := by
  intro a b
  have hbits := ofBits_linear [poly] a b
  have hstep : ∀ n, lsbStep poly n = n / 2 ^^^ ofBits [poly] n := by
    intro n
    unfold lsbStep ofBits ofBits
    split
    · rw [Nat.xor_zero]
    · rw [Nat.xor_zero, Nat.xor_zero]
  rw [hstep, hstep, hstep, hbits, Nat.xor_div_two, xor_xor_xor_comm]

theorem msbStep_linear (w poly : ℕ) : XorLinear (msbStep w poly) := by
  intro a b
  have hshift : (a ^^^ b) <<< 1 % 2 ^ (w + 1) =
      a <<< 1 % 2 ^ (w + 1) ^^^ b <<< 1 % 2 ^ (w + 1) := by
    rw [Nat.shiftLeft_xor_distrib, Nat.xor_mod_two_pow]
  unfold msbStep
  rw [hshift, Nat.testBit_xor]
  generalize a <<< 1 % 2 ^ (w + 1) = x
  generalize b <<< 1 % 2 ^ (w + 1) = y
  cases a.testBit w with
  | false =>
    cases b.testBit w with
    | false => rfl
    | true => exact Nat.xor_assoc x y poly
  | true =>
    cases b.testBit w with
    | false =>
      show x ^^^ y ^^^ poly = (x ^^^ poly) ^^^ y
      rw [Nat.xor_assoc, Nat.xor_comm y, ← Nat.xor_assoc]
    | true =>
      show x ^^^ y = (x ^^^ poly) ^^^ (y ^^^ poly)
      rw [xor_xor_xor_comm, Nat.xor_self, Nat.xor_zero]

theorem lsbStep_lt {w poly : ℕ} (hpoly : poly < 2 ^ w) {n : ℕ} (hn : n < 2 ^ w) :
    lsbStep poly n < 2 ^ w := by
  have hhalf : n / 2 < 2 ^ w := Nat.lt_of_le_of_lt (Nat.div_le_self n 2) hn
  unfold lsbStep
  split
  · exact Nat.xor_lt_two_pow hhalf hpoly
  · exact hhalf

theorem iterate_lsbStep_lt {w poly : ℕ} (hpoly : poly < 2 ^ w) (n : ℕ) {b : ℕ}
    (hb : b < 2 ^ w) :
    (lsbStep poly)^[n] b < 2 ^ w := by
  induction n generalizing b with
  | zero => exact hb
  | succ n ih => exact ih (lsbStep_lt hpoly hb)

theorem msbStep_lt {w poly : ℕ} (hpoly : poly < 2 ^ (w + 1)) (n : ℕ) :
    msbStep w poly n < 2 ^ (w + 1) := by
  have hmod : n <<< 1 % 2 ^ (w + 1) < 2 ^ (w + 1) := Nat.mod_lt _ (Nat.two_pow_pos _)
  unfold msbStep
  split
  · exact Nat.xor_lt_two_pow hmod hpoly
  · exact hmod

end ZephyrModem.Gf2
