import Mathlib.Algebra.CharP.Two
import Mathlib.Algebra.Field.ZMod
import Mathlib.Algebra.Polynomial.Div
import Mathlib.RingTheory.AdjoinRoot
import ZephyrModem.Gf2.Linear

/-!
# Shift registers and division of polynomials

A register that shifts towards the low end divides by a polynomial over the field of two
elements. Its words are read with the low bit as the highest coefficient, so that one
shift is the product with `X`.
-/

namespace ZephyrModem.Gf2
open Polynomial

/-- The polynomial of the low `w` bits of a word, the lowest bit first. -/
noncomputable def ofWord : ℕ → ℕ → (ZMod 2)[X]
  | 0, _ => 0
  | w + 1, n => (if n % 2 = 1 then X ^ w else 0) + ofWord w (n / 2)

/-- The word of the coefficients below `X ^ w`. -/
def toWord : ℕ → (ZMod 2)[X] → ℕ
  | 0, _ => 0
  | w + 1, p => (if p.coeff w = 1 then 1 else 0) + 2 * toWord w p

/-! ### Words and polynomials -/

theorem ofWord_zero (w : ℕ) : ofWord w 0 = 0 := by
  induction w with
  | zero => rfl
  | succ w ih => rw [ofWord, if_neg (by decide), Nat.zero_div, ih, add_zero]

theorem degree_ofWord_lt (w n : ℕ) : (ofWord w n).degree < w := by
  induction w generalizing n with
  | zero => exact degree_zero.trans_lt (WithBot.bot_lt_coe 0)
  | succ w ih =>
    have hlt : ((w : ℕ) : WithBot ℕ) < (w + 1 : ℕ) := Nat.cast_lt.mpr (Nat.lt_succ_self w)
    have htop : (if n % 2 = 1 then X ^ w else (0 : (ZMod 2)[X])).degree < (w + 1 : ℕ) := by
      split
      · exact (degree_X_pow_le w).trans_lt hlt
      · exact degree_zero.trans_lt (WithBot.bot_lt_coe _)
    exact (degree_add_le _ _).trans_lt (max_lt htop ((ih (n / 2)).trans hlt))

theorem coeff_ofWord_of_le {w n i : ℕ} (h : w ≤ i) : (ofWord w n).coeff i = 0 :=
  coeff_eq_zero_of_degree_lt ((degree_ofWord_lt w n).trans_le (Nat.cast_le.mpr h))

theorem ofWord_xor (w a b : ℕ) : ofWord w (a ^^^ b) = ofWord w a + ofWord w b := by
  induction w generalizing a b with
  | zero => exact (add_zero 0).symm
  | succ w ih =>
    have hbit := @Nat.xor_mod_two_eq_one a b
    rw [ofWord, ofWord, ofWord, Nat.xor_div_two, ih, add_add_add_comm]
    congr 1
    by_cases ha : a % 2 = 1
    · by_cases hb : b % 2 = 1
      · rw [if_neg (fun h => hbit.mp h ⟨fun _ => hb, fun _ => ha⟩), if_pos ha, if_pos hb,
          CharTwo.add_self_eq_zero]
      · rw [if_pos (hbit.mpr fun h => hb (h.mp ha)), if_pos ha, if_neg hb, add_zero]
    · by_cases hb : b % 2 = 1
      · rw [if_pos (hbit.mpr fun h => ha (h.mpr hb)), if_neg ha, if_pos hb, zero_add]
      · rw [if_neg (fun h => hbit.mp h ⟨fun h => absurd h ha, fun h => absurd h hb⟩), if_neg ha,
          if_neg hb, add_zero]

theorem toWord_congr {w : ℕ} {p q : (ZMod 2)[X]} (h : ∀ i < w, p.coeff i = q.coeff i) :
    toWord w p = toWord w q := by
  induction w with
  | zero => rfl
  | succ w ih =>
    rw [toWord, toWord, h w (Nat.lt_succ_self w), ih fun i hi => h i (Nat.lt_succ_of_lt hi)]

theorem toWord_ofWord {w n : ℕ} (h : n < 2 ^ w) : toWord w (ofWord w n) = n := by
  induction w generalizing n with
  | zero =>
    rw [Nat.pow_zero] at h
    exact (Nat.lt_one_iff.mp h).symm
  | succ w ih =>
    have hhalf : n / 2 < 2 ^ w := by
      rw [Nat.pow_succ] at h
      omega
    have htop : (ofWord (w + 1) n).coeff w = if n % 2 = 1 then 1 else 0 := by
      rw [ofWord, coeff_add, coeff_ofWord_of_le (Nat.le_refl w), add_zero]
      split
      · exact coeff_X_pow_self w
      · rfl
    have hrest : toWord w (ofWord (w + 1) n) = n / 2 := by
      rw [← ih hhalf]
      apply toWord_congr
      intro i hi
      rw [ofWord, coeff_add]
      split
      · rw [coeff_X_pow, if_neg (Nat.ne_of_lt hi), zero_add]
      · rw [coeff_zero, zero_add]
    rw [toWord, htop, hrest]
    by_cases hodd : n % 2 = 1
    · rw [if_pos hodd, if_pos rfl]
      omega
    · rw [if_neg hodd, if_neg zero_ne_one]
      omega

/-- A word that leaves its high bits free. -/
theorem ofWord_add {k n : ℕ} (h : n < 2 ^ k) (j : ℕ) : ofWord (k + j) n = X ^ j * ofWord k n := by
  induction k generalizing n with
  | zero =>
    have hzero : n = 0 := Nat.lt_one_iff.mp h
    rw [hzero, ofWord_zero, ofWord_zero, mul_zero]
  | succ k ih =>
    have hhalf : n / 2 < 2 ^ k := by
      rw [Nat.pow_succ] at h
      omega
    rw [Nat.succ_add, ofWord, ofWord, ih hhalf, mul_add, pow_add]
    congr 1
    split
    · exact mul_comm _ _
    · exact (mul_zero _).symm

/-! ### The register -/

noncomputable def generator (w poly : ℕ) : (ZMod 2)[X] := X ^ w + ofWord w poly

theorem generator_monic (w poly : ℕ) : (generator w poly).Monic :=
  monic_X_pow_add (degree_ofWord_lt w poly)

theorem degree_generator (w poly : ℕ) : (generator w poly).degree = w := by
  have hlt : (ofWord w poly).degree < (X ^ w : (ZMod 2)[X]).degree := by
    rw [degree_X_pow]
    exact degree_ofWord_lt w poly
  rw [generator, degree_add_eq_left_of_degree_lt hlt, degree_X_pow]

/-- One shift takes the remainder of the product with `X`. -/
theorem X_mul_ofWord {w poly n : ℕ} (h : n < 2 ^ w) :
    X * ofWord w n =
      ofWord w (lsbStep poly n) + if n % 2 = 1 then generator w poly else 0 := by
  cases w with
  | zero =>
    have hzero : n = 0 := Nat.lt_one_iff.mp h
    rw [hzero, if_neg (by decide)]
    exact (mul_zero X).trans (add_zero 0).symm
  | succ w =>
    have hhalf : n / 2 < 2 ^ w := by
      rw [Nat.pow_succ] at h
      omega
    have hshift : X * ofWord w (n / 2) = ofWord (w + 1) (n / 2) := by
      rw [ofWord_add hhalf 1, pow_one]
    rw [ofWord, mul_add, hshift, lsbStep]
    by_cases hodd : n % 2 = 1
    · rw [if_pos hodd, if_pos hodd, if_pos hodd, ofWord_xor, generator, ← pow_succ']
      rw [add_add_add_comm, add_comm (ofWord (w + 1) poly), add_assoc,
        CharTwo.add_self_eq_zero, add_zero, add_comm]
    · rw [if_neg hodd, if_neg hodd, if_neg hodd, mul_zero, zero_add, add_zero]

section Residues

variable (w poly : ℕ)

/-- The word as an element of the ring of remainders. -/
noncomputable def residue (n : ℕ) : AdjoinRoot (generator w poly) :=
  AdjoinRoot.mk (generator w poly) (ofWord w n)

theorem residue_xor (a b : ℕ) : residue w poly (a ^^^ b) = residue w poly a + residue w poly b := by
  rw [residue, ofWord_xor, map_add]
  rfl

theorem residue_lsbStep {n : ℕ} (h : n < 2 ^ w) :
    residue w poly (lsbStep poly n) =
      AdjoinRoot.root (generator w poly) * residue w poly n := by
  have hdrop : AdjoinRoot.mk (generator w poly)
      (if n % 2 = 1 then generator w poly else 0) = 0 := by
    split
    · exact AdjoinRoot.mk_self
    · exact map_zero _
  rw [residue, residue, ← AdjoinRoot.mk_X, ← RingHom.map_mul, X_mul_ofWord h, map_add, hdrop, add_zero]

theorem residue_iterate (hpoly : poly < 2 ^ w) (k : ℕ) {n : ℕ} (h : n < 2 ^ w) :
    residue w poly ((lsbStep poly)^[k] n) =
      AdjoinRoot.root (generator w poly) ^ k * residue w poly n := by
  induction k generalizing n with
  | zero => exact (one_mul _).symm
  | succ k ih =>
    rw [Function.iterate_succ_apply, ih (lsbStep_lt hpoly h), residue_lsbStep w poly h, pow_succ,
      mul_assoc]

/-- A word of `k` bits that has gone through `k` shifts. -/
theorem root_pow_mul_residue {k n : ℕ} (hk : k ≤ w) (h : n < 2 ^ k) :
    AdjoinRoot.root (generator w poly) ^ k * residue w poly n =
      AdjoinRoot.mk (generator w poly) (X ^ w * ofWord k n) := by
  have hword : ofWord w n = X ^ (w - k) * ofWord k n := by
    rw [← ofWord_add h, Nat.add_sub_cancel' hk]
  rw [residue, hword, ← AdjoinRoot.mk_X, ← map_pow, ← RingHom.map_mul, ← mul_assoc, ← pow_add,
    Nat.add_sub_cancel' hk]

/-! ### Messages -/

variable {β : Type} (k : ℕ) (load : β → ℕ)

/-- Items of `k` bits one behind the other, the first bit as the highest coefficient. -/
noncomputable def message : List β → (ZMod 2)[X]
  | [] => 0
  | b :: bs => X ^ (k * bs.length) * ofWord k (load b) + message bs

variable {w poly k load}

theorem residue_digest (hpoly : poly < 2 ^ w) (hk : k ≤ w) (hload : ∀ b, load b < 2 ^ k)
    {seed : ℕ} (hseed : seed < 2 ^ w) (bs : List β) :
    residue w poly (digest (lsbStep poly)^[k] load seed bs) =
      AdjoinRoot.mk (generator w poly)
        (X ^ (k * bs.length) * ofWord w seed + X ^ w * message k load bs) := by
  induction bs generalizing seed with
  | nil =>
    show AdjoinRoot.mk (generator w poly) (ofWord w seed) = _
    rw [message, mul_zero, add_zero, List.length_nil, Nat.mul_zero, pow_zero, one_mul]
  | cons b bs ih =>
    have hloaded : seed ^^^ load b < 2 ^ w :=
      Nat.xor_lt_two_pow hseed ((hload b).trans_le (Nat.pow_le_pow_right (by decide) hk))
    have hstep : AdjoinRoot.mk (generator w poly)
          (ofWord w ((lsbStep poly)^[k] (seed ^^^ load b))) =
        AdjoinRoot.mk (generator w poly) (X ^ k * ofWord w seed + X ^ w * ofWord k (load b)) := by
      show residue w poly _ = _
      rw [residue_iterate w poly hpoly k hloaded, residue_xor, mul_add,
        root_pow_mul_residue w poly hk (hload b), map_add, RingHom.map_mul, map_pow, AdjoinRoot.mk_X]
      rfl
    show residue w poly
      (digest (lsbStep poly)^[k] load ((lsbStep poly)^[k] (seed ^^^ load b)) bs) = _
    rw [ih (iterate_lsbStep_lt hpoly k hloaded), map_add, RingHom.map_mul, hstep,
      ← RingHom.map_mul, ← map_add, message, List.length_cons, Nat.mul_succ, pow_add]
    apply congrArg
    ring

/-- The register after a message holds the remainder of the seed and the message. -/
theorem ofWord_digest (hpoly : poly < 2 ^ w) (hk : k ≤ w) (hload : ∀ b, load b < 2 ^ k)
    {seed : ℕ} (hseed : seed < 2 ^ w) (bs : List β) :
    ofWord w (digest (lsbStep poly)^[k] load seed bs) =
      (X ^ (k * bs.length) * ofWord w seed + X ^ w * message k load bs) %ₘ generator w poly := by
  have hself : ofWord w (digest (lsbStep poly)^[k] load seed bs) %ₘ generator w poly =
      ofWord w (digest (lsbStep poly)^[k] load seed bs) := by
    rw [modByMonic_eq_self_iff (generator_monic w poly), degree_generator]
    exact degree_ofWord_lt w _
  rw [← hself]
  apply modByMonic_eq_of_dvd_sub (generator_monic w poly)
  exact AdjoinRoot.mk_eq_mk.mp (residue_digest hpoly hk hload hseed bs)

theorem digest_eq_toWord (hpoly : poly < 2 ^ w) (hk : k ≤ w) (hload : ∀ b, load b < 2 ^ k)
    {seed : ℕ} (hseed : seed < 2 ^ w) (bs : List β) :
    digest (lsbStep poly)^[k] load seed bs = toWord w
      ((X ^ (k * bs.length) * ofWord w seed + X ^ w * message k load bs) %ₘ generator w poly) := by
  have hwide : ∀ b, load b < 2 ^ w := fun b =>
    (hload b).trans_le (Nat.pow_le_pow_right (by decide) hk)
  have hlt := digest_lt load (fun n hn => iterate_lsbStep_lt hpoly k hn) hwide hseed bs
  rw [← ofWord_digest hpoly hk hload hseed bs, toWord_ofWord hlt]

end Residues

/-- The word of `w` ones. -/
theorem ofWord_ones (w : ℕ) : ofWord w (2 ^ w - 1) = ∑ i ∈ Finset.range w, X ^ i := by
  induction w with
  | zero => rfl
  | succ w ih =>
    have hpos := Nat.two_pow_pos w
    have hodd : (2 ^ (w + 1) - 1) % 2 = 1 := by
      rw [Nat.pow_succ]
      omega
    have hhalf : (2 ^ (w + 1) - 1) / 2 = 2 ^ w - 1 := by
      rw [Nat.pow_succ]
      omega
    rw [ofWord, if_pos hodd, hhalf, ih, Finset.sum_range_succ, add_comm]

end ZephyrModem.Gf2
