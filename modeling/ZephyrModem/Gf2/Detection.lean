import ZephyrModem.Gf2.Period

/-!
# Errors that a shift register detects

A register over a message of bits is linear, so that a damaged message passes exactly
when the register of the error alone is zero. It is not zero for an odd number of wrong
bits if the polynomial keeps parity, for two of them less than a period apart, and for
wrong bits that all lie in one stretch as long as the register.
-/

namespace ZephyrModem.Gf2
open Function

/-! ### Bits of a word -/

/-- The `k` low bits of a word, the lowest first. -/
def lowBits : ℕ → ℕ → List Bool
  | 0, _ => []
  | k + 1, n => decide (n % 2 = 1) :: lowBits k (n / 2)

@[simp] theorem length_lowBits (k n : ℕ) : (lowBits k n).length = k := by
  induction k generalizing n with
  | zero => rfl
  | succ k ih => rw [lowBits, List.length_cons, ih]

theorem lowBits_zero (k : ℕ) : lowBits k 0 = List.replicate k false := by
  induction k with
  | zero => rfl
  | succ k ih => rw [lowBits, List.replicate_succ, Nat.zero_div, ih]; rfl

/-- The word of a list of bits, the lowest first. -/
def wordOf : List Bool → ℕ
  | [] => 0
  | b :: bits => b.toNat + 2 * wordOf bits

theorem wordOf_lt (bits : List Bool) : wordOf bits < 2 ^ bits.length := by
  induction bits with
  | nil => exact Nat.one_pos
  | cons b bits ih =>
    have hb : b.toNat ≤ 1 := Bool.toNat_le b
    rw [wordOf, List.length_cons, Nat.pow_succ]
    omega

theorem lowBits_wordOf (bits : List Bool) : lowBits bits.length (wordOf bits) = bits := by
  induction bits with
  | nil => rfl
  | cons b bits ih =>
    have hhalf : (b.toNat + 2 * wordOf bits) / 2 = wordOf bits := by
      have hb : b.toNat ≤ 1 := Bool.toNat_le b
      omega
    have hbit : decide ((b.toNat + 2 * wordOf bits) % 2 = 1) = b := by
      rw [Nat.add_mul_mod_self_left]
      cases b <;> rfl
    rw [List.length_cons, wordOf, lowBits, hhalf, hbit, ih]

theorem wordOf_lowBits {k n : ℕ} (h : n < 2 ^ k) : wordOf (lowBits k n) = n := by
  induction k generalizing n with
  | zero =>
    rw [Nat.pow_zero] at h
    rw [lowBits, wordOf]
    omega
  | succ k ih =>
    rw [Nat.pow_succ] at h
    rw [lowBits, wordOf, ih (by omega)]
    rcases Nat.mod_two_eq_zero_or_one n with hn | hn
    · rw [hn]
      show 0 + _ = n
      omega
    · rw [hn]
      show 1 + _ = n
      omega

theorem lowBits_eq_replicate_iff {k n : ℕ} (h : n < 2 ^ k) :
    lowBits k n = List.replicate k false ↔ n = 0 := by
  constructor
  · intro hbits
    rw [← wordOf_lowBits h, hbits, ← lowBits_zero, wordOf_lowBits (Nat.two_pow_pos k)]
  · rintro rfl
    exact lowBits_zero k

theorem lowBits_append (j k n : ℕ) : lowBits (j + k) n = lowBits j n ++ lowBits k (n / 2 ^ j) := by
  induction j generalizing n with
  | zero => rw [Nat.zero_add, lowBits, List.nil_append, Nat.pow_zero, Nat.div_one]
  | succ j ih =>
    rw [Nat.succ_add, lowBits, lowBits, ih, List.cons_append, Nat.div_div_eq_div_mul,
      ← Nat.pow_succ']

theorem lowBits_mod (k n : ℕ) : lowBits k (n % 2 ^ k) = lowBits k n := by
  induction k generalizing n with
  | zero => rfl
  | succ k ih =>
    have hbit : n % 2 ^ (k + 1) % 2 = n % 2 := Nat.mod_mod_of_dvd n (dvd_pow_self 2 (Nat.succ_ne_zero k))
    have hhalf : n % 2 ^ (k + 1) / 2 = n / 2 % 2 ^ k := by
      rw [Nat.pow_succ', Nat.mod_mul_right_div_self]
    rw [lowBits, lowBits, hbit, hhalf, ih]

theorem lt_two_pow_of_drop {j k n : ℕ} (h : n < 2 ^ (j + k))
    (hdrop : (lowBits (j + k) n).drop j = List.replicate k false) : n < 2 ^ j := by
  have hhigh : n / 2 ^ j < 2 ^ k := Nat.div_lt_of_lt_mul (by rwa [← Nat.pow_add])
  rw [lowBits_append, List.drop_left' (length_lowBits j n), lowBits_eq_replicate_iff hhigh] at hdrop
  exact (Nat.div_eq_zero_iff_lt (Nat.two_pow_pos j)).mp hdrop

/-! ### The register over bits -/

section Register

variable (poly : ℕ)

/-- The register after a message of bits. -/
def bitDigest (seed : ℕ) (bits : List Bool) : ℕ := digest (lsbStep poly) Bool.toNat seed bits

theorem bitDigest_cons (seed : ℕ) (b : Bool) (bits : List Bool) :
    bitDigest poly seed (b :: bits) = bitDigest poly (lsbStep poly (seed ^^^ b.toNat)) bits := rfl

theorem bitDigest_append (seed : ℕ) (as bs : List Bool) :
    bitDigest poly seed (as ++ bs) = bitDigest poly (bitDigest poly seed as) bs :=
  digest_append _ _ _ _ _

theorem lsbStep_even (n : ℕ) : lsbStep poly (2 * n) = n := by
  rw [lsbStep, if_neg (by omega)]
  omega

theorem mod_xor_div (n : ℕ) : n = (n % 2) ^^^ (2 * (n / 2)) := by
  apply Nat.eq_of_testBit_eq
  intro i
  rw [Nat.testBit_xor]
  cases i with
  | zero =>
    rw [Nat.testBit_zero, Nat.testBit_zero, Nat.testBit_zero, Nat.mod_mod, Nat.mul_mod_right]
    simp
  | succ i =>
    have hlow : n % 2 / 2 = 0 := Nat.div_eq_of_lt (Nat.mod_lt n (by decide))
    have hhigh : 2 * (n / 2) / 2 = n / 2 := Nat.mul_div_cancel_left _ (by decide)
    rw [Nat.testBit_succ, Nat.testBit_succ, Nat.testBit_succ, hlow, hhigh, Nat.zero_testBit,
      Bool.false_xor]

/-- A word that is added at once goes in bit by bit. -/
theorem iterate_xor_eq_bitDigest (k c n : ℕ) (h : n < 2 ^ k) :
    (lsbStep poly)^[k] (c ^^^ n) = bitDigest poly c (lowBits k n) := by
  induction k generalizing c n with
  | zero =>
    rw [Nat.pow_zero] at h
    obtain rfl : n = 0 := by omega
    exact Nat.xor_zero c
  | succ k ih =>
    have hhalf : n / 2 < 2 ^ k := by
      rw [Nat.pow_succ] at h
      omega
    have hbit : (decide (n % 2 = 1)).toNat = n % 2 := by
      rcases Nat.mod_two_eq_zero_or_one n with hn | hn <;> rw [hn] <;> rfl
    have hstep : lsbStep poly (c ^^^ n) = lsbStep poly (c ^^^ n % 2) ^^^ n / 2 := by
      conv_lhs => rw [mod_xor_div n, ← Nat.xor_assoc, lsbStep_linear, lsbStep_even]
    rw [iterate_succ_apply, hstep, ih _ _ hhalf, lowBits, bitDigest_cons, hbit]

variable {β : Type} {load : β → ℕ}

theorem digest_eq_bitDigest {k : ℕ} (hload : ∀ b, load b < 2 ^ k) (seed : ℕ) (bs : List β) :
    digest (lsbStep poly)^[k] load seed bs =
      bitDigest poly seed (bs.flatMap fun b => lowBits k (load b)) := by
  induction bs generalizing seed with
  | nil => rfl
  | cons b bs ih =>
    rw [List.flatMap_cons, bitDigest_append, ← iterate_xor_eq_bitDigest poly k seed _ (hload b)]
    exact ih _

@[simp] theorem bitDigest_replicate (seed n : ℕ) :
    bitDigest poly seed (List.replicate n false) = (lsbStep poly)^[n] seed := by
  induction n generalizing seed with
  | zero => rfl
  | succ n ih =>
    rw [List.replicate_succ, bitDigest_cons, iterate_succ_apply, ← ih, Bool.toNat_false,
      Nat.xor_zero]

theorem bitDigest_eq_iterate (bits : List Bool) :
    bitDigest poly 0 bits = (lsbStep poly)^[bits.length] (wordOf bits) := by
  have h := iterate_xor_eq_bitDigest poly bits.length 0 (wordOf bits) (wordOf_lt bits)
  rw [Nat.zero_xor, lowBits_wordOf] at h
  exact h.symm

end Register

/-! ### Errors -/

section Errors

/-- The register of the sum of two messages. -/
theorem digest_zipWith {f : ℕ → ℕ} (hf : XorLinear f) {β : Type} {load : β → ℕ} {add : β → β → β}
    (hadd : ∀ a b, load (add a b) = load a ^^^ load b) {as bs : List β}
    (h : as.length = bs.length) (s t : ℕ) :
    digest f load (s ^^^ t) (List.zipWith add as bs) = digest f load s as ^^^ digest f load t bs := by
  induction as generalizing bs s t with
  | nil =>
    obtain rfl : bs = [] := List.length_eq_zero_iff.mp h.symm
    rfl
  | cons a as ih =>
    cases bs with
    | nil => cases h
    | cons b bs =>
      show digest f load (f ((s ^^^ t) ^^^ load (add a b))) (List.zipWith add as bs) = _
      rw [hadd, xor_xor_xor_comm, hf]
      exact ih (Nat.succ.inj h) _ _

variable {poly w : ℕ}

/-- The shift backwards, for a register of `w + 1` bits. -/
def lsbUnstep (w poly n : ℕ) : ℕ := if n.testBit w then 2 * (n ^^^ poly) + 1 else 2 * n

/-- With its top coefficient the register forgets nothing. -/
theorem lsbUnstep_lsbStep (htop : poly.testBit w = true) {n : ℕ} (hn : n < 2 ^ (w + 1)) :
    lsbUnstep w poly (lsbStep poly n) = n := by
  have hsmall : n / 2 < 2 ^ w := by
    rw [Nat.pow_succ] at hn
    omega
  have hhigh : (n / 2).testBit w = false := Nat.testBit_lt_two_pow hsmall
  unfold lsbStep lsbUnstep
  split
  · rw [Nat.testBit_xor, hhigh, htop, Bool.false_xor, if_pos rfl, Nat.xor_assoc, Nat.xor_self,
      Nat.xor_zero]
    omega
  · rw [hhigh, if_neg (by decide)]
    omega

theorem iterate_lsbUnstep (hpoly : poly < 2 ^ (w + 1)) (htop : poly.testBit w = true) (k : ℕ)
    {n : ℕ} (hn : n < 2 ^ (w + 1)) : (lsbUnstep w poly)^[k] ((lsbStep poly)^[k] n) = n := by
  induction k generalizing n with
  | zero => rfl
  | succ k ih =>
    rw [iterate_succ_apply (lsbStep poly), iterate_succ_apply' (lsbUnstep w poly),
      ih (lsbStep_lt hpoly hn), lsbUnstep_lsbStep htop hn]

theorem eq_zero_of_iterate (hpoly : poly < 2 ^ (w + 1)) (htop : poly.testBit w = true) (k : ℕ)
    {n : ℕ} (hn : n < 2 ^ (w + 1)) (h : (lsbStep poly)^[k] n = 0) : n = 0 := by
  induction k generalizing n with
  | zero => exact h
  | succ k ih =>
    have hstep : lsbStep poly n = 0 := ih (lsbStep_lt hpoly hn) h
    rw [← lsbUnstep_lsbStep htop hn, hstep, lsbUnstep, Nat.zero_testBit]
    rfl

theorem iterate_zero_eq_zero (k : ℕ) : (lsbStep poly)^[k] 0 = 0 :=
  ((lsbStep_linear poly).iterate k).map_zero

theorem eq_replicate_of_wordOf {bits : List Bool} (h : wordOf bits = 0) :
    bits = List.replicate bits.length false := by
  rw [← lowBits_wordOf bits, h, lowBits_zero, List.length_replicate]

theorem not_mem_of_eq_replicate {bits : List Bool} (h : bits = List.replicate bits.length false) :
    true ∉ bits := by
  intro hmem
  have hfalse : true = false := (List.eq_replicate_iff.mp h).2 true hmem
  cases hfalse

/-- All wrong bits lie in a stretch of `k`. -/
def Burst (k : ℕ) (bits : List Bool) : Prop :=
  ∃ i wrong j, bits = List.replicate i false ++ wrong ++ List.replicate j false ∧ wrong.length ≤ k

theorem Burst.mono {j k : ℕ} {bits : List Bool} (h : Burst j bits) (hle : j ≤ k) : Burst k bits := by
  obtain ⟨i, wrong, m, hbits, hlen⟩ := h
  exact ⟨i, wrong, m, hbits, hlen.trans hle⟩

theorem Burst.of_append {k : ℕ} {as bs : List Bool} (h : Burst k (as ++ bs)) : Burst k as := by
  obtain ⟨i, wrong, j, hbits, hlen⟩ := h
  have htake := congrArg (List.take as.length) hbits
  rw [List.take_left, List.take_append, List.take_append, List.take_replicate,
    List.take_replicate] at htake
  refine ⟨_, wrong.take (as.length - (List.replicate i false).length), _, htake, ?_⟩
  rw [List.length_take]
  omega

theorem bitDigest_burst (i j : ℕ) (wrong : List Bool) :
    bitDigest poly 0 (List.replicate i false ++ wrong ++ List.replicate j false) =
      (lsbStep poly)^[j + wrong.length] (wordOf wrong) := by
  rw [bitDigest_append, bitDigest_append, bitDigest_replicate, bitDigest_replicate,
    iterate_zero_eq_zero, bitDigest_eq_iterate, ← iterate_add_apply]

theorem Burst.eq_replicate (hpoly : poly < 2 ^ (w + 1)) (htop : poly.testBit w = true)
    {bits : List Bool} (hburst : Burst (w + 1) bits) (h : bitDigest poly 0 bits = 0) :
    bits = List.replicate bits.length false := by
  obtain ⟨i, wrong, j, rfl, hlen⟩ := hburst
  rw [bitDigest_burst] at h
  have hword : wordOf wrong = 0 := eq_zero_of_iterate hpoly htop _
    (Nat.lt_of_lt_of_le (wordOf_lt wrong) (Nat.pow_le_pow_right (by decide) hlen)) h
  rw [eq_replicate_of_wordOf hword, List.replicate_append_replicate,
    List.replicate_append_replicate, List.length_replicate]

theorem exists_of_count_succ {bits : List Bool} {n : ℕ} (h : bits.count true = n + 1) :
    ∃ i rest, bits = List.replicate i false ++ true :: rest ∧ rest.count true = n := by
  induction bits with
  | nil => cases h
  | cons b bits ih =>
    cases b with
    | true =>
      rw [List.count_cons_self] at h
      exact ⟨0, bits, rfl, Nat.succ.inj h⟩
    | false =>
      rw [List.count_cons_of_ne (by decide)] at h
      obtain ⟨i, rest, rfl, hrest⟩ := ih h
      exact ⟨i + 1, rest, rfl, hrest⟩

theorem eq_replicate_of_count {bits : List Bool} (h : bits.count true = 0) :
    bits = List.replicate bits.length false := by
  rw [List.eq_replicate_iff]
  refine ⟨rfl, ?_⟩
  intro b hb
  cases b with
  | false => rfl
  | true => exact absurd hb (List.count_eq_zero.mp h)

/-- Two wrong bits less than a period apart. -/
theorem bitDigest_ne_zero_of_two (hpoly : poly < 2 ^ (w + 1)) (htop : poly.testBit w = true)
    {bits : List Bool} (hcount : bits.count true = 2)
    (hperiod : bits.length ≤ minimalPeriod (lsbStep poly) 1) : bitDigest poly 0 bits ≠ 0 := by
  intro h
  obtain ⟨i, rest, rfl, hrest⟩ := exists_of_count_succ hcount
  obtain ⟨k, tail, rfl, htail⟩ := exists_of_count_succ hrest
  rw [eq_replicate_of_count htail] at h
  -- the second bit meets what is left of the first one
  have hmeet : bitDigest poly 0 (List.replicate i false ++ true :: (List.replicate k false ++
      true :: List.replicate tail.length false)) =
        (lsbStep poly)^[tail.length + 1] ((lsbStep poly)^[k + 1] 1 ^^^ 1) := by
    rw [bitDigest_append, bitDigest_replicate, iterate_zero_eq_zero, bitDigest_cons,
      Bool.toNat_true, Nat.zero_xor, bitDigest_append, bitDigest_replicate, ← iterate_succ_apply,
      bitDigest_cons, bitDigest_replicate, ← iterate_succ_apply, Bool.toNat_true]
  have hone : (1 : ℕ) < 2 ^ (w + 1) := Nat.one_lt_two_pow (Nat.succ_ne_zero w)
  have hback : (lsbStep poly)^[k + 1] 1 = 1 := by
    rw [hmeet] at h
    apply Nat.xor_eq_zero_iff.mp
    exact eq_zero_of_iterate hpoly htop _
      (Nat.xor_lt_two_pow (iterate_lsbStep_lt hpoly _ hone) hone) h
  have hle : minimalPeriod (lsbStep poly) 1 ≤ k + 1 :=
    IsPeriodicPt.minimalPeriod_le (Nat.succ_pos k) hback
  simp only [List.length_append, List.length_cons, List.length_replicate] at hperiod
  omega

/-- A map that counts the wrong bits modulo 2 counts them in the register. -/
theorem parity_bitDigest {parity : ℕ → ℕ} (hlinear : XorLinear parity) (hone : parity 1 = 1)
    (hstep : ∀ n < 2 ^ (w + 1), parity (lsbStep poly n) = parity n) (hpoly : poly < 2 ^ (w + 1))
    {seed : ℕ} (hseed : seed < 2 ^ (w + 1)) (bits : List Bool) :
    parity (bitDigest poly seed bits) = parity seed ^^^ bits.count true % 2 := by
  induction bits generalizing seed with
  | nil =>
    rw [List.count_nil, Nat.zero_mod, Nat.xor_zero]
    rfl
  | cons b bits ih =>
    have hbit : b.toNat < 2 ^ (w + 1) :=
      Nat.lt_of_le_of_lt (Bool.toNat_le b) (Nat.one_lt_two_pow (Nat.succ_ne_zero w))
    have hin : seed ^^^ b.toNat < 2 ^ (w + 1) := Nat.xor_lt_two_pow hseed hbit
    rw [bitDigest_cons, ih (lsbStep_lt hpoly hin), hstep _ hin, hlinear, Nat.xor_assoc]
    congr 1
    cases b with
    | false =>
      rw [List.count_cons_of_ne (by decide)]
      show parity 0 ^^^ _ = _
      rw [hlinear.map_zero, Nat.zero_xor]
    | true =>
      rw [List.count_cons_self]
      show parity 1 ^^^ _ = _
      rw [hone]
      rcases Nat.mod_two_eq_zero_or_one (bits.count true) with hc | hc
      · rw [Nat.add_mod, hc]
        rfl
      · rw [Nat.add_mod, hc]
        rfl

end Errors

end ZephyrModem.Gf2
