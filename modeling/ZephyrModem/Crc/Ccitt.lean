import ZephyrModem.Crc
import ZephyrModem.Gf2.Linear

/-!
# The 16-bit CRC and the one prescribed (`src/crc.h`, lines 36-64)

`crc.h` and `docs/protocols.md` prescribe the polynomial 0x1021 with initial value 0;
`modem_crc16` runs the reflected register from 0xFFFF. Both registers are linear, so
that whether they agree on a buffer is a question about its last two bytes.
-/

namespace ZephyrModem
open Function Gf2

/-! ### The two registers -/

/-- The register of `crc16_ccitt` after `d`. -/
def ccittRegister (seed : UInt16) (d : List UInt8) : UInt16 :=
  d.foldl (fun c b => shift16 8 (c ^^^ b.toUInt16)) seed

/-- What `zephyr/sys/crc.h` says of `crc16_ccitt`: reflected, and nothing is added at the end. -/
structure CcittCrc (crc : CrcService) : Prop where
  ccitt : ∀ seed d, crc.crc16Ccitt seed d = ccittRegister seed d

theorem ccittCrc_reference : CcittCrc referenceCrc where
  ccitt _ _ := rfl

/-- `n` shifts of a 16-bit register that takes the high bit first. -/
def msbShift16 : ℕ → UInt16 → UInt16
  | 0, c => c
  | n + 1, c =>
    msbShift16 n (if c &&& 0x8000 = 0x8000 then (c <<< 1) ^^^ 0x1021 else c <<< 1)

def highByte (b : UInt8) : UInt16 := b.toUInt16 <<< 8

/-- The CRC of `crc.h:39` and `protocols.md:56`: polynomial 0x1021, initial value 0. -/
def prescribedCrc16 (buf : List UInt8) : UInt16 :=
  buf.foldl (fun c b => msbShift16 8 (c ^^^ highByte b)) 0

example : prescribedCrc16 [0x31, 0x32, 0x33, 0x34, 0x35, 0x36, 0x37, 0x38, 0x39] = 0x31C3 := by
  decide +kernel

def lowFirst : ℕ → ℕ := (lsbStep 0x8408)^[8]

def highFirst : ℕ → ℕ := (msbStep 15 0x1021)^[8]

def loadLow (b : UInt8) : ℕ := b.toNat

def loadHigh (b : UInt8) : ℕ := b.toNat <<< 8

theorem lowFirst_linear : XorLinear lowFirst := (lsbStep_linear 0x8408).iterate 8

theorem highFirst_linear : XorLinear highFirst := (msbStep_linear 15 0x1021).iterate 8

theorem toNat_shift16 (n : ℕ) (c : UInt16) :
    (shift16 n c).toNat = (lsbStep 0x8408)^[n] c.toNat := by
  induction n generalizing c with
  | zero => rfl
  | succ n ih =>
    have hbit : c &&& 1 = 1 ↔ c.toNat % 2 = 1 := by
      rw [← UInt16.toNat_inj, UInt16.toNat_and]
      show c.toNat &&& 1 = 1 ↔ _
      rw [Nat.and_one_is_mod]
    have hshift : (c >>> 1).toNat = c.toNat / 2 := by
      rw [UInt16.toNat_shiftRight]
      exact Nat.shiftRight_one c.toNat
    rw [shift16, ih, iterate_succ_apply]
    congr 1
    unfold lsbStep
    by_cases h : c.toNat % 2 = 1
    · rw [if_pos h, if_pos (hbit.mpr h), UInt16.toNat_xor, hshift]
      rfl
    · rw [if_neg h, if_neg fun hc => h (hbit.mp hc), hshift]

theorem toNat_msbShift16 (n : ℕ) (c : UInt16) :
    (msbShift16 n c).toNat = (msbStep 15 0x1021)^[n] c.toNat := by
  induction n generalizing c with
  | zero => rfl
  | succ n ih =>
    have hbit : c &&& 0x8000 = 0x8000 ↔ c.toNat.testBit 15 = true := by
      rw [← UInt16.toNat_inj, UInt16.toNat_and]
      show c.toNat &&& 2 ^ 15 = 2 ^ 15 ↔ _
      rw [Nat.and_two_pow]
      cases c.toNat.testBit 15 <;> decide
    have hshift : (c <<< 1).toNat = c.toNat <<< 1 % 2 ^ (15 + 1) := UInt16.toNat_shiftLeft ..
    rw [msbShift16, ih, iterate_succ_apply]
    congr 1
    unfold msbStep
    by_cases h : c.toNat.testBit 15 = true
    · rw [if_pos h, if_pos (hbit.mpr h), UInt16.toNat_xor, hshift]
      rfl
    · rw [if_neg h, if_neg fun hc => h (hbit.mp hc), hshift]

theorem toNat_ccittRegister (seed : UInt16) (d : List UInt8) :
    (ccittRegister seed d).toNat = digest lowFirst loadLow seed.toNat d := by
  induction d generalizing seed with
  | nil => rfl
  | cons b d ih =>
    show (ccittRegister (shift16 8 (seed ^^^ b.toUInt16)) d).toNat = _
    rw [ih, toNat_shift16, UInt16.toNat_xor, UInt8.toNat_toUInt16]
    rfl

theorem toNat_prescribedCrc16 (d : List UInt8) :
    (prescribedCrc16 d).toNat = digest highFirst loadHigh 0 d := by
  have hload : ∀ b, (highByte b).toNat = b.toNat <<< 8 := by
    intro b
    have hb : b.toNat < 2 ^ 8 := b.toNat_lt
    have hlt : b.toNat <<< 8 < 2 ^ 16 := by
      rw [Nat.shiftLeft_eq]
      omega
    rw [highByte, UInt16.toNat_shiftLeft, UInt8.toNat_toUInt16]
    exact Nat.mod_eq_of_lt hlt
  have hall : ∀ (d : List UInt8) (seed : UInt16),
      (d.foldl (fun c b => msbShift16 8 (c ^^^ highByte b)) seed).toNat =
        digest highFirst loadHigh seed.toNat d := by
    intro d
    induction d with
    | nil => exact fun _ => rfl
    | cons b d ih =>
      intro seed
      rw [List.foldl_cons, ih, toNat_msbShift16, UInt16.toNat_xor, hload]
      rfl
  exact hall d 0

/-! ### Parity

The low bit of the exclusive or of all bits of a word, which both registers keep. -/

def parity : ℕ → ℕ := ofBits (List.replicate 16 1)

theorem parity_linear : XorLinear parity := ofBits_linear _

theorem lowFirst_lt {n : ℕ} (hn : n < 2 ^ 16) : lowFirst n < 2 ^ 16 := by
  have hall : ∀ k m, m < 2 ^ 16 → (lsbStep 0x8408)^[k] m < 2 ^ 16 := by
    intro k
    induction k with
    | zero => exact fun _ hm => hm
    | succ k ih => exact fun m hm => ih _ (lsbStep_lt (by decide) hm)
  exact hall 8 n hn

theorem highFirst_lt (n : ℕ) : highFirst n < 2 ^ 16 := by
  show (msbStep 15 0x1021)^[7 + 1] n < _
  rw [iterate_succ_apply']
  exact msbStep_lt (by decide) _

theorem parity_lowFirst : ∀ n < 2 ^ 16, parity (lowFirst n) = parity n :=
  (parity_linear.comp lowFirst_linear).eq_of_bits parity_linear 16 (by decide)

theorem parity_highFirst : ∀ n < 2 ^ 16, parity (highFirst n) = parity n :=
  (parity_linear.comp highFirst_linear).eq_of_bits parity_linear 16 (by decide)

theorem parity_load (b : UInt8) : parity (loadHigh b) = parity (loadLow b) :=
  (parity_linear.comp (.shiftLeft 8)).eq_of_bits parity_linear 8 (by decide) _ b.toNat_lt

theorem loadLow_lt (b : UInt8) : loadLow b < 2 ^ 16 :=
  Nat.lt_trans b.toNat_lt (by decide)

theorem loadHigh_lt (b : UInt8) : loadHigh b < 2 ^ 16 := by
  have hb : b.toNat < 2 ^ 8 := b.toNat_lt
  rw [loadHigh, Nat.shiftLeft_eq]
  omega

theorem parity_digest (d : List UInt8) {s t : ℕ} (hs : s < 2 ^ 16) (ht : t < 2 ^ 16)
    (h : parity s = parity t) :
    parity (digest lowFirst loadLow s d) = parity (digest highFirst loadHigh t d) := by
  induction d generalizing s t with
  | nil => exact h
  | cons b d ih =>
    have hlow : s ^^^ loadLow b < 2 ^ 16 := Nat.xor_lt_two_pow hs (loadLow_lt b)
    have hhigh : t ^^^ loadHigh b < 2 ^ 16 := Nat.xor_lt_two_pow ht (loadHigh_lt b)
    apply ih (lowFirst_lt hlow) (highFirst_lt _)
    rw [parity_lowFirst _ hlow, parity_highFirst _ hhigh, parity_linear, parity_linear, h,
      parity_load]

/-! ### The last two bytes

Together they reach every difference of even parity, each by two words. -/

/-- What the last two bytes, as one word, do to the difference of the registers. -/
def lastPart (v : ℕ) : ℕ :=
  (lowFirst (lowFirst (v / 2 ^ 8)) ^^^ lowFirst (v % 2 ^ 8)) ^^^
    (highFirst (highFirst ((v / 2 ^ 8) <<< 8)) ^^^ highFirst ((v % 2 ^ 8) <<< 8))

/-- What the bytes before them do to it, each by its distance from the end. -/
def firstPart (p : List UInt8) : ℕ :=
  lowFirst^[p.length + 2] 0xFFFF ^^^
    (lowFirst^[2] (weights lowFirst loadLow p) ^^^ highFirst^[2] (weights highFirst loadHigh p))

/-- The even one of the two words that reach a difference. -/
def solve : ℕ → ℕ :=
  ofBits [0, 0x34F0, 0xA49A, 0x85DC, 0xC750, 0xBBC2, 0xC728, 0xC776, 0xBB8E, 0xBBF4, 0xC744, 0xBBEA,
    0xBB3C, 0x3F5E, 0x3608, 0x58E0]

def slack : ℕ := 0x42E7

theorem lastPart_linear : XorLinear lastPart := by
  have hhigh := XorLinear.div_two_pow 8
  have hlow := XorLinear.mod_two_pow 8
  have hshift := XorLinear.shiftLeft 8
  exact ((lowFirst_linear.comp (lowFirst_linear.comp hhigh)).xor (lowFirst_linear.comp hlow)).xor
    ((highFirst_linear.comp (highFirst_linear.comp (hshift.comp hhigh))).xor
      (highFirst_linear.comp (hshift.comp hlow)))

theorem solve_lastPart : ∀ v < 2 ^ 16, solve (lastPart v) = v ^^^ ofBits [slack] v :=
  ((ofBits_linear _).comp lastPart_linear).eq_of_bits (XorLinear.id.xor (ofBits_linear _)) 16
    (by decide +kernel)

theorem lastPart_solve : ∀ n < 2 ^ 16, lastPart (solve n) = n ^^^ parity n :=
  (lastPart_linear.comp (ofBits_linear _)).eq_of_bits (XorLinear.id.xor parity_linear) 16
    (by decide)

theorem lastPart_slack : lastPart slack = 0 := by decide

theorem lastPart_eq_iff {n v : ℕ} (hn : n < 2 ^ 16) (hpar : parity n = 0) (hv : v < 2 ^ 16) :
    lastPart v = n ↔ v = solve n ∨ v = solve n ^^^ slack := by
  have hbit : ofBits [slack] v = 0 ∨ ofBits [slack] v = slack := by
    simp only [ofBits, Nat.xor_zero]
    split
    · exact .inr rfl
    · exact .inl rfl
  have hsolve : lastPart (solve n) = n := by
    rw [lastPart_solve n hn, hpar, Nat.xor_zero]
  constructor
  · rintro rfl
    have hv' := solve_lastPart v hv
    rcases hbit with h | h
    · rw [h, Nat.xor_zero] at hv'
      exact .inl hv'.symm
    · rw [h] at hv'
      exact .inr (xor_eq_iff.mp hv'.symm)
  · rintro (rfl | rfl)
    · exact hsolve
    · rw [lastPart_linear, hsolve, lastPart_slack, Nat.xor_zero]

theorem firstPart_eq (p : List UInt8) :
    firstPart p = lowFirst^[2] (digest lowFirst loadLow 0xFFFF p) ^^^
      highFirst^[2] (digest highFirst loadHigh 0 p) := by
  rw [digest_eq loadLow lowFirst_linear, digest_eq loadHigh highFirst_linear,
    (highFirst_linear.iterate _).map_zero, Nat.zero_xor, lowFirst_linear.iterate 2,
    ← iterate_add_apply, Nat.add_comm 2, Nat.xor_assoc]
  rfl

theorem digest_two {f : ℕ → ℕ} (hf : XorLinear f) (load : UInt8 → ℕ) (seed : ℕ) (p : List UInt8)
    (x y : UInt8) : digest f load seed (p ++ [x, y]) =
      f^[2] (digest f load seed p) ^^^ (f (f (load x)) ^^^ f (load y)) := by
  rw [digest_append, digest_eq load hf _ [x, y]]
  simp only [weights, Nat.xor_zero]
  rfl

theorem lowFirst_two_lt {n : ℕ} (hn : n < 2 ^ 16) : lowFirst^[2] n < 2 ^ 16 := by
  rw [iterate_succ_apply, iterate_one]
  exact lowFirst_lt (lowFirst_lt hn)

theorem highFirst_two_lt (n : ℕ) : highFirst^[2] n < 2 ^ 16 := by
  rw [iterate_succ_apply, iterate_one]
  exact highFirst_lt _

theorem parity_lowFirst_two {n : ℕ} (hn : n < 2 ^ 16) : parity (lowFirst^[2] n) = parity n := by
  rw [iterate_succ_apply, iterate_one, parity_lowFirst _ (lowFirst_lt hn), parity_lowFirst _ hn]

theorem parity_highFirst_two {n : ℕ} (hn : n < 2 ^ 16) : parity (highFirst^[2] n) = parity n := by
  rw [iterate_succ_apply, iterate_one, parity_highFirst _ (highFirst_lt n), parity_highFirst _ hn]

theorem lowDigest_lt (p : List UInt8) : digest lowFirst loadLow 0xFFFF p < 2 ^ 16 :=
  digest_lt loadLow (fun _ hn => lowFirst_lt hn) loadLow_lt (by decide) p

theorem highDigest_lt (p : List UInt8) : digest highFirst loadHigh 0 p < 2 ^ 16 :=
  digest_lt loadHigh (fun n _ => highFirst_lt n) loadHigh_lt (by decide) p

theorem firstPart_lt (p : List UInt8) : firstPart p < 2 ^ 16 := by
  rw [firstPart_eq]
  exact Nat.xor_lt_two_pow (lowFirst_two_lt (lowDigest_lt p)) (highFirst_two_lt _)

theorem parity_firstPart (p : List UInt8) : parity (firstPart p) = 0 := by
  have hseeds : parity 0xFFFF = parity 0 := by decide
  have hsame := parity_digest p (show 0xFFFF < 2 ^ 16 by decide) (Nat.two_pow_pos 16) hseeds
  rw [firstPart_eq, parity_linear, parity_lowFirst_two (lowDigest_lt p),
    parity_highFirst_two (highDigest_lt p), hsame, Nat.xor_self]

theorem xor_eq_xor_iff {a b c d : ℕ} : a ^^^ b = c ^^^ d ↔ b ^^^ d = a ^^^ c := by
  constructor
  · intro h
    have hb : b = a ^^^ (c ^^^ d) := by
      rw [← h, ← Nat.xor_assoc, Nat.xor_self, Nat.zero_xor]
    rw [hb, Nat.xor_assoc, Nat.xor_assoc, Nat.xor_self, Nat.xor_zero]
  · intro h
    have hb : b = a ^^^ c ^^^ d := by
      rw [← h, Nat.xor_assoc, Nat.xor_self, Nat.xor_zero]
    rw [hb, ← Nat.xor_assoc, ← Nat.xor_assoc, Nat.xor_self, Nat.zero_xor]

theorem registers_eq_iff (p : List UInt8) (x y : UInt8) :
    digest lowFirst loadLow 0xFFFF (p ++ [x, y]) = digest highFirst loadHigh 0 (p ++ [x, y]) ↔
      (be16 x y).toNat = solve (firstPart p) ∨ (be16 x y).toNat = solve (firstPart p) ^^^ slack := by
  have hhigh : (be16 x y).toNat / 2 ^ 8 = x.toNat := by
    have hy : y.toNat < 256 := y.toNat_lt
    rw [be16_toNat]
    omega
  have hlow : (be16 x y).toNat % 2 ^ 8 = y.toNat := by
    have hy : y.toNat < 256 := y.toNat_lt
    rw [be16_toNat]
    omega
  rw [← lastPart_eq_iff (firstPart_lt p) (parity_firstPart p) (be16 x y).toNat_lt,
    digest_two lowFirst_linear, digest_two highFirst_linear, firstPart_eq, xor_eq_xor_iff, lastPart,
    hhigh, hlow]
  rfl

theorem registers_ne_of_length {d : List UInt8} (h : d.length < 2) :
    digest lowFirst loadLow 0xFFFF d ≠ digest highFirst loadHigh 0 d := by
  have hone : ∀ n < 2 ^ 8, lowFirst (0xFFFF ^^^ n) ≠ highFirst (0 ^^^ n <<< 8) := by decide +kernel
  cases d with
  | nil => decide
  | cons b d =>
    cases d with
    | nil =>
      rw [digest, digest, List.foldl_cons, List.foldl_nil, List.foldl_cons, List.foldl_nil]
      exact hone b.toNat b.toNat_lt
    | cons c d =>
      rw [List.length_cons, List.length_cons] at h
      omega

/-- `modem_crc16` is the prescribed CRC on the buffers of at least two bytes whose last
two bytes are one of two words that the bytes before them determine. -/
theorem modemCrc16_eq_prescribed_iff {crc : CrcService} (h : CcittCrc crc) (buf : List UInt8) :
    modemCrc16 crc buf = prescribedCrc16 buf ↔
      ∃ p x y, buf = p ++ [x, y] ∧
        ((be16 x y).toNat = solve (firstPart p) ∨
          (be16 x y).toNat = solve (firstPart p) ^^^ slack) := by
  rw [modemCrc16, h.ccitt, ← UInt16.toNat_inj, toNat_ccittRegister, toNat_prescribedCrc16]
  show digest lowFirst loadLow 0xFFFF buf = _ ↔ _
  by_cases hlen : buf.length < 2
  · constructor
    · intro heq
      exact absurd heq (registers_ne_of_length hlen)
    · rintro ⟨p, x, y, rfl, -⟩
      rw [List.length_append, List.length_cons, List.length_cons] at hlen
      omega
  · obtain ⟨p, x, y, rfl⟩ : ∃ p x y, buf = p ++ [x, y] := by
      have hdrop : (buf.drop (buf.length - 2)).length = 2 := by
        rw [List.length_drop]
        omega
      obtain ⟨x, y, hxy⟩ := List.length_eq_two.mp hdrop
      exact ⟨buf.take (buf.length - 2), x, y, by rw [← hxy, List.take_append_drop]⟩
    rw [registers_eq_iff]
    constructor
    · intro hlast
      exact ⟨p, x, y, rfl, hlast⟩
    · rintro ⟨p', x', y', happend, hlast⟩
      obtain ⟨rfl, hxy⟩ := List.append_inj' happend rfl
      obtain ⟨rfl, hy⟩ := List.cons.inj hxy
      obtain ⟨rfl, -⟩ := List.cons.inj hy
      exact hlast

theorem modemCrc16_eq_prescribed_two :
    modemCrc16 referenceCrc [0x96, 0x55] = prescribedCrc16 [0x96, 0x55] :=
  (modemCrc16_eq_prescribed_iff ccittCrc_reference [0x96, 0x55]).mpr
    ⟨[], 0x96, 0x55, rfl, by decide⟩

/-- The check string: 0x6F91, where 0x31C3 is prescribed. -/
theorem modemCrc16_ne_prescribed :
    ¬ ∀ buf, modemCrc16 referenceCrc buf = prescribedCrc16 buf := by
  intro h
  have hcheck := h [0x31, 0x32, 0x33, 0x34, 0x35, 0x36, 0x37, 0x38, 0x39]
  exact absurd hcheck (by decide +kernel)

end ZephyrModem
