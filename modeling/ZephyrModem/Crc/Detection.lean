import Mathlib.Tactic.NormNum.Prime
import ZephyrModem.Crc.Ccitt
import ZephyrModem.Gf2.Detection

/-!
# Line errors that the packet checks detect

A packet carries its CRC high byte first, while the register takes the low byte of a
word first, so that an error across the end of the payload reaches the register with the
two check bytes exchanged. A burst of sixteen bits is detected inside the payload, of
twelve bits anywhere; one bit more and there are bursts that pass.
-/

namespace ZephyrModem
open Function Gf2

/-- The bits of the bytes in the order of the line, the low bit of each byte first. -/
def lineBits (bs : List UInt8) : List Bool := bs.flatMap fun b => lowBits 8 b.toNat

theorem lineBits_append (as bs : List UInt8) : lineBits (as ++ bs) = lineBits as ++ lineBits bs :=
  List.flatMap_append

theorem lineBits_two (x y : UInt8) : lineBits [x, y] = lowBits 8 x.toNat ++ lowBits 8 y.toNat := by
  rw [lineBits, List.flatMap_cons, List.flatMap_cons, List.flatMap_nil, List.append_nil]

theorem length_lineBits (bs : List UInt8) : (lineBits bs).length = 8 * bs.length := by
  induction bs with
  | nil => rfl
  | cons b bs ih =>
    rw [lineBits, List.flatMap_cons, List.length_append, length_lowBits, ← lineBits, ih,
      List.length_cons]
    omega

/-- The bytes with the bits of `e` changed. -/
def corrupt (bs e : List UInt8) : List UInt8 := List.zipWith (· ^^^ ·) bs e

theorem corrupt_append {as bs d e : List UInt8} (h : d.length = as.length) :
    corrupt (as ++ bs) (d ++ e) = corrupt as d ++ corrupt bs e :=
  List.zipWith_append h.symm

theorem length_corrupt {bs e : List UInt8} (h : e.length = bs.length) :
    (corrupt bs e).length = bs.length := by
  rw [corrupt, List.length_zipWith, h, Nat.min_self]

/-! ### The CRC of a damaged payload -/

theorem crcHi_xor (a b : UInt16) : crcHi (a ^^^ b) = crcHi a ^^^ crcHi b := by
  rw [crcHi, UInt16.shiftRight_xor, UInt16.toUInt8_xor]
  rfl

theorem crcLo_xor (a b : UInt16) : crcLo (a ^^^ b) = crcLo a ^^^ crcLo b := by
  apply UInt8.toNat_inj.mp
  rw [UInt8.toNat_xor, crcLo_toNat, crcLo_toNat, crcLo_toNat, UInt16.toNat_xor]
  exact Nat.xor_mod_two_pow (n := 8)

theorem be16_xor (a b x y : UInt8) : be16 (a ^^^ x) (b ^^^ y) = be16 a b ^^^ be16 x y := by
  obtain ⟨ha, hb⟩ := (be16_eq_iff a b _).mp rfl
  obtain ⟨hx, hy⟩ := (be16_eq_iff x y _).mp rfl
  rw [be16_eq_iff, crcHi_xor, crcLo_xor, ← ha, ← hb, ← hx, ← hy]
  exact ⟨rfl, rfl⟩

theorem modemCrc16_corrupt {crc : CrcService} (h : CcittCrc crc) {d e : List UInt8}
    (hlen : e.length = d.length) :
    modemCrc16 crc (corrupt d e) = modemCrc16 crc d ^^^ ccittRegister 0 e := by
  apply UInt16.toNat_inj.mp
  rw [UInt16.toNat_xor, modemCrc16, modemCrc16, h.ccitt, h.ccitt, toNat_ccittRegister,
    toNat_ccittRegister, toNat_ccittRegister]
  exact digest_zipWith lowFirst_linear UInt8.toNat_xor hlen.symm 0xFFFF 0

/-- The check bytes of a packet fit the payload, both as the line delivers them, when
what was done to the check bytes is the CRC of what was done to the payload. -/
theorem passes_iff {crc : CrcService} (h : CcittCrc crc) {d e : List UInt8}
    (hlen : e.length = d.length) (x y : UInt8) :
    be16 (crcHi (modemCrc16 crc d) ^^^ x) (crcLo (modemCrc16 crc d) ^^^ y) =
      modemCrc16 crc (corrupt d e) ↔ be16 x y = ccittRegister 0 e := by
  rw [be16_xor, be16_crcHi_crcLo, modemCrc16_corrupt h hlen]
  exact UInt16.xor_right_inj _

/-! ### Errors without effect -/

theorem toNat_ccittRegister_zero (e : List UInt8) :
    (ccittRegister 0 e).toNat = bitDigest 0x8408 0 (lineBits e) := by
  rw [toNat_ccittRegister]
  exact digest_eq_bitDigest 0x8408 (fun b => b.toNat_lt) 0 e

theorem poly_lt : 0x8408 < 2 ^ (15 + 1) := by decide

theorem poly_testBit : (0x8408 : ℕ).testBit 15 = true := by decide

theorem prime_dvd_period {p : ℕ} (hp : p.Prime) (h : p ∣ 32767) : p ∈ [7, 31, 151] := by
  have hself : ∀ {q : ℕ}, q.Prime → p ∣ q → p = q := fun hq hdvd =>
    (Nat.prime_dvd_prime_iff_eq hp hq).mp hdvd
  rw [show 32767 = 7 * (31 * 151) by decide] at h
  rcases (Nat.Prime.dvd_mul hp).mp h with h | h
  · rw [hself (by norm_num) h]
    decide
  rcases (Nat.Prime.dvd_mul hp).mp h with h | h
  · rw [hself (by norm_num) h]
    decide
  · rw [hself (by norm_num) h]
    decide

theorem minimalPeriod_one : minimalPeriod (lsbStep 0x8408) 1 = 32767 := by
  have hone : 1 < 2 ^ (15 + 1) := by decide
  have hpower : ∀ p ∈ [7, 31, 151], mul 0x8408 16 1 (power 0x8408 15 15 (32767 / p)) ≠ 1 := by
    decide +kernel
  apply minimalPeriod_eq_of_primes
  · exact (isPeriodicPt_iff poly_lt (k := 15) (by decide) hone).mpr (by decide +kernel)
  · intro p hp hdvd hper
    have hlt : 32767 / p < 2 ^ 15 := Nat.lt_of_le_of_lt (Nat.div_le_self _ p) (by decide)
    exact hpower p (prime_dvd_period hp hdvd) ((isPeriodicPt_iff poly_lt hlt hone).mp hper)

section Silent

variable {e : List UInt8} {x y : UInt8} (h : be16 x y = ccittRegister 0 e)

include h

theorem toNat_be16_eq : x.toNat * 256 + y.toNat = bitDigest 0x8408 0 (lineBits e) := by
  rw [← be16_toNat, h, toNat_ccittRegister_zero]

/-- With its two check bytes exchanged an error without effect is a multiple of the
polynomial. -/
theorem bitDigest_exchanged : bitDigest 0x8408 0 (lineBits e ++ lineBits [y, x]) = 0 := by
  have hy : y.toNat < 2 ^ 8 := y.toNat_lt
  have hx : x.toNat < 2 ^ 8 := x.toNat_lt
  have hword : lineBits [y, x] = lowBits 16 (x.toNat * 256 + y.toNat) := by
    have hlow : (x.toNat * 256 + y.toNat) % 2 ^ 8 = y.toNat := by omega
    have hhigh : (x.toNat * 256 + y.toNat) / 2 ^ 8 = x.toNat := by omega
    rw [lineBits_two, lowBits_append 8 8, ← lowBits_mod 8 (x.toNat * 256 + y.toNat), hlow, hhigh]
  rw [bitDigest_append, ← toNat_be16_eq h, hword, ← iterate_xor_eq_bitDigest _ _ _ _ (by omega),
    Nat.xor_self, iterate_zero_eq_zero]

theorem count_even : (lineBits (e ++ [x, y])).count true % 2 = 0 := by
  have hparity := parity_bitDigest (w := 15) parity_linear (by decide)
    (parity_linear.comp (lsbStep_linear 0x8408) |>.eq_of_bits parity_linear 16 (by decide))
    poly_lt (Nat.two_pow_pos 16) (lineBits e ++ lineBits [y, x])
  rw [bitDigest_exchanged h, parity_linear.map_zero, Nat.zero_xor] at hparity
  rw [hparity, lineBits_append, lineBits_two, lineBits_two, List.count_append, List.count_append,
    List.count_append, List.count_append, Nat.add_comm ((lowBits 8 x.toNat).count true)]

theorem not_two_wrong (hlen : e.length ≤ 4093) : (lineBits (e ++ [x, y])).count true ≠ 2 := by
  intro htwo
  have hcount : (lineBits e ++ lineBits [y, x]).count true = 2 := by
    rw [← htwo, lineBits_append, lineBits_two, lineBits_two, List.count_append, List.count_append,
      List.count_append, List.count_append, Nat.add_comm ((lowBits 8 y.toNat).count true)]
  refine bitDigest_ne_zero_of_two poly_lt poly_testBit hcount ?_ (bitDigest_exchanged h)
  rw [minimalPeriod_one, List.length_append, length_lineBits, length_lineBits]
  show 8 * e.length + 8 * 2 ≤ 32767
  omega

theorem eq_zero_of_clean (he : bitDigest 0x8408 0 (lineBits e) = 0) : x = 0 ∧ y = 0 := by
  have hword := toNat_be16_eq h
  rw [he] at hword
  refine ⟨UInt8.toNat_inj.mp ?_, UInt8.toNat_inj.mp ?_⟩
  · show x.toNat = 0
    omega
  · show y.toNat = 0
    omega

theorem eq_zero_of_payload_burst (hburst : Burst 16 (lineBits e)) (hx : x = 0) (hy : y = 0) :
    true ∉ lineBits e := by
  have hzero : bitDigest 0x8408 0 (lineBits e) = 0 := by
    rw [← toNat_be16_eq h, hx, hy]
    rfl
  exact not_mem_of_eq_replicate (hburst.eq_replicate poly_lt poly_testBit hzero)

end Silent

/-! ### Bursts across the end of the payload -/

/-- The short end of the burst is tried: up to five bits of the payload, or up to six
of the check bytes. -/
theorem few_payload_bits : ∀ a < 6, ∀ n < 2 ^ a,
    (lowBits 8 ((lsbStep 0x8408)^[a] n / 256) ++ lowBits 8 ((lsbStep 0x8408)^[a] n % 256)).drop
      (12 - a) = List.replicate (4 + a) false → n = 0 := by
  decide +kernel

theorem few_check_bits : ∀ b ≤ 6, ∀ x < 2 ^ b,
    (lsbUnstep 15 0x8408)^[12 - b] (x * 256) < 2 ^ (12 - b) → x = 0 := by
  decide +kernel

theorem eq_zero_of_straddle {a n x y : ℕ} (ha : a < 12) (hn : n < 2 ^ a) (hx : x < 2 ^ 8)
    (hy : y < 2 ^ 8) (hword : x * 256 + y = (lsbStep 0x8408)^[a] n)
    (hend : (lowBits 8 x ++ lowBits 8 y).drop (12 - a) = List.replicate (4 + a) false) : n = 0 := by
  have hhigh : (lsbStep 0x8408)^[a] n / 256 = x := by omega
  have hlow : (lsbStep 0x8408)^[a] n % 256 = y := by omega
  by_cases hfew : a < 6
  · apply few_payload_bits a hfew n hn
    rw [hhigh, hlow]
    exact hend
  · have hdrop : 12 - a ≤ (lowBits 8 x).length := by
      rw [length_lowBits]
      omega
    have hsplit : List.replicate (4 + a) false =
        List.replicate (a - 4) false ++ List.replicate 8 false := by
      rw [List.replicate_append_replicate]
      congr 1
      omega
    rw [List.drop_append_of_le_length hdrop, hsplit] at hend
    obtain ⟨hx', hy'⟩ := List.append_inj' hend (by rw [length_lowBits, List.length_replicate])
    have hsum : 12 - a + (a - 4) = 8 := by omega
    obtain rfl : y = 0 := (lowBits_eq_replicate_iff hy).mp hy'
    rw [← hsum] at hx hx'
    have hsmall : x < 2 ^ (12 - a) := lt_two_pow_of_drop hx hx'
    have hn' : n < 2 ^ (15 + 1) :=
      Nat.lt_of_lt_of_le hn (Nat.pow_le_pow_right (by decide) (by omega))
    have hback := iterate_lsbUnstep poly_lt poly_testBit a hn'
    rw [← hword, Nat.add_zero] at hback
    have hzero : x = 0 := by
      apply few_check_bits (12 - a) (by omega) x hsmall
      have ha' : 12 - (12 - a) = a := by omega
      rwa [ha', hback]
    rw [hzero] at hword
    exact eq_zero_of_iterate poly_lt poly_testBit a hn' hword.symm

theorem eq_zero_of_false {x y : UInt8} {k : ℕ}
    (h : lowBits 8 x.toNat ++ lowBits 8 y.toNat = List.replicate k false) :
    x.toNat * 256 + y.toNat = 0 := by
  obtain ⟨-, hx, hy⟩ := List.append_eq_replicate_iff.mp h
  rw [length_lowBits] at hx hy
  rw [(lowBits_eq_replicate_iff x.toNat_lt).mp hx, (lowBits_eq_replicate_iff y.toNat_lt).mp hy]

/-- A burst of twelve bits without effect leaves the register zero at the end of the
payload. -/
theorem bitDigest_eq_zero_of_burst {e : List UInt8} {x y : UInt8} (h : be16 x y = ccittRegister 0 e)
    (hburst : Burst 12 (lineBits (e ++ [x, y]))) : bitDigest 0x8408 0 (lineBits e) = 0 := by
  obtain ⟨i, wrong, j, hbits, hlen⟩ := hburst
  rw [lineBits_append, lineBits_two] at hbits
  have htotal := congrArg List.length hbits
  have hpayload := congrArg (List.take (lineBits e).length) hbits
  have hcheck := congrArg (List.drop (lineBits e).length) hbits
  rw [List.take_left, List.take_append, List.take_append, List.take_replicate,
    List.take_replicate] at hpayload
  rw [List.drop_left, List.drop_append, List.drop_append, List.drop_replicate,
    List.drop_replicate] at hcheck
  simp only [List.length_append, List.length_replicate, length_lowBits] at htotal hpayload hcheck
  by_cases hbefore : (lineBits e).length ≤ i
  · -- the payload is clean
    rw [hpayload, Nat.sub_eq_zero_of_le hbefore, List.take_zero, bitDigest_burst]
    exact iterate_zero_eq_zero _
  · by_cases hafter : wrong.length ≤ (lineBits e).length - i
    · -- the check bytes are clean
      rw [List.drop_of_length_le hafter, List.append_nil, List.replicate_append_replicate] at hcheck
      rw [← toNat_be16_eq h]
      exact eq_zero_of_false hcheck
    · obtain ⟨a, ha⟩ : ∃ a, a = (lineBits e).length - i := ⟨_, rfl⟩
      have hlast : min ((lineBits e).length - (i + wrong.length)) j = 0 := by omega
      have htake : (wrong.take a).length = a := by
        rw [List.length_take]
        omega
      have hdigest : bitDigest 0x8408 0 (lineBits e) =
          (lsbStep 0x8408)^[a] (wordOf (wrong.take a)) := by
        rw [hpayload, hlast, bitDigest_burst, Nat.zero_add, ← ha, htake]
      have hend : (lowBits 8 x.toNat ++ lowBits 8 y.toNat).drop (12 - a) =
          List.replicate (4 + a) false := by
        have hwrong : (wrong.drop a).length ≤ 12 - a := by
          rw [List.length_drop]
          omega
        have hbegin : i - (lineBits e).length = 0 := by omega
        rw [hcheck, hbegin, ← ha, List.replicate_zero, List.nil_append, List.drop_append,
          List.drop_of_length_le hwrong, List.nil_append, List.drop_replicate, List.length_drop]
        congr 1
        omega
      have hword := wordOf_lt (wrong.take a)
      rw [htake] at hword
      have hzero := eq_zero_of_straddle (by omega) hword x.toNat_lt y.toNat_lt
        ((toNat_be16_eq h).trans hdigest) hend
      rw [hdigest, hzero]
      exact iterate_zero_eq_zero a

theorem not_mem_of_burst {e : List UInt8} {x y : UInt8} (h : be16 x y = ccittRegister 0 e)
    (hburst : Burst 12 (lineBits (e ++ [x, y]))) : true ∉ lineBits (e ++ [x, y]) := by
  have hclean := bitDigest_eq_zero_of_burst h hburst
  obtain ⟨rfl, rfl⟩ := eq_zero_of_clean h hclean
  have hpayload : Burst 16 (lineBits e) := by
    rw [lineBits_append] at hburst
    exact hburst.of_append.mono (by decide)
  rw [lineBits_append, List.mem_append, not_or]
  exact ⟨eq_zero_of_payload_burst h hpayload rfl rfl, by decide⟩

/-! ### What is detected -/

/-- Wrong bits `e` in the payload and `x`, `y` in the check bytes: an odd number of them, or
two, or all within twelve bits of the line, or within sixteen bits of the payload, or none
of them in the payload. -/
inductive Noticeable (e : List UInt8) (x y : UInt8) : Prop
  | odd (h : (lineBits (e ++ [x, y])).count true % 2 = 1)
  | two (h : (lineBits (e ++ [x, y])).count true = 2)
  | burst (hwrong : true ∈ lineBits (e ++ [x, y])) (h : Burst 12 (lineBits (e ++ [x, y])))
  | payloadBurst (hwrong : true ∈ lineBits e) (h : Burst 16 (lineBits e)) (hx : x = 0) (hy : y = 0)
  | checkBytes (hwrong : x ≠ 0 ∨ y ≠ 0) (h : true ∉ lineBits e)

theorem Noticeable.ne {e : List UInt8} {x y : UInt8} (hlen : e.length ≤ 4093)
    (hwrong : Noticeable e x y) : be16 x y ≠ ccittRegister 0 e := by
  intro h
  cases hwrong with
  | odd hodd =>
    have heven := count_even h
    omega
  | two htwo => exact not_two_wrong h hlen htwo
  | burst hmem hburst => exact not_mem_of_burst h hburst hmem
  | payloadBurst hmem hburst hx hy => exact eq_zero_of_payload_burst h hburst hx hy hmem
  | checkBytes hne hclean =>
    have hcount : (lineBits e).count true = 0 := List.count_eq_zero.mpr hclean
    have hzero : bitDigest 0x8408 0 (lineBits e) = 0 := by
      rw [eq_replicate_of_count hcount, bitDigest_replicate]
      exact iterate_zero_eq_zero _
    obtain ⟨hx, hy⟩ := eq_zero_of_clean h hzero
    rcases hne with hne | hne
    · exact hne hx
    · exact hne hy

/-- The last bit of the payload and three bits of the CRC, thirteen bits in all. -/
theorem silent_thirteen (n : ℕ) :
    be16 0x84 0x08 = ccittRegister 0 (List.replicate n 0 ++ [0x80]) ∧
      Burst 13 (lineBits ((List.replicate n 0 ++ [0x80]) ++ [0x84, 0x08])) := by
  have hzeros : ccittRegister 0 (List.replicate n 0) = 0 := by
    induction n with
    | zero => rfl
    | succ n ih =>
      rw [List.replicate_succ]
      exact ih
  have hbits : lineBits (List.replicate n 0) = List.replicate (8 * n) false := by
    have hflat : ∀ k, lineBits (List.replicate k 0) = List.replicate (8 * k) false := by
      intro k
      induction k with
      | zero => rfl
      | succ k ih =>
        have hsum : 8 * (k + 1) = 8 + 8 * k := by omega
        rw [List.replicate_succ, lineBits, List.flatMap_cons, ← lineBits, ih, hsum,
          ← List.replicate_append_replicate]
        rfl
    exact hflat n
  constructor
  · have hlast : ccittRegister 0 (List.replicate n 0 ++ [0x80]) =
        ccittRegister (ccittRegister 0 (List.replicate n 0)) [0x80] := List.foldl_append
    rw [hlast, hzeros]
    decide
  · refine ⟨8 * n + 7, [true, false, false, true, false, false, false, false, true, false, false,
      false, true], 4, ?_, by decide⟩
    rw [List.append_assoc, lineBits_append, hbits, ← List.replicate_append_replicate,
      List.append_assoc, List.append_assoc]
    rfl

end ZephyrModem
