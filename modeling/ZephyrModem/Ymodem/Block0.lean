import ZephyrModem.Ymodem.Model

/-!
# The Block 0 codec

What `ymodem_transmit` puts into Block 0 is what `parse_block0` reads back, for
the names and sizes that fit.
-/

namespace ZephyrModem.Ymodem
open ZephyrModem.Transfer
open ZephyrModem.Xmodem (Byte)

/-- A file that Block 0 can carry. -/
structure Fits (P : Platform) (info : FileInfo) : Prop where
  name_ne_nil : info.filename ≠ []
  name_length : info.filename.length ≤ 100
  name_noNul : (0 : Byte) ∉ info.filename
  size_lt : info.size < P.sizeMod
  size_le : info.size ≤ P.ulongMax

variable {P : Platform} {info : FileInfo}

theorem block0Payload_of_fits (h : Fits P info) :
    block0Payload info = info.filename ++ 0 :: decimal info.size ++
      0 :: List.replicate (126 - info.filename.length - (decimal info.size).length) 0 := by
  have hname := h.name_length
  have htext : (decimal info.size).length ≤ 20 :=
    decimal_length_le (Nat.lt_of_lt_of_le h.size_lt P.sizeMod_le)
  have hmin : min info.filename.length 100 = info.filename.length := Nat.min_eq_left hname
  have hcut : (decimal info.size).take (128 - (info.filename.length + 1) - 1) = decimal info.size :=
    List.take_of_length_le (by omega)
  have hpad : 128 - (info.filename.length + 1) - (decimal info.size).length =
      126 - info.filename.length - (decimal info.size).length + 1 := by omega
  simp only [block0Payload, hmin, hcut, List.take_length, hpad, List.replicate_succ]

theorem length_block0Payload (h : Fits P info) : (block0Payload info).length = 128 := by
  have hname := h.name_length
  have htext : (decimal info.size).length ≤ 20 :=
    decimal_length_le (Nat.lt_of_lt_of_le h.size_lt P.sizeMod_le)
  rw [block0Payload_of_fits h]
  simp only [List.length_append, List.length_cons, List.length_replicate]
  omega

/-- Block 0 round trip. -/
theorem parseBlock0_block0Payload (h : Fits P info) :
    parseBlock0 P (block0Payload info) 128 = info := by
  have hname := h.name_length
  have htext : (decimal info.size).length ≤ 20 :=
    decimal_length_le (Nat.lt_of_lt_of_le h.size_lt P.sizeMod_le)
  obtain ⟨b, bs, hb⟩ := List.exists_cons_of_ne_nil h.name_ne_nil
  obtain ⟨d, ds, hd⟩ := List.exists_cons_of_ne_nil (decimal_ne_nil info.size)
  have hb0 : b ≠ 0 := by
    rintro rfl
    exact h.name_noNul (hb ▸ List.mem_cons_self ..)
  have hd0 : d ≠ 0 := by
    rintro rfl
    exact decimal_no_nul info.size (hd ▸ List.mem_cons_self ..)
  have htake : (block0Payload info).take 128 = block0Payload info :=
    List.take_of_length_le (Nat.le_of_eq (length_block0Payload h))
  have hcstr : cstr (block0Payload info) = info.filename := by
    rw [block0Payload_of_fits h, List.append_assoc, List.cons_append]
    exact cstr_append_nul h.name_noNul _
  have hhead : (block0Payload info).head? ≠ some 0 := by
    rw [block0Payload_of_fits h, hb]
    simpa using hb0
  have hdrop : (block0Payload info).drop (info.filename.length + 1) = decimal info.size ++
      0 :: List.replicate (126 - info.filename.length - (decimal info.size).length) 0 := by
    rw [block0Payload_of_fits h, List.append_assoc, List.drop_append]
    simp
  have hnum : cstr ((block0Payload info).drop (info.filename.length + 1)) = decimal info.size := by
    rw [hdrop]
    exact cstr_append_nul (decimal_no_nul _) _
  have hfirst : (block0Payload info).getD (info.filename.length + 1) 0 ≠ 0 := by
    have hget : (block0Payload info)[info.filename.length + 1]? = some d := by
      rw [← List.head?_drop, hdrop, hd]
      rfl
    rw [List.getD_eq_getElem?_getD, hget]
    exact hd0
  have hnamelen : (if info.filename.length ≥ filenameSize then filenameSize - 1
      else info.filename.length) = info.filename.length := if_neg (by unfold filenameSize; omega)
  have hnumlen : ¬ (decimal info.size).length ≥ 32 := by omega
  have hpos : info.filename.length + 1 < 128 ∧
      (block0Payload info).getD (info.filename.length + 1) 0 ≠ 0 := ⟨by omega, hfirst⟩
  have hprefix : (block0Payload info).take info.filename.length = info.filename := by
    rw [block0Payload_of_fits h, List.append_assoc]
    exact List.take_left
  unfold parseBlock0
  simp only [htake, hcstr, hnamelen, hnum, if_neg hhead, if_neg hnumlen, if_pos hpos, hprefix,
    strtoul_decimal P h.size_le [], P.toSize_of_lt h.size_lt]

def oneByteFile : FileInfo := ⟨[0x66], 1⟩

theorem oneByteFile_fits : Fits platform32 oneByteFile where
  name_ne_nil := by decide
  name_length := by decide
  name_noNul := by decide
  size_lt := by decide
  size_le := by decide

end ZephyrModem.Ymodem
