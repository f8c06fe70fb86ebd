import ZephyrModem.Ymodem.Bounds

/-!
# Block 0 in both block sizes

A Block 0 may come as a block of 128 or of 1024 bytes, but `parse_block0` is always told
that it has 128: what a longer block holds behind them is not looked at.
-/

namespace ZephyrModem.Ymodem
open ZephyrModem.Reactive ZephyrModem.Transfer
open ZephyrModem.Xmodem (Byte Read ack charC)

/-- A Block 0 payload that holds the name and the size: name, NUL, decimal size, NUL, and
anything after that. -/
structure Holds (name : List Byte) (size : ℕ) (payload : List Byte) : Prop where
  layout : ∃ pad, payload = name ++ 0 :: (decimal size ++ 0 :: pad)
  block : payload.length = 128 ∨ payload.length = 1024

/-- Name and size lie within the first 128 bytes, as far as it takes to tell them. -/
def InFirst128 (P : Platform) (name : List Byte) (size : ℕ) : Prop :=
  size < P.sizeMod ∧ size ≤ P.ulongMax ∧ name.length ≤ 128 ∧
    (size = 0 ∨ name.length + 1 + (decimal size).length ≤ 128)

instance (P : Platform) (name : List Byte) (size : ℕ) : Decidable (InFirst128 P name size) :=
  inferInstanceAs (Decidable (_ ∧ _ ∧ _ ∧ _))

variable {P : Platform} {name : List Byte} {size : ℕ} {payload : List Byte}

/-- The copy of the number, cut to the buffer. -/
def numText (num : List Byte) : List Byte := if num.length ≥ 32 then num.take 31 else num

theorem parseBlock0_short (h : Holds name size payload) (hne : name ≠ []) (hnul : (0 : Byte) ∉ name)
    (hlen : name.length + 1 < 128) :
    parseBlock0 P payload 128 = ⟨name, P.toSize (strtoul P
      (numText ((decimal size).take (127 - name.length)) ++ [0]))⟩ := by
  obtain ⟨pad, hpad⟩ := h.layout
  have htake : payload.take 128 = name ++ 0 :: (decimal size ++ 0 :: pad).take (127 - name.length) := by
    have hrest : 128 - name.length = (127 - name.length) + 1 := by omega
    rw [hpad, List.take_append, List.take_of_length_le (by omega), hrest, List.take_succ_cons]
  have hcstr : cstr (payload.take 128) = name := by
    rw [htake]
    exact cstr_append_nul hnul _
  have hnum : cstr ((decimal size ++ 0 :: pad).take (127 - name.length)) =
      (decimal size).take (127 - name.length) := by
    have hnone : (0 : Byte) ∉ (decimal size).take (127 - name.length) := fun hin =>
      decimal_no_nul size (List.mem_of_mem_take hin)
    rw [List.take_append]
    cases hmore : 127 - name.length - (decimal size).length with
    | zero =>
      rw [List.take_zero, List.append_nil]
      exact cstr_of_noNul hnone
    | succ k =>
      rw [List.take_succ_cons]
      exact cstr_append_nul hnone _
  obtain ⟨b, bs, hb⟩ := List.exists_cons_of_ne_nil hne
  obtain ⟨d, ds, hd⟩ := List.exists_cons_of_ne_nil (decimal_ne_nil size)
  have hb0 : b ≠ 0 := by
    rintro rfl
    exact hnul (hb ▸ List.mem_cons_self ..)
  have hd0 : d ≠ 0 := by
    rintro rfl
    exact decimal_no_nul size (hd ▸ List.mem_cons_self ..)
  have hhead : (payload.take 128).head? ≠ some 0 := by
    rw [htake, hb]
    simpa using hb0
  have hdrop : (payload.take 128).drop (name.length + 1) =
      (decimal size ++ 0 :: pad).take (127 - name.length) := by
    rw [htake, List.drop_append, List.drop_of_length_le (by omega)]
    simp
  have hfirst : (payload.take 128).getD (name.length + 1) 0 ≠ 0 := by
    have hget : (payload.take 128)[name.length + 1]? = some d := by
      have hpos : 127 - name.length = (126 - name.length) + 1 := by omega
      rw [← List.head?_drop, hdrop, hd, hpos]
      rfl
    rw [List.getD_eq_getElem?_getD, hget]
    exact hd0
  have hname : (if name.length ≥ filenameSize then filenameSize - 1 else name.length) =
      name.length := if_neg (by unfold filenameSize; omega)
  have hpos : name.length + 1 < 128 ∧ (payload.take 128).getD (name.length + 1) 0 ≠ 0 :=
    ⟨hlen, hfirst⟩
  have hprefix : (payload.take 128).take name.length = name := by
    rw [htake]
    exact List.take_left
  unfold parseBlock0
  simp only [if_neg hhead, hcstr, hname, if_pos hpos, hprefix, hdrop, hnum]
  rfl

theorem parseBlock0_long (h : Holds name size payload) (hnul : (0 : Byte) ∉ name)
    (hlen : 127 ≤ name.length) :
    parseBlock0 P payload 128 = ⟨name.take 128, 0⟩ := by
  obtain ⟨pad, hpad⟩ := h.layout
  have hcstr : cstr (payload.take 128) = name.take 128 := by
    rw [hpad, List.take_append]
    have hnone : (0 : Byte) ∉ name.take 128 := fun hin => hnul (List.mem_of_mem_take hin)
    cases hmore : 128 - name.length with
    | zero =>
      rw [List.take_zero, List.append_nil]
      exact cstr_of_noNul hnone
    | succ k =>
      rw [List.take_succ_cons]
      exact cstr_append_nul hnone _
  have hlength : (name.take 128).length = min 128 name.length := List.length_take
  have hhead : (payload.take 128).head? ≠ some 0 := by
    intro hzero
    have hfirst : (cstr (payload.take 128)).head? = none := by
      obtain ⟨rest, hrest⟩ : ∃ rest, payload.take 128 = 0 :: rest := by
        cases hp : payload.take 128 with
        | nil =>
          rw [hp] at hzero
          cases hzero
        | cons b bs =>
          rw [hp] at hzero
          cases hzero
          exact ⟨bs, rfl⟩
      rw [hrest]
      rfl
    rw [hcstr, List.head?_eq_none_iff] at hfirst
    rw [hfirst, List.length_nil] at hlength
    omega
  have hname : (if (name.take 128).length ≥ filenameSize then filenameSize - 1
      else (name.take 128).length) = (name.take 128).length :=
    if_neg (by unfold filenameSize; omega)
  have hpos : ¬ ((name.take 128).length + 1 < 128 ∧
      (payload.take 128).getD ((name.take 128).length + 1) 0 ≠ 0) := by
    rintro ⟨hlt, -⟩
    omega
  have hprefix : (payload.take 128).take (name.take 128).length = name.take 128 := by
    rw [hlength, List.take_take, Nat.min_eq_left (Nat.min_le_left _ _), hpad,
      List.take_append_of_le_length (Nat.min_le_right _ _), List.take_eq_take_min]
    rw [List.take_eq_take_min]
    simp
  unfold parseBlock0
  simp only [if_neg hhead, hcstr, hname, if_neg hpos, hprefix]

theorem toSize_min_eq {n : ℕ} (h : n < P.sizeMod) (hle : n ≤ P.ulongMax) :
    P.toSize (min n P.ulongMax) = n := by
  rw [Nat.min_eq_left hle, P.toSize_of_lt h]

theorem numText_of_size (hsize : size < P.sizeMod) (k : ℕ) :
    numText ((decimal size).take k) = (decimal size).take k := by
  have htext : (decimal size).length ≤ 20 :=
    decimal_length_le (Nat.lt_of_lt_of_le hsize P.sizeMod_le)
  refine if_neg ?_
  rw [List.length_take]
  omega

theorem size_parsed (hsize : size < P.sizeMod) {k : ℕ} (hk : 0 < k) :
    strtoul P (numText ((decimal size).take k) ++ [0]) =
      min (digitsValue ((decimal size).take k)) P.ulongMax := by
  rw [numText_of_size hsize]
  apply strtoul_digits
  · intro hnil
    have hlen := congrArg List.length hnil
    have hpos : 0 < (decimal size).length := List.length_pos_of_ne_nil (decimal_ne_nil size)
    rw [List.length_take, List.length_nil] at hlen
    omega
  · intro b hb
    exact decimal_all_digits size b (List.mem_of_mem_take hb)
  · decide

/-- `parse_block0` reads name and size back exactly when they lie in the first 128 bytes. -/
theorem parseBlock0_eq_iff (h : Holds name size payload) (hne : name ≠ [])
    (hnul : (0 : Byte) ∉ name) :
    parseBlock0 P payload 128 = ⟨name, size⟩ ↔ InFirst128 P name size := by
  by_cases hlen : name.length + 1 < 128
  · rw [parseBlock0_short h hne hnul hlen, FileInfo.mk.injEq]
    constructor
    · rintro ⟨-, hparsed⟩
      have hsize : size < P.sizeMod := hparsed ▸ P.toSize_lt _
      rw [size_parsed hsize (by omega)] at hparsed
      have hle : P.toSize (min (digitsValue ((decimal size).take (127 - name.length))) P.ulongMax) ≤
          min (digitsValue ((decimal size).take (127 - name.length))) P.ulongMax := Nat.mod_le _ _
      refine ⟨hsize, by omega, by omega, ?_⟩
      by_contra hcut
      have hless := digitsValue_take_lt (n := size) (k := 127 - name.length) (by omega) (by omega)
      omega
    · rintro ⟨hsize, hle, -, hfit⟩
      refine ⟨rfl, ?_⟩
      have hwhole : (decimal size).take (127 - name.length) = decimal size := by
        apply List.take_of_length_le
        rcases hfit with rfl | hfit
        · show 1 ≤ _
          omega
        · omega
      rw [size_parsed hsize (by omega), hwhole, digitsValue_decimal, toSize_min_eq hsize hle]
  · rw [parseBlock0_long h hnul (by omega), FileInfo.mk.injEq]
    have hmod := P.sizeMod_pos
    have hpos : 0 < (decimal size).length := List.length_pos_of_ne_nil (decimal_ne_nil size)
    constructor
    · rintro ⟨hname, rfl⟩
      have hlength := congrArg List.length hname
      rw [List.length_take] at hlength
      exact ⟨hmod, Nat.zero_le _, by omega, .inl rfl⟩
    · rintro ⟨-, -, hname, rfl | hfit⟩
      · exact ⟨List.take_of_length_le hname, rfl⟩
      · omega

/-! ### What the receiver reports -/

section Receive

variable {υ : Type} (crc : CrcService)

/-- The Block 0, read in step 1, is acknowledged and `on_file_start` gets name and size. -/
def Opens (P : Platform) (cbs : RxCallbacks υ) (start : FileInfo → υ → ℤ × υ) (v : RxLocals υ)
    (name : List Byte) (size : ℕ) (payload : List Byte) : Prop :=
  (feed (receiveStep P crc cbs) (.wait ⟨.header, v⟩) (packet crc 0 payload)).events =
    sendByte ack ++ sendByte charC ++ [.onFileStart ⟨name, size⟩ (start ⟨name, size⟩ v.userData).1]

theorem parseBlock0_name_ne_nil (h : Holds name size payload) (hne : name ≠ [])
    (hnul : (0 : Byte) ∉ name) : (parseBlock0 P payload 128).filename ≠ [] := by
  by_cases hlen : name.length + 1 < 128
  · rw [parseBlock0_short h hne hnul hlen]
    exact hne
  · rw [parseBlock0_long h hnul (by omega)]
    intro htake
    rcases List.take_eq_nil_iff.mp htake with hzero | hnil
    · omega
    · exact hne hnil

theorem opens_iff_parseBlock0 (cbs : RxCallbacks υ) {start : FileInfo → υ → ℤ × υ}
    (hstart : cbs.onFileStart = some start) {v : RxLocals υ} (hv : v.phase = .block0)
    (hne : name ≠ []) (hnul : (0 : Byte) ∉ name) (h : Holds name size payload) :
    Opens crc P cbs start v name size payload ↔ parseBlock0 P payload 128 = ⟨name, size⟩ := by
  have hevents : (feed (receiveStep P crc cbs) (.wait ⟨.header, v⟩) (packet crc 0 payload)).events =
      sendByte ack ++ sendByte charC ++ [.onFileStart (parseBlock0 P payload 128)
        (start (parseBlock0 P payload 128) v.userData).1] := by
    rw [feed_packet P crc cbs v 0 payload h.block]
    simp only [packetDone, hv, ne_eq, not_true_eq_false, if_false]
    rw [acceptBlock0_file P cbs v payload (parseBlock0_name_ne_nil h hne hnul)]
    simp only [callFileStart, hstart]
  unfold Opens
  rw [hevents]
  constructor
  · intro hsame
    have hlast := List.append_cancel_left hsame
    simp only [List.cons.injEq, Event.onFileStart.injEq] at hlast
    exact hlast.1.1
  · intro hparse
    rw [hparse]

/-- A Block 0 of either size opens its file exactly when name and size lie within the first
128 bytes. -/
theorem opens_iff {υ : Type} (P : Platform) (crc : CrcService) (cbs : RxCallbacks υ)
    {start : FileInfo → υ → ℤ × υ} (hstart : cbs.onFileStart = some start) {v : RxLocals υ}
    (hv : v.phase = .block0) {name : List Byte} {size : ℕ} {payload : List Byte}
    (hne : name ≠ []) (hnul : (0 : Byte) ∉ name) (h : Holds name size payload) :
    Opens crc P cbs start v name size payload ↔ InFirst128 P name size :=
  (opens_iff_parseBlock0 crc cbs hstart hv hne hnul h).trans (parseBlock0_eq_iff h hne hnul)

theorem holds_padded (n : ℕ) (h : name.length + 1 + ((decimal size).length + (n + 1)) = 128 ∨
    name.length + 1 + ((decimal size).length + (n + 1)) = 1024) :
    Holds name size (name ++ 0 :: (decimal size ++ 0 :: List.replicate n 0)) := by
  refine ⟨⟨List.replicate n 0, rfl⟩, ?_⟩
  simp only [List.length_append, List.length_cons, List.length_replicate]
  omega

def fittingName : List Byte := List.replicate 117 0x61

/-- In a block of 1024 bytes the last digit of the largest size is byte 128. -/
theorem opens_fitting_name :
    Opens referenceCrc platform32 acceptingFiles (fun _ u => (0, u)) ⟨0, .block0, ()⟩ fittingName
      4294967295 (fittingName ++ 0 :: (decimal 4294967295 ++ 0 :: List.replicate 895 0)) := by
  have hdigits : (decimal 4294967295).length = 10 := rfl
  have hname : fittingName.length = 117 := List.length_replicate
  have hholds : Holds fittingName 4294967295
      (fittingName ++ 0 :: (decimal 4294967295 ++ 0 :: List.replicate 895 0)) :=
    holds_padded 895 (by omega)
  have hne : fittingName ≠ [] := List.cons_ne_nil _ _
  have hnul : (0 : Byte) ∉ fittingName := by
    intro hin
    exact absurd (List.eq_of_mem_replicate hin) (by decide)
  exact (opens_iff platform32 referenceCrc acceptingFiles rfl rfl hne hnul hholds).mpr
    ⟨by decide, by decide, by omega, .inr (by omega)⟩

def longName : List Byte := List.replicate 200 0x61

/-- A name of 200 bytes in a block of 1024 bytes. -/
theorem not_opens_long_name :
    ¬ Opens referenceCrc platform32 acceptingFiles (fun _ u => (0, u)) ⟨0, .block0, ()⟩ longName 0
      (longName ++ 0 :: (decimal 0 ++ 0 :: List.replicate 821 0)) := by
  have hlength : longName.length = 200 := List.length_replicate
  have hdigits : (decimal 0).length = 1 := rfl
  have hholds : Holds longName 0 (longName ++ 0 :: (decimal 0 ++ 0 :: List.replicate 821 0)) :=
    holds_padded 821 (by omega)
  have hne : longName ≠ [] := by
    intro h
    rw [h, List.length_nil] at hlength
    omega
  have hnul : (0 : Byte) ∉ longName := by
    intro hin
    exact absurd (List.eq_of_mem_replicate hin) (by decide)
  intro h
  have hparse := (opens_iff_parseBlock0 referenceCrc acceptingFiles rfl rfl hne hnul hholds).mp h
  obtain ⟨-, -, hlen, -⟩ := (parseBlock0_eq_iff hholds hne hnul).mp hparse
  omega

end Receive

end ZephyrModem.Ymodem
