import ZephyrModem.Zmodem.Model

/-!
# The file information of a ZFILE subpacket

The name is looked for within the subpacket, but `strtoul` reads the size out of `sub_buf`
without a bound: it stops at the first byte that belongs to no number.
-/

namespace ZephyrModem.Zmodem
open ZephyrModem.Reactive ZephyrModem.Transfer

/-! ### What the subpacket tells -/

/-- `nlen`. -/
def nameLen (sub : List Byte) : ℕ :=
  if (cstr sub).length ≥ filenameSize then filenameSize - 1 else (cstr sub).length

/-- What the subpacket holds behind the byte after the name. -/
def sizeText (sub : List Byte) : List Byte := sub.drop (nameLen sub + 1)

/-- The size by the rule of `parse_block0`: the text after the first NUL, cut at the next one
or at the end of the subpacket. -/
def sizeAfterNul (P : Platform) (sub : List Byte) : ℕ :=
  P.toSize (strtoul P (cstr (sub.drop ((cstr sub).length + 1)) ++ [0]))

/-- One more than the last index of `sub_buf` at which `strtoul` looks, 0 without a call. -/
def sizeExamined (stale : List Byte → List Byte) (sub : List Byte) : ℕ :=
  if nameLen sub + 1 < sub.length then
    nameLen sub + 1 + strtoulExamined ((sub ++ stale sub).drop (nameLen sub + 1))
  else 0

/-- The number has a byte of the subpacket behind it, or there is no text for it; where the
name is longer than its field, the text does not begin after the NUL and has to agree. -/
def SizeInside (P : Platform) (sub : List Byte) : Prop :=
  sizeText sub = [] ∨ strtoulRest (sizeText sub) ≠ [] ∧
    ((cstr sub).length < filenameSize ∨ P.toSize (strtoul P (sizeText sub)) = sizeAfterNul P sub)

instance (P : Platform) (sub : List Byte) : Decidable (SizeInside P sub) :=
  inferInstanceAs (Decidable (_ ∨ _ ∧ (_ ∨ _)))

section Size

variable {P : Platform} {sub : List Byte}

theorem nameLen_le (sub : List Byte) : nameLen sub ≤ (cstr sub).length := by
  unfold nameLen filenameSize
  split <;> omega

theorem sizeText_eq_nil_iff : sizeText sub = [] ↔ ¬ nameLen sub + 1 < sub.length := by
  rw [sizeText, List.drop_eq_nil_iff]
  omega

theorem drop_stale (stale : List Byte) (h : nameLen sub + 1 < sub.length) :
    (sub ++ stale).drop (nameLen sub + 1) = sizeText sub ++ stale := by
  rw [List.drop_append_of_le_length (by omega)]
  rfl

theorem parseFileInfo_empty (stale : List Byte → List Byte) (h : sizeText sub = []) :
    parseFileInfo P stale sub = ⟨sub.take (nameLen sub), 0⟩ := by
  have hnone : ¬ nameLen sub + 1 < sub.length := sizeText_eq_nil_iff.mp h
  unfold nameLen at hnone
  simp only [parseFileInfo, if_neg hnone]
  rfl

theorem parseFileInfo_text (stale : List Byte → List Byte) (h : sizeText sub ≠ []) :
    parseFileInfo P stale sub =
      ⟨sub.take (nameLen sub), P.toSize (strtoul P (sizeText sub ++ stale sub))⟩ := by
  have hsome : nameLen sub + 1 < sub.length := by
    by_contra hnone
    exact h (sizeText_eq_nil_iff.mpr hnone)
  have hdrop := drop_stale (stale sub) hsome
  unfold nameLen at hsome hdrop
  simp only [parseFileInfo, if_pos hsome, hdrop]
  rfl

theorem sizeAfterNul_empty (h : sizeText sub = []) : sizeAfterNul P sub = 0 := by
  have hnone := sizeText_eq_nil_iff.mp h
  have hle := nameLen_le sub
  have hzero : strtoul P [0] = 0 := by
    rw [strtoul_eq]
    show signedValue P false 0 = 0
    unfold signedValue
    rw [if_neg (Nat.not_lt_zero _), if_neg Bool.false_ne_true]
  rw [sizeAfterNul, List.drop_of_length_le (by omega)]
  show P.toSize (strtoul P [0]) = 0
  rw [hzero]
  exact Nat.zero_mod _

theorem sizeText_value (hshort : (cstr sub).length < filenameSize)
    (h : strtoulRest (sizeText sub) ≠ []) :
    P.toSize (strtoul P (sizeText sub)) = sizeAfterNul P sub := by
  have hname : nameLen sub = (cstr sub).length := if_neg (Nat.not_le.mpr hshort)
  rw [sizeAfterNul, strtoul_cstr P h, sizeText, hname]

theorem sizeExamined_le_iff (h : sizeText sub ≠ []) :
    (∀ stale, sizeExamined stale sub ≤ sub.length) ↔ strtoulRest (sizeText sub) ≠ [] := by
  have hsome : nameLen sub + 1 < sub.length := by
    by_contra hnone
    exact h (sizeText_eq_nil_iff.mpr hnone)
  have hlen : (sizeText sub).length = sub.length - (nameLen sub + 1) := List.length_drop
  rw [← strtoulExamined_le_iff]
  constructor
  · intro hall more
    have hmore := hall fun _ => more
    rw [sizeExamined, if_pos hsome, drop_stale more hsome] at hmore
    omega
  · intro hall stale
    have hmore := hall (stale sub)
    rw [sizeExamined, if_pos hsome, drop_stale (stale sub) hsome]
    omega

end Size

/-! ### What the receiver reports -/

section Receive

variable {υ : Type} (P : Platform) (crc : CrcService) (cbs : RxCallbacks υ)

/-- The read completes a ZFILE subpacket. -/
def AcceptsFileInfo (s : RxState υ) (r : Read) (sub : List Byte) : Prop :=
  ∃ c p ender, s.site = .fileInfo c p ∧
    readSubpacketRx crc 1024 c p r = .done (some (sub, ender))

/-- What is reported for the subpacket depends on its bytes alone: whatever lies behind them
in memory, the reaction is the same, the size is that of the bounded rule, and nothing
behind them is looked at. -/
structure ReportsBounded (s : RxState υ) (r : Read) (sub : List Byte) : Prop where
  determined : ∀ stale stale', receiveStep P crc stale cbs s r = receiveStep P crc stale' cbs s r
  size : ∀ stale info res, .onFileStart info res ∈ (receiveStep P crc stale cbs s r).events →
    info.size = sizeAfterNul P sub
  inside : ∀ stale, sizeExamined stale sub ≤ sub.length

variable {P crc cbs}

theorem AcceptsFileInfo.step {s : RxState υ} {r : Read} {sub : List Byte}
    (h : AcceptsFileInfo crc s r sub) (stale : List Byte → List Byte) :
    receiveStep P crc stale cbs s r =
      ⟨(callFileStart cbs (parseFileInfo P stale sub) s.userData).1 ++
          sendHexHeader crc zrpos zeroFlags,
        .wait ⟨.fileHeader ⟨parseFileInfo P stale sub, 0⟩ .pad,
          (callFileStart cbs (parseFileInfo P stale sub) s.userData).2⟩⟩ := by
  obtain ⟨c, p, ender, hsite, hr⟩ := h
  simp only [receiveStep, hsite, hr, continueAt]
  exact onFileInfo_some P crc stale cbs s.userData (sub, ender)

theorem AcceptsFileInfo.reports {s : RxState υ} {r : Read} {sub : List Byte}
    (h : AcceptsFileInfo crc s r sub) {start : FileInfo → υ → ℤ × υ}
    (hstart : cbs.onFileStart = some start) (stale : List Byte → List Byte) :
    .onFileStart (parseFileInfo P stale sub) (start (parseFileInfo P stale sub) s.userData).1 ∈
      (receiveStep P crc stale cbs s r).events := by
  rw [h.step stale]
  simp [callFileStart, hstart]

theorem AcceptsFileInfo.info_eq {s : RxState υ} {r : Read} {sub : List Byte}
    (h : AcceptsFileInfo crc s r sub) {stale : List Byte → List Byte} {info : FileInfo} {res : ℤ}
    (hin : .onFileStart info res ∈ (receiveStep P crc stale cbs s r).events) :
    info = parseFileInfo P stale sub := by
  rw [h.step stale] at hin
  rcases List.mem_append.mp hin with hin | hin
  · rcases callFileStart_events cbs (parseFileInfo P stale sub) s.userData with hc | ⟨res', hc⟩
    · rw [hc] at hin
      cases hin
    · rw [hc] at hin
      cases List.mem_singleton.mp hin
      rfl
  · obtain ⟨b, hb⟩ := writes_writeBytes _ _ hin
    cases hb

theorem sizeInside_of_bounded {s : RxState υ} {r : Read} {sub : List Byte}
    (hsub : AcceptsFileInfo crc s r sub) {start : FileInfo → υ → ℤ × υ}
    (hstart : cbs.onFileStart = some start) (h : ReportsBounded P crc cbs s r sub) :
    SizeInside P sub := by
  by_cases htext : sizeText sub = []
  · exact .inl htext
  · right
    have hrest := (sizeExamined_le_iff htext).mp h.inside
    refine ⟨hrest, .inr ?_⟩
    have hsize := h.size (fun _ => []) _ _ (hsub.reports hstart _)
    rw [parseFileInfo_text _ htext, List.append_nil] at hsize
    exact hsize

theorem parseFileInfo_inside {sub : List Byte} (h : SizeInside P sub)
    (stale : List Byte → List Byte) :
    parseFileInfo P stale sub = ⟨sub.take (nameLen sub), sizeAfterNul P sub⟩ := by
  by_cases htext : sizeText sub = []
  · rw [parseFileInfo_empty stale htext, sizeAfterNul_empty htext]
  · rcases h with hempty | ⟨hrest, hvalue⟩
    · exact absurd hempty htext
    · have hsize : P.toSize (strtoul P (sizeText sub)) = sizeAfterNul P sub := by
        rcases hvalue with hshort | hvalue
        · exact sizeText_value hshort hrest
        · exact hvalue
      rw [parseFileInfo_text stale htext, strtoul_append P hrest, hsize]

/-- The information of a ZFILE subpacket is that of its bytes exactly when the number for the
size ends inside it. -/
theorem reportsBounded_iff {υ : Type} (P : Platform) (crc : CrcService) (cbs : RxCallbacks υ)
    {start : FileInfo → υ → ℤ × υ} (hstart : cbs.onFileStart = some start) {s : RxState υ} {r : Read}
    {sub : List Byte} (hsub : AcceptsFileInfo crc s r sub) :
    ReportsBounded P crc cbs s r sub ↔ SizeInside P sub := by
  constructor
  · intro h
    exact sizeInside_of_bounded hsub hstart h
  · intro h
    constructor
    · intro stale stale'
      rw [hsub.step stale, hsub.step stale', parseFileInfo_inside h, parseFileInfo_inside h]
    · intro stale info res hin
      rw [hsub.info_eq hin, parseFileInfo_inside h]
    · intro stale
      by_cases htext : sizeText sub = []
      · rw [sizeExamined, if_neg (sizeText_eq_nil_iff.mp htext)]
        exact Nat.zero_le _
      · rcases h with hempty | ⟨hrest, -⟩
        · exact absurd hempty htext
        · exact (sizeExamined_le_iff htext).mpr hrest stale

/-- The read of the last CRC byte of a ZFILE subpacket with the bytes `sub`. -/
def lastByte (sub : List Byte) (c : Byte) : RxState Unit :=
  ⟨.fileInfo false (.check sub zcrcw [c] false), ()⟩

def startOnly : RxCallbacks Unit := ⟨some fun _ u => (0, u), none, none⟩

set_option maxRecDepth 20000 in
/-- The file `f` of five bytes. -/
theorem reportsBounded_five :
    ReportsBounded platform32 referenceCrc startOnly (lastByte [0x66, 0, 0x35, 0] 200) (.ok 101)
      [0x66, 0, 0x35, 0] := by
  refine (reportsBounded_iff platform32 referenceCrc startOnly rfl ?_).mpr (by decide)
  exact ⟨false, _, zcrcw, rfl, by decide⟩

set_option maxRecDepth 20000 in
/-- The same without the NUL behind the number. -/
theorem not_reportsBounded_five :
    ¬ ReportsBounded platform32 referenceCrc startOnly (lastByte [0x66, 0, 0x35] 196) (.ok 144)
      [0x66, 0, 0x35] := by
  intro h
  have hinside := sizeInside_of_bounded ⟨false, _, zcrcw, rfl, by decide⟩ rfl h
  exact absurd hinside (by decide)

end Receive

end ZephyrModem.Zmodem
