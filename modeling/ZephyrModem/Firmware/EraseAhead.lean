import ZephyrModem.Firmware.Slot
import ZephyrModem.Memory.Sectors

/-!
# Erasing ahead of the data

`modem_flash_write` of `src/modem_flash_helper.c` keeps its two offsets so that the
sectors are erased in order, each of them when its first byte comes.
-/

namespace ZephyrModem.Firmware
open Memory.Sectors

/-- The arguments of a call. -/
structure FlashCall where
  buf : Option (List UInt8)
  len : ℕ
  deriving Repr, DecidableEq

/-- The bytes that a call writes; a call with a NULL buffer fails. -/
def FlashCall.written (c : FlashCall) : ℕ :=
  match c.buf with
  | none => 0
  | some _ => c.len

def written (calls : List FlashCall) : ℕ := (calls.map FlashCall.written).sum

theorem written_cons (c : FlashCall) (calls : List FlashCall) :
    written (c :: calls) = c.written + written calls := List.sum_cons

theorem written_append (as bs : List FlashCall) : written (as ++ bs) = written as + written bs := by
  rw [written, List.map_append, List.sum_append]
  rfl

/-- The two offsets after `n` bytes. -/
structure ErasedAhead (n : ℕ) (ctx : FlashCtx) : Prop where
  current : ctx.currentOffset = n
  aligned : ctx.sectorSize ∣ ctx.erasedOffset
  covers : ctx.currentOffset ≤ ctx.erasedOffset
  close : ctx.erasedOffset < ctx.currentOffset + ctx.sectorSize

/-- What a call stands for on the flash: the sectors between the two values of
`erased_offset` are erased, and the bytes between those of `current_offset` written. -/
def flashActs (ctx ctx' : FlashCtx) : List Act :=
  (List.range' (ctx.erasedOffset / ctx.sectorSize)
      (ctx'.erasedOffset / ctx.sectorSize - ctx.erasedOffset / ctx.sectorSize)).map .erase ++
    (List.range' ctx.currentOffset (ctx'.currentOffset - ctx.currentOffset)).map .program

section Calls

variable (P : Platform)

def FlashCtx.after (ctx : FlashCtx) (c : FlashCall) : FlashCtx :=
  (modemFlashWrite P ctx c.buf c.len).2

def flashWrites (ctx : FlashCtx) (calls : List FlashCall) : FlashCtx :=
  calls.foldl (FlashCtx.after P) ctx

def flashLog (ctx : FlashCtx) : List FlashCall → List Act
  | [] => []
  | c :: calls => flashActs ctx (ctx.after P c) ++ flashLog (ctx.after P c) calls

/-! ### One call -/

/-- `erased_offset` is `current_offset` rounded up to a sector. -/
structure RoundedUp (n : ℕ) (ctx : FlashCtx) : Prop where
  current : ctx.currentOffset = n
  erased : ctx.erasedOffset = n ⌈/⌉ 4096 * 4096
  sector : ctx.sectorSize = 4096

theorem roundedUp_init : RoundedUp 0 modemFlashInit where
  current := rfl
  erased := by
    rw [zero_ceilDiv]
    rfl
  sector := rfl

variable {P}

theorem RoundedUp.erasedAhead {n : ℕ} {ctx : FlashCtx} (h : RoundedUp n ctx) :
    ErasedAhead n ctx := by
  refine ⟨h.current, ?_, ?_, ?_⟩
  · rw [h.sector, h.erased]
    exact Nat.dvd_mul_left ..
  · rw [h.current, h.erased]
    exact le_ceilDiv_mul (by decide)
  · rw [h.current, h.erased, h.sector]
    exact ceilDiv_mul_lt (by decide)

theorem nextErase_eq_ceilDiv {ctx : FlashCtx} (hsector : ctx.sectorSize = 4096) {t : ℕ}
    (ht : t + 4095 < P.sizeMod) : nextErase P ctx t = t ⌈/⌉ 4096 * 4096 := by
  rw [nextErase_eq P hsector ht]
  rfl

theorem RoundedUp.after {n : ℕ} {ctx : FlashCtx} (h : RoundedUp n ctx) (c : FlashCall)
    (hfits : n + c.written + 4095 < P.sizeMod) :
    RoundedUp (n + c.written) (ctx.after P c) := by
  obtain ⟨buf, len⟩ := c
  cases buf with
  | none => exact h
  | some buf =>
    have hend : P.toSize (ctx.currentOffset + len) = n + len := by
      rw [h.current]
      exact P.toSize_of_lt (Nat.lt_of_le_of_lt (Nat.le_add_right _ 4095) hfits)
    refine ⟨hend, ?_, h.sector⟩
    show (if P.toSize (ctx.currentOffset + len) > ctx.erasedOffset then
        nextErase P ctx (P.toSize (ctx.currentOffset + len)) else ctx.erasedOffset) =
      (n + len) ⌈/⌉ 4096 * 4096
    rw [hend]
    split
    · exact nextErase_eq_ceilDiv h.sector hfits
    · -- the data ends in the sector erased last
      rename_i hcovered
      rw [h.erased] at hcovered ⊢
      have hle : (n + len) ⌈/⌉ 4096 ≤ n ⌈/⌉ 4096 := by
        rw [ceilDiv_le_iff_le_mul (by decide), Nat.mul_comm]
        exact Nat.le_of_not_lt hcovered
      have hge : n ⌈/⌉ 4096 ≤ (n + len) ⌈/⌉ 4096 :=
        ceilDiv_le_ceilDiv (by decide) (Nat.le_add_right n len)
      rw [Nat.le_antisymm hge hle]

theorem flashActs_eq {n m : ℕ} {ctx ctx' : FlashCtx} (h : RoundedUp n ctx)
    (h' : RoundedUp m ctx') : flashActs ctx ctx' = advance 4096 n m := by
  have hdiv : ∀ k : ℕ, k * 4096 / 4096 = k := fun k => Nat.mul_div_cancel k (by decide)
  rw [flashActs, h.erased, h'.erased, h.sector, h.current, h'.current, hdiv, hdiv, advance]

/-! ### Runs -/

theorem RoundedUp.flashWrites {n : ℕ} {ctx : FlashCtx} (h : RoundedUp n ctx)
    (calls : List FlashCall) (hfits : n + written calls + 4095 < P.sizeMod) :
    RoundedUp (n + written calls) (flashWrites P ctx calls) := by
  induction calls generalizing n ctx with
  | nil => exact h
  | cons c calls ih =>
    rw [written_cons, ← Nat.add_assoc] at hfits ⊢
    exact ih (h.after c (by omega)) hfits

theorem RoundedUp.sequential {n : ℕ} {ctx : FlashCtx} (h : RoundedUp n ctx) {acts : List Act}
    (hacts : Sequential 4096 n acts) (calls : List FlashCall)
    (hfits : n + written calls + 4095 < P.sizeMod) :
    Sequential 4096 (n + written calls) (acts ++ flashLog P ctx calls) := by
  induction calls generalizing n ctx acts with
  | nil =>
    rw [flashLog, List.append_nil]
    exact hacts
  | cons c calls ih =>
    rw [written_cons, ← Nat.add_assoc] at hfits ⊢
    have hnext := h.after c (P := P) (by omega)
    rw [flashLog, ← List.append_assoc, flashActs_eq h hnext]
    exact ih hnext (hacts.advance (by decide) (Nat.le_add_right n c.written)) hfits

theorem fits_of_done {calls done : List FlashCall} (hdone : done <+: calls)
    (h : written calls ≤ P.sizeMod - 1 - 4095) : 0 + written done + 4095 < P.sizeMod := by
  have hmod := P.sizeMod_ge
  obtain ⟨more, rfl⟩ := hdone
  rw [written_append] at h
  omega

theorem roundedUp_done {calls done : List FlashCall} (hdone : done <+: calls)
    (h : written calls ≤ P.sizeMod - 1 - 4095) :
    RoundedUp (written done) (flashWrites P modemFlashInit done) := by
  have hrun := (roundedUp_init).flashWrites done (fits_of_done hdone h)
  rwa [Nat.zero_add] at hrun

theorem sequential_done {calls done : List FlashCall} (hdone : done <+: calls)
    (h : written calls ≤ P.sizeMod - 1 - 4095) :
    Sequential 4096 (written done) (flashLog P modemFlashInit done) := by
  have hrun := (roundedUp_init).sequential (Sequential.start 4096) done (fits_of_done hdone h)
  rwa [Nat.zero_add, List.nil_append] at hrun

/-- While the bytes written leave room for one more sector in a `size_t`, the flash is
erased ahead of the data, every sector once and none without need, after every call. -/
theorem erase_ahead (P : Platform) {calls : List FlashCall}
    (h : written calls ≤ P.sizeMod - 1 - 4095) :
    (∀ done, done <+: calls → ErasedAhead (written done) (flashWrites P modemFlashInit done)) ∧
    (∀ done more, done ++ more <+: calls →
      (flashWrites P modemFlashInit done).erasedOffset ≤
        (flashWrites P modemFlashInit (done ++ more)).erasedOffset) ∧
    ∀ done, done <+: calls →
      Disciplined modemFlashInit.sectorSize (flashLog P modemFlashInit done) := by
  refine ⟨?_, ?_, ?_⟩
  · intro done hdone
    exact (roundedUp_done hdone h).erasedAhead
  · intro done more hmore
    have hdone : done <+: calls := (List.prefix_append done more).trans hmore
    rw [(roundedUp_done hdone h).erased, (roundedUp_done hmore h).erased, written_append]
    exact Nat.mul_le_mul_right 4096 (ceilDiv_le_ceilDiv (by decide) (Nat.le_add_right _ _))
  · intro done hdone
    exact (sequential_done hdone h).disciplined (by decide)

def zerosCall (len : ℕ) : FlashCall := ⟨some (List.replicate len 0), len⟩

/-- Two writes fill the first sector, the next one ends in the third, and the last is empty. -/
def fourWrites : List FlashCall := [zerosCall 100, zerosCall 3996, zerosCall 5000, zerosCall 0]

theorem erase_ahead_four_writes :
    (∀ done, done <+: fourWrites →
      ErasedAhead (written done) (flashWrites platform32 modemFlashInit done)) ∧
    (∀ done more, done ++ more <+: fourWrites →
      (flashWrites platform32 modemFlashInit done).erasedOffset ≤
        (flashWrites platform32 modemFlashInit (done ++ more)).erasedOffset) ∧
    ∀ done, done <+: fourWrites →
      Disciplined modemFlashInit.sectorSize (flashLog platform32 modemFlashInit done) :=
  erase_ahead platform32 (by decide)

end Calls

end ZephyrModem.Firmware
