import ZephyrModem.CString

/-!
# Log rotation

`src/log_rotation.c`: every write is assigned to the file selected last, and another file
is selected when the chunk would grow over its limit. The default base name is
"system_log".
-/

namespace ZephyrModem.Storage

/-- `log_rotation_config_t`; the file name without its NUL. -/
structure LogConfig where
  maxChunkSize : ℕ
  maxTotalChunks : ℕ
  baseFilename : List UInt8
  deriving Repr, DecidableEq

structure LogCtx where
  currentChunkIndex : ℕ
  currentChunkBytes : ℕ
  config : LogConfig
  deriving Repr, DecidableEq

def defaultBaseFilename : List UInt8 :=
  [0x73, 0x79, 0x73, 0x74, 0x65, 0x6D, 0x5F, 0x6C, 0x6F, 0x67]

/-- `log_rotation_init`; the configuration may be NULL. -/
def logRotationInit (config : Option LogConfig) : ℤ × Option LogCtx :=
  match config with
  | none => (-1, none)
  | some config =>
    (0, some
      { currentChunkIndex := 0
        currentChunkBytes := 0
        config :=
          { maxChunkSize := if config.maxChunkSize = 0 then 65536 else config.maxChunkSize
            maxTotalChunks := if config.maxTotalChunks = 0 then 5 else config.maxTotalChunks
            baseFilename :=
              if config.baseFilename = [] then defaultBaseFilename else config.baseFilename } })

/-- "%s_%zu.log". -/
def LogCtx.filename (ctx : LogCtx) : List UInt8 :=
  ctx.config.baseFilename ++ [0x5F] ++ decimal ctx.currentChunkIndex ++ [0x2E, 0x6C, 0x6F, 0x67]

/-- The arguments of a call; `data` and `activeFilename` are false for a NULL pointer. -/
structure LogWrite where
  data : Bool
  len : ℕ
  activeFilename : Bool
  filenameCapacity : ℕ
  deriving Repr, DecidableEq

section Writes

variable (P : Platform)

/-- Line 39: the chunk would grow over its limit. -/
def LogCtx.Rotates (ctx : LogCtx) (len : ℕ) : Prop :=
  P.toSize (ctx.currentChunkBytes + len) > ctx.config.maxChunkSize

instance (ctx : LogCtx) (len : ℕ) : Decidable (ctx.Rotates P len) :=
  inferInstanceAs (Decidable (_ > _))

/-- `log_rotation_write`: the result and the file name stored. -/
def logRotationWrite (ctx : LogCtx) (w : LogWrite) : ℤ × Option (List UInt8) × LogCtx :=
  if w.data = false then (-1, none, ctx)
  else
    let ctx :=
      if ctx.Rotates P w.len then
        { ctx with
          currentChunkIndex := P.toSize (ctx.currentChunkIndex + 1) % ctx.config.maxTotalChunks
          currentChunkBytes := 0 }
      else ctx
    let ctx := { ctx with currentChunkBytes := P.toSize (ctx.currentChunkBytes + w.len) }
    if w.activeFilename && w.filenameCapacity > 0 then
      (0, some (ctx.filename.take (w.filenameCapacity - 1)), ctx)
    else (0, none, ctx)

/-- The bytes assigned to the reported file since it was selected, `n` of them before the
call. -/
def assigned (ctx : LogCtx) (n : ℕ) (w : LogWrite) : ℕ :=
  if w.data = false then n else if ctx.Rotates P w.len then w.len else n + w.len

/-- The limits on a context whose file has been assigned `n` bytes. -/
structure WithinLimits (ctx : LogCtx) (n : ℕ) : Prop where
  index_lt : ctx.currentChunkIndex < ctx.config.maxTotalChunks
  bytes_le : ctx.currentChunkBytes ≤ ctx.config.maxChunkSize
  bytes_eq : ctx.currentChunkBytes = n

/-- After every call that returns 0 the context is within its limits. -/
def StaysWithin : LogCtx → ℕ → List LogWrite → Prop
  | _, _, [] => True
  | ctx, n, w :: ws =>
    ((logRotationWrite P ctx w).1 = 0 →
      WithinLimits (logRotationWrite P ctx w).2.2 (assigned P ctx n w)) ∧
      StaysWithin (logRotationWrite P ctx w).2.2 (assigned P ctx n w) ws

/-- No write is longer than a chunk, and none makes the sum of the test wrap. -/
def WritesFit : LogCtx → List LogWrite → Prop
  | _, [] => True
  | ctx, w :: ws =>
    (w.data = true → w.len ≤ ctx.config.maxChunkSize ∧
      ctx.currentChunkBytes + w.len < P.sizeMod) ∧
      WritesFit (logRotationWrite P ctx w).2.2 ws

variable {P}

theorem logRotationWrite_null (ctx : LogCtx) {w : LogWrite} (h : w.data = false) :
    logRotationWrite P ctx w = (-1, none, ctx) := by
  rw [logRotationWrite, if_pos h]

theorem logRotationWrite_spec (ctx : LogCtx) {w : LogWrite} (h : w.data = true) :
    (logRotationWrite P ctx w).1 = 0 ∧ (logRotationWrite P ctx w).2.2 =
      if ctx.Rotates P w.len then
        { ctx with
          currentChunkIndex := P.toSize (ctx.currentChunkIndex + 1) % ctx.config.maxTotalChunks
          currentChunkBytes := P.toSize w.len }
      else { ctx with currentChunkBytes := P.toSize (ctx.currentChunkBytes + w.len) } := by
  have hdata : ¬ w.data = false := by
    rw [h]
    decide
  rw [logRotationWrite, if_neg hdata]
  by_cases hrot : ctx.Rotates P w.len
  · simp only [if_pos hrot, Nat.zero_add]
    split <;> exact ⟨rfl, rfl⟩
  · simp only [if_neg hrot]
    split <;> exact ⟨rfl, rfl⟩

theorem toSize_add_lt {a b : ℕ} (ha : a < P.sizeMod) (hb : b < P.sizeMod)
    (h : P.sizeMod ≤ a + b) : P.toSize (a + b) < b := by
  have hwrap : P.toSize (a + b) = a + b - P.sizeMod := by
    rw [Platform.toSize, Nat.mod_eq_sub_mod h, Nat.mod_eq_of_lt (by omega)]
  omega

theorem withinLimits_rotate_iff {ctx : LogCtx} {n len : ℕ} (hwithin : WithinLimits ctx n)
    (hlt : ctx.currentChunkBytes < P.sizeMod) (hrot : ctx.Rotates P len) :
    WithinLimits
        { ctx with
          currentChunkIndex := P.toSize (ctx.currentChunkIndex + 1) % ctx.config.maxTotalChunks
          currentChunkBytes := P.toSize len } len ↔
      len ≤ ctx.config.maxChunkSize ∧ ctx.currentChunkBytes + len < P.sizeMod := by
  have hgrows : P.toSize (ctx.currentChunkBytes + len) > ctx.config.maxChunkSize := hrot
  constructor
  · intro h
    have hle : P.toSize len ≤ ctx.config.maxChunkSize := h.bytes_le
    have heq : P.toSize len = len := h.bytes_eq
    have hlen : len < P.sizeMod := by
      rw [← heq]
      exact P.toSize_lt len
    rw [heq] at hle
    refine ⟨hle, Nat.lt_of_not_le ?_⟩
    intro hwraps
    have := toSize_add_lt hlt hlen hwraps
    omega
  · intro h
    have heq : P.toSize len = len := P.toSize_of_lt (by omega)
    have hle : P.toSize len ≤ ctx.config.maxChunkSize := by omega
    exact ⟨Nat.mod_lt _ (Nat.zero_lt_of_lt hwithin.index_lt), hle, heq⟩

theorem withinLimits_extend_iff {ctx : LogCtx} {n len : ℕ} (hwithin : WithinLimits ctx n)
    (hrot : ¬ ctx.Rotates P len) :
    WithinLimits { ctx with currentChunkBytes := P.toSize (ctx.currentChunkBytes + len) }
        (n + len) ↔
      len ≤ ctx.config.maxChunkSize ∧ ctx.currentChunkBytes + len < P.sizeMod := by
  have hfits : P.toSize (ctx.currentChunkBytes + len) ≤ ctx.config.maxChunkSize :=
    Nat.le_of_not_lt hrot
  have hn := hwithin.bytes_eq
  constructor
  · intro h
    have heq : P.toSize (ctx.currentChunkBytes + len) = n + len := h.bytes_eq
    have hlt := P.toSize_lt (ctx.currentChunkBytes + len)
    exact ⟨by omega, by omega⟩
  · intro h
    have heq : P.toSize (ctx.currentChunkBytes + len) = n + len := by
      rw [P.toSize_of_lt h.2, hn]
    exact ⟨hwithin.index_lt, hfits, heq⟩

theorem withinLimits_write_iff {ctx : LogCtx} {n : ℕ} {w : LogWrite} (hw : w.data = true)
    (hwithin : WithinLimits ctx n) (hlt : ctx.currentChunkBytes < P.sizeMod) :
    WithinLimits (logRotationWrite P ctx w).2.2 (assigned P ctx n w) ↔
      w.len ≤ ctx.config.maxChunkSize ∧ ctx.currentChunkBytes + w.len < P.sizeMod := by
  have hdata : ¬ w.data = false := by
    rw [hw]
    decide
  rw [(logRotationWrite_spec ctx hw).2, assigned, if_neg hdata]
  by_cases hrot : ctx.Rotates P w.len
  · rw [if_pos hrot, if_pos hrot]
    exact withinLimits_rotate_iff hwithin hlt hrot
  · rw [if_neg hrot, if_neg hrot]
    exact withinLimits_extend_iff hwithin hrot

theorem bytes_lt_write {ctx : LogCtx} {w : LogWrite} (hw : w.data = true) :
    (logRotationWrite P ctx w).2.2.currentChunkBytes < P.sizeMod := by
  rw [(logRotationWrite_spec ctx hw).2]
  split
  · exact P.toSize_lt _
  · exact P.toSize_lt _

theorem staysWithin_iff {ctx : LogCtx} {n : ℕ} (hwithin : WithinLimits ctx n)
    (hlt : ctx.currentChunkBytes < P.sizeMod) (ws : List LogWrite) :
    StaysWithin P ctx n ws ↔ WritesFit P ctx ws := by
  induction ws generalizing ctx n with
  | nil => exact Iff.rfl
  | cons w ws ih =>
    rw [StaysWithin, WritesFit]
    cases hw : w.data with
    | false =>
      have hn : assigned P ctx n w = n := by rw [assigned, if_pos hw]
      rw [logRotationWrite_null ctx hw, hn, ih hwithin hlt]
      apply and_congr_left'
      constructor
      · intro _ htrue
        cases htrue
      · intro _ hzero
        cases hzero
    | true =>
      have hspec := logRotationWrite_spec (P := P) ctx hw
      have hstep := withinLimits_write_iff hw hwithin hlt
      constructor
      · intro h
        have hnext := h.1 hspec.1
        exact ⟨fun _ => hstep.mp hnext, (ih hnext (bytes_lt_write hw)).mp h.2⟩
      · intro h
        have hnext := hstep.mpr (h.1 rfl)
        exact ⟨fun _ => hnext, (ih hnext (bytes_lt_write hw)).mpr h.2⟩

theorem withinLimits_init {config : LogConfig} {ctx : LogCtx}
    (h : logRotationInit (some config) = (0, some ctx)) : WithinLimits ctx 0 := by
  have hctx := Option.some.inj (Prod.mk.inj h).2
  subst hctx
  refine ⟨?_, Nat.zero_le _, rfl⟩
  show 0 < if config.maxTotalChunks = 0 then 5 else config.maxTotalChunks
  split
  · decide
  · omega

/-- A context from `log_rotation_init` stays within its limits exactly when the writes fit
into a chunk and no sum wraps. -/
theorem log_rotation_within_iff {config : LogConfig} {ctx : LogCtx}
    (h : logRotationInit (some config) = (0, some ctx)) (ws : List LogWrite) :
    StaysWithin P ctx 0 ws ↔ WritesFit P ctx ws := by
  have hwithin := withinLimits_init h
  apply staysWithin_iff hwithin
  rw [hwithin.bytes_eq]
  exact P.sizeMod_pos

/-- The configuration of the repository's test, chunks of ten bytes. -/
def appLog : LogConfig := ⟨10, 3, [0x61, 0x70, 0x70]⟩

theorem log_rotation_within_two_writes :
    StaysWithin platform32 ⟨0, 0, appLog⟩ 0 [⟨true, 6, true, 64⟩, ⟨true, 10, true, 64⟩] := by
  have hinit : logRotationInit (some appLog) = (0, some ⟨0, 0, appLog⟩) := rfl
  apply (log_rotation_within_iff hinit _).mpr
  exact ⟨fun _ => by decide, fun _ => by decide, trivial⟩

theorem not_log_rotation_within_long_write :
    ¬ StaysWithin platform32 ⟨0, 0, appLog⟩ 0 [⟨true, 11, true, 64⟩] := by
  intro h
  have hle := (h.1 rfl).bytes_le
  revert hle
  decide

end Writes

end ZephyrModem.Storage
