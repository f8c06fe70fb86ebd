import ZephyrModem.Crc.Ieee
import ZephyrModem.Platform

/-!
# Firmware digests

`src/signature_verify.c`: a digest that is updated chunk by chunk, and the final call
that is to authenticate it.
-/

namespace ZephyrModem.Firmware

/-- `modem_sig_verify_ctx_t`. -/
structure SigVerifyCtx where
  currentCrc32 : UInt32
  totalBytes : ℕ
  verified : Bool
  deriving Repr, DecidableEq

def signatureVerifyInit : SigVerifyCtx := ⟨0xFFFFFFFF, 0, false⟩

/-- The inner loop of `signature_verify_update`, with `k` rounds to go. -/
def updateBits : ℕ → UInt32 → UInt32
  | 0, c => c
  | k + 1, c => updateBits k (if c &&& 1 ≠ 0 then (c >>> 1) ^^^ 0xEDB88320 else c >>> 1)

/-- One round of the outer loop. -/
def updateByte (c : UInt32) (b : UInt8) : UInt32 := updateBits 8 (c ^^^ b.toUInt32)

section Updates

variable (P : Platform)

/-- `signature_verify_update`; the chunk may be NULL. -/
def signatureVerifyUpdate (ctx : SigVerifyCtx) (chunk : Option (List UInt8)) : ℤ × SigVerifyCtx :=
  match chunk with
  | none => (-1, ctx)
  | some chunk =>
    (0, { ctx with
      currentCrc32 := chunk.foldl updateByte ctx.currentCrc32
      totalBytes := P.toSize (ctx.totalBytes + chunk.length) })

/-- `signature_verify_final`; `signature` is false for a NULL pointer. Neither the bytes of
the signature nor the key is looked at. -/
def signatureVerifyFinal (ctx : SigVerifyCtx) (signature : Bool) (sigLen : ℕ) : ℤ × SigVerifyCtx :=
  if signature = false ∨ sigLen = 0 then (-1, ctx) else (0, { ctx with verified := true })

def updateAll (ctx : SigVerifyCtx) (chunks : List (Option (List UInt8))) : SigVerifyCtx :=
  chunks.foldl (fun ctx chunk => (signatureVerifyUpdate P ctx chunk).2) ctx

/-- The data of the calls, a NULL chunk bringing none. -/
def concatenated (chunks : List (Option (List UInt8))) : List UInt8 :=
  (chunks.map (·.getD [])).flatten

/-! ### The loops -/

theorem updateBits_eq (k : ℕ) (c : UInt32) : updateBits k c = shift32 k c := by
  induction k generalizing c with
  | zero => rfl
  | succ k ih =>
    have hlow : c &&& 1 = 0 ∨ c &&& 1 = 1 := by
      have hmod : (c &&& 1).toNat = c.toNat % 2 := by
        rw [UInt32.toNat_and]
        exact Nat.and_one_is_mod c.toNat
      rcases Nat.mod_two_eq_zero_or_one c.toNat with h | h
      · exact .inl (UInt32.toNat_inj.mp (hmod.trans h))
      · exact .inr (UInt32.toNat_inj.mp (hmod.trans h))
    rw [updateBits, shift32, ih]
    rcases hlow with h | h
    · rw [h, if_neg (by decide), if_neg (by decide)]
    · rw [h, if_pos (by decide), if_pos rfl]

theorem updateByte_eq : updateByte = fun c b => shift32 8 (c ^^^ b.toUInt32) := by
  funext c b
  exact updateBits_eq 8 _

theorem foldl_updateByte (c : UInt32) (d : List UInt8) : d.foldl updateByte c = ieeeRegister c d := by
  rw [updateByte_eq]
  rfl

/-! ### Chunks -/

/-- The context behind the data `d`. -/
structure Digests (d : List UInt8) (ctx : SigVerifyCtx) : Prop where
  crc : ctx.currentCrc32 = ieeeRegister 0xFFFFFFFF d
  total : ctx.totalBytes = P.toSize d.length

variable {P}

theorem digests_init : Digests P [] signatureVerifyInit where
  crc := rfl
  total := (P.toSize_of_lt P.sizeMod_pos).symm

theorem Digests.update {d : List UInt8} {ctx : SigVerifyCtx} (h : Digests P d ctx)
    (chunk : Option (List UInt8)) :
    Digests P (d ++ chunk.getD []) (signatureVerifyUpdate P ctx chunk).2 := by
  cases chunk with
  | none =>
    rw [Option.getD_none, List.append_nil]
    exact h
  | some chunk =>
    refine ⟨?_, ?_⟩
    · show chunk.foldl updateByte ctx.currentCrc32 = ieeeRegister 0xFFFFFFFF (d ++ chunk)
      rw [foldl_updateByte, h.crc, ieeeRegister_append]
    · show P.toSize (ctx.totalBytes + chunk.length) = P.toSize (d ++ chunk).length
      rw [h.total, List.length_append]
      exact Nat.mod_add_mod _ _ _

theorem Digests.updateAll {d : List UInt8} {ctx : SigVerifyCtx} (h : Digests P d ctx)
    (chunks : List (Option (List UInt8))) :
    Digests P (d ++ concatenated chunks) (updateAll P ctx chunks) := by
  induction chunks generalizing d ctx with
  | nil =>
    show Digests P (d ++ []) ctx
    rw [List.append_nil]
    exact h
  | cons chunk chunks ih =>
    have hrest := ih (h.update chunk)
    rw [List.append_assoc] at hrest
    exact hrest

/-- However the data is cut, the complemented register is its CRC-32. -/
theorem digest_eq_crc32 (P : Platform) {crc : CrcService} (h : ComputesIeee crc)
    (chunks : List (Option (List UInt8))) :
    (updateAll P signatureVerifyInit chunks).currentCrc32 ^^^ 0xFFFFFFFF =
        ieeeCrc32 (concatenated chunks) ∧
      (updateAll P signatureVerifyInit chunks).currentCrc32 ^^^ 0xFFFFFFFF =
        modemCrc32 crc (concatenated chunks) ∧
      (updateAll P signatureVerifyInit chunks).totalBytes =
        (concatenated chunks).length % 2 ^ P.sizeBits := by
  have hall := digests_init.updateAll chunks (P := P)
  rw [List.nil_append] at hall
  have hcrc : (updateAll P signatureVerifyInit chunks).currentCrc32 ^^^ 0xFFFFFFFF =
      ieeeCrc32 (concatenated chunks) := by
    rw [hall.crc]
    exact ieeeRegister_eq_ieeeCrc32 _
  refine ⟨hcrc, ?_, hall.total⟩
  rw [hcrc, modemCrc32, h]

/-- The check string in two chunks, and a NULL chunk between them. -/
def checkChunks : List (Option (List UInt8)) :=
  [some [0x31, 0x32, 0x33, 0x34], none, some [0x35, 0x36, 0x37, 0x38, 0x39]]

theorem digest_eq_crc32_check :
    (updateAll platform32 signatureVerifyInit checkChunks).currentCrc32 ^^^ 0xFFFFFFFF =
        ieeeCrc32 (concatenated checkChunks) ∧
      (updateAll platform32 signatureVerifyInit checkChunks).currentCrc32 ^^^ 0xFFFFFFFF =
        modemCrc32 referenceCrc (concatenated checkChunks) ∧
      (updateAll platform32 signatureVerifyInit checkChunks).totalBytes =
        (concatenated checkChunks).length % 2 ^ platform32.sizeBits :=
  digest_eq_crc32 platform32 ieeeCrc_reference.computesIeee checkChunks

/-! ### The final call -/

inductive SigCall where
  | update (chunk : Option (List UInt8))
  | final (signature : Bool) (sigLen : ℕ)
  deriving Repr, DecidableEq

variable (P) in
def SigVerifyCtx.after (ctx : SigVerifyCtx) : SigCall → SigVerifyCtx
  | .update chunk => (signatureVerifyUpdate P ctx chunk).2
  | .final signature sigLen => (signatureVerifyFinal ctx signature sigLen).2

theorem verified_after (ctx : SigVerifyCtx) (call : SigCall) :
    (ctx.after P call).verified = true ↔
      ctx.verified = true ∨ ∃ sigLen, 0 < sigLen ∧ call = .final true sigLen := by
  cases call with
  | update chunk =>
    have hsame : (ctx.after P (.update chunk)).verified = ctx.verified := by cases chunk <;> rfl
    rw [hsame]
    constructor
    · exact .inl
    · rintro (h | ⟨sigLen, -, h⟩)
      · exact h
      · cases h
  | final signature sigLen =>
    show (signatureVerifyFinal ctx signature sigLen).2.verified = true ↔ _
    rw [signatureVerifyFinal]
    split
    · rename_i hrefused
      constructor
      · exact .inl
      · rintro (h | ⟨n, hn, h⟩)
        · exact h
        · cases h
          rcases hrefused with h | h
          · cases h
          · omega
    · rename_i haccepted
      rw [not_or, Bool.not_eq_false] at haccepted
      constructor
      · intro _
        exact .inr ⟨sigLen, by omega, by rw [haccepted.1]⟩
      · intro _
        rfl

theorem verified_foldl (ctx : SigVerifyCtx) (calls : List SigCall) :
    (calls.foldl (SigVerifyCtx.after P) ctx).verified = true ↔
      ctx.verified = true ∨ ∃ sigLen, 0 < sigLen ∧ SigCall.final true sigLen ∈ calls := by
  induction calls generalizing ctx with
  | nil => simp
  | cons call calls ih =>
    rw [List.foldl_cons, ih, verified_after, or_assoc, ← exists_or]
    simp only [List.mem_cons, ← and_or_left, eq_comm]

/-- An image counts as verified as soon as any signature that is not empty has been
presented, whatever its bytes, the key and the data are. -/
theorem verified_iff (calls : List SigCall) :
    (calls.foldl (SigVerifyCtx.after P) signatureVerifyInit).verified = true ↔
      ∃ sigLen, 0 < sigLen ∧ SigCall.final true sigLen ∈ calls := by
  rw [verified_foldl]
  exact or_iff_right Bool.false_ne_true

end Updates

end ZephyrModem.Firmware
