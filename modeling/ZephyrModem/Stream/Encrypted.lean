import Mathlib.Data.List.Basic

/-!
# Encrypted frames (`src/encrypted_stream.c`)

A byte is combined with the key byte at its place in the buffer of the call, so what is
encrypted depends on how the stream is cut into calls. The nonce is set and never used.
-/

namespace ZephyrModem.Stream

abbrev Byte := UInt8

/-- `sizeof(ctx->key)`. -/
def keySize : ℕ := 32

/-- `modem_encrypted_stream_ctx_t`. -/
structure EncryptedStreamCtx where
  key : List Byte
  nonce : List Byte
  active : Bool
  key_length : key.length = keySize
  deriving Repr, DecidableEq

/-- A shorter key is filled up with zeros, of a longer one the rest is ignored. -/
def encryptedStreamInit (key : List Byte) : Option EncryptedStreamCtx :=
  if key = [] then none
  else some
    { key := key.take keySize ++ List.replicate (keySize - key.length) 0
      nonce := List.replicate 12 0
      active := true
      key_length := by
        rw [List.length_append, List.length_take, List.length_replicate]
        omega }

/-- The bytes put into the output buffer; `*out_len` is their number. -/
def encryptedStreamEncrypt (ctx : EncryptedStreamCtx) (inBuf : List Byte) (outCapacity : ℕ) :
    List Byte :=
  (inBuf.take outCapacity).mapIdx fun i b => b ^^^ ctx.key.getD (i % keySize) 0

def encryptedStreamDecrypt (ctx : EncryptedStreamCtx) (inBuf : List Byte) (outCapacity : ℕ) :
    List Byte :=
  (inBuf.take outCapacity).mapIdx fun i b => b ^^^ ctx.key.getD (i % keySize) 0

/-! ### A stream cut into calls -/

/-- A call: how much it is given, and how much fits into its output buffer. -/
structure Frame where
  len : ℕ
  capacity : ℕ
  deriving Repr, DecidableEq

/-- The outputs of the calls, one after another. -/
def streamed (f : List Byte → ℕ → List Byte) : List Frame → List Byte → List Byte
  | [], _ => []
  | fr :: frs, bs => f (bs.take fr.len) fr.capacity ++ streamed f frs (bs.drop fr.len)

def total : List Frame → ℕ
  | [] => 0
  | fr :: frs => fr.len + total frs

/-- The place of byte `p` of the stream in the buffer of its call. -/
def offsetAt : List Frame → ℕ → ℕ
  | [], p => p
  | fr :: frs, p => if p < fr.len then p else offsetAt frs (p - fr.len)

/-- No call is given more than it has room for. -/
def Roomy (frs : List Frame) : Prop := ∀ fr ∈ frs, fr.len ≤ fr.capacity

instance (frs : List Frame) : Decidable (Roomy frs) :=
  inferInstanceAs (Decidable (∀ fr ∈ frs, fr.len ≤ fr.capacity))

def EncryptedStreamCtx.keyByte (ctx : EncryptedStreamCtx) (i : ℕ) : Byte :=
  ctx.key.getD (i % keySize) 0

variable (ctx : EncryptedStreamCtx)

theorem decrypt_eq_encrypt : encryptedStreamDecrypt ctx = encryptedStreamEncrypt ctx := rfl

theorem length_encrypt (bs : List Byte) (capacity : ℕ) :
    (encryptedStreamEncrypt ctx bs capacity).length = min capacity bs.length := by
  rw [encryptedStreamEncrypt, List.length_mapIdx, List.length_take]

theorem getElem?_encrypt {bs : List Byte} {capacity : ℕ} (h : bs.length ≤ capacity) (p : ℕ) :
    (encryptedStreamEncrypt ctx bs capacity)[p]? = bs[p]?.map (· ^^^ ctx.keyByte p) := by
  rw [encryptedStreamEncrypt, List.take_of_length_le h, List.getElem?_mapIdx]
  rfl

theorem length_streamed_le (frs : List Frame) (bs : List Byte) :
    (streamed (encryptedStreamEncrypt ctx) frs bs).length ≤ bs.length := by
  induction frs generalizing bs with
  | nil => exact Nat.zero_le _
  | cons fr frs ih =>
    have hrest := ih (bs.drop fr.len)
    rw [List.length_drop] at hrest
    rw [streamed, List.length_append, length_encrypt, List.length_take]
    omega

/-- Nothing is lost exactly when every call has room. -/
theorem length_streamed_iff {frs : List Frame} {bs : List Byte} (h : total frs = bs.length) :
    (streamed (encryptedStreamEncrypt ctx) frs bs).length = bs.length ↔ Roomy frs := by
  induction frs generalizing bs with
  | nil =>
    obtain rfl : bs = [] := List.eq_nil_of_length_eq_zero h.symm
    exact ⟨fun _ fr hfr => absurd hfr List.not_mem_nil, fun _ => rfl⟩
  | cons fr frs ih =>
    have hsum : fr.len + total frs = bs.length := h
    have htotal : total frs = (bs.drop fr.len).length := by
      rw [List.length_drop]
      omega
    have hle := length_streamed_le ctx frs (bs.drop fr.len)
    have hroomy : Roomy (fr :: frs) ↔ fr.len ≤ fr.capacity ∧ Roomy frs := List.forall_mem_cons
    rw [streamed, List.length_append, length_encrypt, List.length_take, hroomy, ← ih htotal]
    omega

/-- Each byte meets the key byte at its place in the call. -/
theorem getElem?_streamed {frs : List Frame} (hroomy : Roomy frs) {bs : List Byte}
    (h : total frs = bs.length) (p : ℕ) :
    (streamed (encryptedStreamEncrypt ctx) frs bs)[p]? =
      bs[p]?.map (· ^^^ ctx.keyByte (offsetAt frs p)) := by
  induction frs generalizing bs p with
  | nil =>
    obtain rfl : bs = [] := List.eq_nil_of_length_eq_zero h.symm
    rfl
  | cons fr frs ih =>
    obtain ⟨hroom, hrest⟩ := List.forall_mem_cons.mp hroomy
    have hsum : fr.len + total frs = bs.length := h
    have htake : (bs.take fr.len).length = fr.len := by
      rw [List.length_take]
      omega
    have hfirst : (encryptedStreamEncrypt ctx (bs.take fr.len) fr.capacity).length = fr.len := by
      rw [length_encrypt, htake]
      omega
    by_cases hp : p < fr.len
    · rw [streamed, List.getElem?_append_left (by omega), getElem?_encrypt ctx (by omega), offsetAt,
        if_pos hp, List.getElem?_take_of_lt hp]
    · have htotal : total frs = (bs.drop fr.len).length := by
        rw [List.length_drop]
        omega
      have hplace : fr.len + (p - fr.len) = p := by omega
      rw [streamed, List.getElem?_append_right (by omega), hfirst, ih hrest htotal, offsetAt,
        if_neg hp, List.getElem?_drop, hplace]

theorem xor_xor_eq_iff (b k l : Byte) : b ^^^ k ^^^ l = b ↔ k = l := by
  rw [UInt8.xor_assoc]
  constructor
  · intro h
    have hzero : b ^^^ (b ^^^ (k ^^^ l)) = 0 := by rw [h, UInt8.xor_self]
    rw [← UInt8.xor_assoc, UInt8.xor_self, UInt8.zero_xor] at hzero
    exact UInt8.xor_eq_zero_iff.mp hzero
  · rintro rfl
    rw [UInt8.xor_self, UInt8.xor_zero]

/-- A text comes back from calls of `encryptedStreamDecrypt` that cut the stream otherwise
exactly when every call has room and each byte meets the same key byte on both sides. -/
theorem restored_iff (ctx : EncryptedStreamCtx) (es ds : List Frame) (text : List Byte)
    (hes : total es = text.length) (hds : total ds = text.length) :
    streamed (encryptedStreamDecrypt ctx) ds (streamed (encryptedStreamEncrypt ctx) es text) = text ↔
      Roomy es ∧ Roomy ds ∧ ∀ p < text.length,
        ctx.keyByte (offsetAt es p) = ctx.keyByte (offsetAt ds p) := by
  rw [decrypt_eq_encrypt]
  have hle := length_streamed_le ctx ds (streamed (encryptedStreamEncrypt ctx) es text)
  have hle' := length_streamed_le ctx es text
  constructor
  · intro h
    have hlen := congrArg List.length h
    have hes' : (streamed (encryptedStreamEncrypt ctx) es text).length = text.length := by omega
    have hroomy := (length_streamed_iff ctx hes).mp hes'
    have hds' : total ds = (streamed (encryptedStreamEncrypt ctx) es text).length := by omega
    have hroomy' := (length_streamed_iff ctx hds').mp (by omega)
    refine ⟨hroomy, hroomy', ?_⟩
    intro p hp
    have hbyte := congrArg (fun bs : List Byte => bs[p]?) h
    simp only [getElem?_streamed ctx hroomy' hds', getElem?_streamed ctx hroomy hes,
      List.getElem?_eq_getElem hp, Option.map_some, Option.some.injEq, xor_xor_eq_iff] at hbyte
    exact hbyte
  · rintro ⟨hroomy, hroomy', hkeys⟩
    have hes' := (length_streamed_iff ctx hes).mpr hroomy
    have hds' : total ds = (streamed (encryptedStreamEncrypt ctx) es text).length := by omega
    apply List.ext_getElem?
    intro p
    rw [getElem?_streamed ctx hroomy' hds', getElem?_streamed ctx hroomy hes]
    by_cases hp : p < text.length
    · rw [List.getElem?_eq_getElem hp, Option.map_some, Option.map_some, Option.some.injEq,
        xor_xor_eq_iff]
      exact hkeys p hp
    · rw [List.getElem?_eq_none (by omega)]
      rfl

def twoByteKey : EncryptedStreamCtx := (encryptedStreamInit [1, 2]).get (by decide)

/-- Cut after the first byte on one side only, the text is lost; cut alike, it comes back. -/
theorem restored_iff_threeBytes :
    streamed (encryptedStreamDecrypt twoByteKey) [⟨3, 8⟩]
        (streamed (encryptedStreamEncrypt twoByteKey) [⟨1, 8⟩, ⟨2, 8⟩] [65, 66, 67]) ≠
      [65, 66, 67] ∧
    streamed (encryptedStreamDecrypt twoByteKey) [⟨1, 8⟩, ⟨2, 8⟩]
        (streamed (encryptedStreamEncrypt twoByteKey) [⟨1, 8⟩, ⟨2, 8⟩] [65, 66, 67]) =
      [65, 66, 67] :=
  ⟨fun h => absurd ((restored_iff twoByteKey [⟨1, 8⟩, ⟨2, 8⟩] [⟨3, 8⟩] [65, 66, 67] rfl rfl).mp h)
      (by decide),
    (restored_iff twoByteKey [⟨1, 8⟩, ⟨2, 8⟩] [⟨1, 8⟩, ⟨2, 8⟩] [65, 66, 67] rfl rfl).mpr
      (by decide)⟩

end ZephyrModem.Stream
