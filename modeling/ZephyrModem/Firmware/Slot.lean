import Mathlib.Data.List.Basic
import ZephyrModem.Platform

/-!
# Firmware images in a flash slot

The header check (`src/mcuboot_validate.c`) and the writer that erases ahead of
the data (`src/modem_flash_helper.c`).
-/

namespace ZephyrModem.Firmware

/-! ### The image header -/

/-- The byte order in which the target reads the header fields. -/
inductive ByteOrder where
  | little
  | big
  deriving Repr, DecidableEq

def ByteOrder.word : ByteOrder → List UInt8 → ℕ
  | .little, bs => bs.foldr (fun b n => b.toNat + 256 * n) 0
  | .big, bs => bs.foldl (fun n b => 256 * n + b.toNat) 0

/-- The fields of `mcuboot_image_header_t` that are looked at. -/
structure ImageHeader where
  magic : ℕ
  hdrSize : ℕ
  imgSize : ℕ
  deriving Repr, DecidableEq

/-- `sizeof(mcuboot_image_header_t)`. -/
def imageHeaderSize : ℕ := 20

def mcubootImageMagic : ℕ := 0x96F3B83D

/-- The cast of the buffer to a header. -/
def readHeader (order : ByteOrder) (buf : List UInt8) : ImageHeader where
  magic := order.word (buf.take 4)
  hdrSize := order.word ((buf.drop 8).take 2)
  imgSize := order.word ((buf.drop 12).take 4)

/-- `mcuboot_validate_header`; the buffer may be NULL. -/
def mcubootValidateHeader (order : ByteOrder) (buf : Option (List UInt8)) (len maxSlotSize : ℕ) : ℤ :=
  match buf with
  | none => -1
  | some buf =>
    if len < imageHeaderSize then -1
    else if (readHeader order buf).magic ≠ mcubootImageMagic then -2
    else if maxSlotSize > 0 ∧ (readHeader order buf).imgSize > maxSlotSize then -3
    else 0

/-! ### The flash writer -/

/-- `modem_flash_ctx_t`, without the label. -/
structure FlashCtx where
  currentOffset : ℕ
  erasedOffset : ℕ
  sectorSize : ℕ
  deriving Repr, DecidableEq

def modemFlashInit : FlashCtx := ⟨0, 0, 4096⟩

section Flash

variable (P : Platform)

/-- Line 31, in `size_t`. -/
def nextErase (ctx : FlashCtx) (targetEnd : ℕ) : ℕ :=
  P.subSize (P.toSize (targetEnd + ctx.sectorSize)) 1 &&&
    (P.sizeMod - 1 - P.subSize ctx.sectorSize 1)

/-- `modem_flash_write`; the buffer may be NULL. -/
def modemFlashWrite (ctx : FlashCtx) (buf : Option (List UInt8)) (len : ℕ) : ℤ × FlashCtx :=
  match buf with
  | none => (-1, ctx)
  | some _ =>
    let targetEnd := P.toSize (ctx.currentOffset + len)
    let erasedOffset :=
      if targetEnd > ctx.erasedOffset then nextErase P ctx targetEnd else ctx.erasedOffset
    (0, { ctx with erasedOffset, currentOffset := P.toSize (ctx.currentOffset + len) })

def writeChunks (ctx : FlashCtx) (chunks : List (List UInt8)) : FlashCtx :=
  chunks.foldl (fun ctx c => (modemFlashWrite P ctx (some c) c.length).2) ctx

/-- The buffers hold the image that the header announces, cut in any way. -/
structure CutsImage (hdr : ImageHeader) (chunks : List (List UInt8)) : Prop where
  fits : ∀ c ∈ chunks, c.length < P.sizeMod
  length : chunks.flatten.length = hdr.hdrSize + hdr.imgSize

/-- After each write nothing behind the slot has been written or erased. -/
def StaysInSlot (slot : ℕ) (chunks : List (List UInt8)) : Prop :=
  ∀ written, written <+: chunks → (writeChunks P modemFlashInit written).currentOffset ≤ slot ∧
    (writeChunks P modemFlashInit written).erasedOffset ≤ slot

/-! ### Sectors -/

/-- The mask of line 31 rounds down to a sector. -/
theorem land_not_4095 {n x : ℕ} (hn : 12 ≤ n) (hx : x < 2 ^ n) :
    x &&& (2 ^ n - 1 - 4095) = x / 4096 * 4096 := by
  have hmask : 2 ^ n - 1 - 4095 = 2 ^ n - (4095 + 1) := by omega
  have hle : 2 ^ 12 ≤ 2 ^ n := Nat.pow_le_pow_right (by decide) hn
  apply Nat.eq_of_testBit_eq
  intro i
  rw [Nat.testBit_and, hmask, Nat.testBit_two_pow_sub_succ (by omega),
    show 4096 = 2 ^ 12 from rfl, show 4095 = 2 ^ 12 - 1 from rfl, Nat.testBit_two_pow_sub_one,
    Nat.testBit_mul_two_pow, Nat.testBit_div_two_pow]
  by_cases hi : 12 ≤ i
  · have hback : i - 12 + 12 = i := Nat.sub_add_cancel hi
    by_cases hin : i < n
    · simp [hi, hin, Nat.not_lt.mpr hi]
    · have hzero : x.testBit i = false :=
        Nat.testBit_lt_two_pow (Nat.lt_of_lt_of_le hx (Nat.pow_le_pow_right (by decide) (by omega)))
      simp [hzero, hback]
  · simp [hi, Nat.lt_of_not_le hi]

theorem sector_dvd_sizeMod : 4096 ∣ P.sizeMod :=
  Nat.pow_dvd_pow 2 (Nat.le_trans (by decide : 12 ≤ 16) P.sizeBits_ge)

theorem nextErase_eq {ctx : FlashCtx} (hsector : ctx.sectorSize = 4096) {t : ℕ}
    (ht : t + 4095 < P.sizeMod) : nextErase P ctx t = (t + 4095) / 4096 * 4096 := by
  have hmod := P.sizeMod_ge
  have hlast : P.subSize 4096 1 = 4095 := P.subSize_of_le (by omega) (by decide)
  have hsum : P.subSize (P.toSize (t + 4096)) 1 = t + 4095 := by
    by_cases hfit : t + 4096 < P.sizeMod
    · rw [P.toSize_of_lt hfit, P.subSize_of_le hfit (by omega)]
      omega
    · have hwrap : t + 4096 = P.sizeMod := by omega
      rw [hwrap, Platform.toSize, Nat.mod_self, P.subSize_of_lt (by omega) (by decide)]
      omega
  rw [nextErase, hsector, hlast, hsum]
  have hbits := P.sizeBits_ge
  exact land_not_4095 (by omega) ht

/-! ### Writes -/

/-- The writer after `n` bytes, all of them in the slot. -/
structure Within (slot n : ℕ) (ctx : FlashCtx) : Prop where
  current : ctx.currentOffset = n
  erased : ctx.erasedOffset ≤ slot
  sector : ctx.sectorSize = 4096

theorem modemFlashWrite_within {slot n : ℕ} {ctx : FlashCtx} (h : Within slot n ctx)
    (hslot : slot < P.sizeMod) (hmul : 4096 ∣ slot) {c : List UInt8} (hc : n + c.length ≤ slot) :
    Within slot (n + c.length) (modemFlashWrite P ctx (some c) c.length).2 := by
  obtain ⟨m, hm⟩ := hmul
  obtain ⟨k, hk⟩ := sector_dvd_sizeMod P
  have hsum : P.toSize (ctx.currentOffset + c.length) = n + c.length := by
    rw [h.current]
    exact P.toSize_of_lt (by omega)
  have herase := nextErase_eq P h.sector (t := n + c.length) (by omega)
  have hround : (n + c.length + 4095) / 4096 * 4096 ≤ slot := by omega
  refine ⟨hsum, ?_, h.sector⟩
  show (if _ then _ else _) ≤ slot
  rw [hsum, herase]
  split
  · exact hround
  · exact h.erased

theorem writeChunks_within {slot : ℕ} (hslot : slot < P.sizeMod) (hmul : 4096 ∣ slot)
    (chunks : List (List UInt8)) {n : ℕ} {ctx : FlashCtx} (h : Within slot n ctx)
    (hlen : n + chunks.flatten.length ≤ slot) :
    Within slot (n + chunks.flatten.length) (writeChunks P ctx chunks) := by
  induction chunks generalizing n ctx with
  | nil => exact h
  | cons c chunks ih =>
    rw [List.flatten_cons, List.length_append] at hlen ⊢
    rw [← Nat.add_assoc]
    apply ih (modemFlashWrite_within P h hslot hmul (by omega))
    omega

theorem staysInSlot_of_le {slot : ℕ} (hslot : slot < P.sizeMod) (hmul : 4096 ∣ slot)
    {chunks : List (List UInt8)} (hlen : chunks.flatten.length ≤ slot) :
    StaysInSlot P slot chunks := by
  intro written hprefix
  obtain ⟨rest, rfl⟩ := hprefix
  rw [List.flatten_append, List.length_append] at hlen
  have hinit : Within slot 0 modemFlashInit := ⟨rfl, Nat.zero_le _, rfl⟩
  have h := writeChunks_within P hslot hmul written hinit (by omega)
  refine ⟨?_, h.erased⟩
  rw [h.current]
  omega

theorem writeChunks_currentOffset (chunks : List (List UInt8)) {ctx : FlashCtx} {n : ℕ}
    (h : ctx.currentOffset = P.toSize n) :
    (writeChunks P ctx chunks).currentOffset = P.toSize (n + chunks.flatten.length) := by
  induction chunks generalizing ctx n with
  | nil => exact h
  | cons c chunks ih =>
    rw [List.flatten_cons, List.length_append, ← Nat.add_assoc]
    apply ih
    show P.toSize (ctx.currentOffset + c.length) = _
    rw [h]
    exact Nat.mod_add_mod _ _ _

theorem currentOffset_written (written : List (List UInt8)) (h : written.flatten.length < P.sizeMod) :
    (writeChunks P modemFlashInit written).currentOffset = written.flatten.length := by
  have hinit : modemFlashInit.currentOffset = P.toSize 0 := (P.toSize_of_lt P.sizeMod_pos).symm
  rw [writeChunks_currentOffset P written hinit, Nat.zero_add, P.toSize_of_lt h]

/-- An image longer than the slot, cut so that the first write passes its end. -/
def overrunChunks (slot total : ℕ) : List (List UInt8) :=
  List.replicate (slot + 1) 0 :: List.replicate (total - (slot + 1)) [0]

theorem overrunChunks_length {slot total : ℕ} (h : slot < total) :
    (overrunChunks slot total).flatten.length = total := by
  simp [overrunChunks]
  omega

theorem overrunChunks_leaves {slot total : ℕ} (hslot : slot + 1 < P.sizeMod) :
    ¬ StaysInSlot P slot (overrunChunks slot total) := by
  intro h
  have hfirst : [List.replicate (slot + 1) (0 : UInt8)] <+: overrunChunks slot total :=
    ⟨List.replicate (total - (slot + 1)) [0], rfl⟩
  have hlen : [List.replicate (slot + 1) (0 : UInt8)].flatten.length = slot + 1 := by simp
  have hcurrent := (h _ hfirst).1
  rw [currentOffset_written P _ (by rw [hlen]; exact hslot), hlen] at hcurrent
  omega

theorem imgSize_le_of_valid {order : ByteOrder} {buf : List UInt8} {len slot : ℕ} (hpos : 0 < slot)
    (hvalid : mcubootValidateHeader order (some buf) len slot = 0) :
    (readHeader order buf).imgSize ≤ slot := by
  simp only [mcubootValidateHeader] at hvalid
  split_ifs at hvalid with hlen hmagic hsize
  omega

/-- A header that is accepted announces a payload that fits the slot. The image
stays in the slot, however it is cut, exactly when header and payload together
fit; and while the total is a `size_t`, every cut shows it. -/
theorem staysInSlot_iff (P : Platform) (order : ByteOrder) (buf : List UInt8) (len slot : ℕ)
    (hpos : 0 < slot) (hslot : slot < P.sizeMod) (hmul : 4096 ∣ slot)
    (hvalid : mcubootValidateHeader order (some buf) len slot = 0) :
    (readHeader order buf).imgSize ≤ slot ∧
    ((∀ chunks, CutsImage P (readHeader order buf) chunks → StaysInSlot P slot chunks) ↔
      (readHeader order buf).hdrSize + (readHeader order buf).imgSize ≤ slot) ∧
    ((readHeader order buf).hdrSize + (readHeader order buf).imgSize < P.sizeMod →
      ∀ chunks, CutsImage P (readHeader order buf) chunks →
        (StaysInSlot P slot chunks ↔
          (readHeader order buf).hdrSize + (readHeader order buf).imgSize ≤ slot)) := by
  have hnext : slot + 1 < P.sizeMod := by
    obtain ⟨m, hm⟩ := hmul
    obtain ⟨k, hk⟩ := sector_dvd_sizeMod P
    omega
  have hstays : ∀ chunks, CutsImage P (readHeader order buf) chunks →
      (readHeader order buf).hdrSize + (readHeader order buf).imgSize ≤ slot →
      StaysInSlot P slot chunks := by
    intro chunks hcut hfits
    exact staysInSlot_of_le P hslot hmul (by rw [hcut.length]; exact hfits)
  refine ⟨imgSize_le_of_valid hpos hvalid, ⟨?_, fun hfits chunks hcut => hstays chunks hcut hfits⟩, ?_⟩
  · intro hall
    by_contra hover
    have hcut : CutsImage P (readHeader order buf) (overrunChunks slot
        ((readHeader order buf).hdrSize + (readHeader order buf).imgSize)) := by
      refine ⟨?_, overrunChunks_length (by omega)⟩
      intro c hc
      rcases List.mem_cons.mp hc with rfl | hc
      · rwa [List.length_replicate]
      · rw [List.eq_of_mem_replicate hc, List.length_singleton]
        omega
    exact overrunChunks_leaves P hnext (hall _ hcut)
  · intro htotal chunks hcut
    constructor
    · intro h
      have hlast := (h chunks (List.prefix_refl _)).1
      rw [currentOffset_written P chunks (by rw [hcut.length]; exact htotal), hcut.length] at hlast
      exact hlast
    · exact hstays chunks hcut

end Flash

/-- The header of an image of 4096 bytes of payload behind a header of 32 bytes. -/
def fullSlotHeader : List UInt8 :=
  [0x3D, 0xB8, 0xF3, 0x96, 0, 0, 0, 0, 32, 0, 0, 0, 0, 0x10, 0, 0, 0, 0, 0, 0]

def smallHeader : List UInt8 :=
  [0x3D, 0xB8, 0xF3, 0x96, 0, 0, 0, 0, 32, 0, 0, 0, 0, 2, 0, 0, 0, 0, 0, 0]

theorem staysInSlot_small :
    (readHeader .little smallHeader).imgSize ≤ 4096 ∧
    ((∀ chunks, CutsImage platform32 (readHeader .little smallHeader) chunks →
        StaysInSlot platform32 4096 chunks) ↔
      (readHeader .little smallHeader).hdrSize + (readHeader .little smallHeader).imgSize ≤ 4096) ∧
    ((readHeader .little smallHeader).hdrSize + (readHeader .little smallHeader).imgSize <
        platform32.sizeMod →
      ∀ chunks, CutsImage platform32 (readHeader .little smallHeader) chunks →
        (StaysInSlot platform32 4096 chunks ↔
          (readHeader .little smallHeader).hdrSize + (readHeader .little smallHeader).imgSize ≤ 4096)) :=
  staysInSlot_iff platform32 .little smallHeader 20 4096 (by decide) (by decide) (by decide) (by decide)

/-- The header passes the check for a slot of one sector, and the second write of the
image ends 32 bytes behind the slot, with a second sector erased. -/
theorem fullSlotHeader_overruns :
    mcubootValidateHeader .little (some fullSlotHeader) 20 4096 = 0 ∧
    CutsImage platform32 (readHeader .little fullSlotHeader)
      [List.replicate 32 0, List.replicate 4096 0] ∧
    ¬ StaysInSlot platform32 4096 [List.replicate 32 0, List.replicate 4096 0] := by
  have hlen : [List.replicate 32 (0 : UInt8), List.replicate 4096 0].flatten.length = 4128 := by
    simp only [List.flatten_cons, List.flatten_nil, List.length_append, List.length_replicate,
      List.length_nil]
  refine ⟨by decide, ⟨?_, hlen⟩, ?_⟩
  · intro c hc
    simp only [List.mem_cons, List.not_mem_nil, or_false] at hc
    rcases hc with rfl | rfl
    · rw [List.length_replicate]
      decide
    · rw [List.length_replicate]
      decide
  · intro h
    have hlast := (h _ (List.prefix_refl _)).1
    rw [currentOffset_written platform32 _ (by rw [hlen]; decide), hlen] at hlast
    exact absurd hlast (by decide)

end ZephyrModem.Firmware
