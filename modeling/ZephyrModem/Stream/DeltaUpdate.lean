import Mathlib.Algebra.Ring.Nat
import Mathlib.Data.Int.Notation
import Mathlib.Data.List.Basic
import ZephyrModem.Platform

/-!
# Binary delta updates

`src/delta_update.c` combines a patch with the base image, one chunk of the patch at a
time. Two counters follow it: how much of the patch has come, and how much of the target
has been put out.
-/

namespace ZephyrModem.Stream

structure DeltaCtx where
  baseImageSize : ℕ
  patchOffset : ℕ
  targetWritten : ℕ
  deriving Repr, DecidableEq

def deltaUpdateInit (baseSize : ℕ) : DeltaCtx := ⟨baseSize, 0, 0⟩

/-- The arguments of a call, but for the base image. `outBuf` and `outLen` are false for a
NULL pointer. -/
structure Chunk where
  diff : Option (List UInt8)
  outBuf : Bool
  outCapacity : ℕ
  outLen : Bool
  deriving Repr, DecidableEq

/-- What a call gives back: its result, the bytes put out and the base indices read. -/
structure Applied where
  result : ℤ
  out : List UInt8
  reads : List ℕ
  deriving Repr, DecidableEq

section Calls

variable (P : Platform)

def copyLen (diff : List UInt8) (outCapacity : ℕ) : ℕ :=
  if diff.length < outCapacity then diff.length else outCapacity

/-- The indices into `base_buf` of a call. -/
def baseIndices (ctx : DeltaCtx) (n : ℕ) : List ℕ :=
  (List.range n).map (fun i => P.toSize (ctx.targetWritten + i))

/-- Lines 42 and 43. -/
def DeltaCtx.advance (ctx : DeltaCtx) (n chunkLen : ℕ) : DeltaCtx :=
  { ctx with
    targetWritten := P.toSize (ctx.targetWritten + n)
    patchOffset := P.toSize (ctx.patchOffset + chunkLen) }

/-- `delta_update_apply_chunk`; `base` is what lies at `base_buf`, which may be NULL. -/
def deltaUpdateApplyChunk (base : Option (ℕ → UInt8)) (ctx : DeltaCtx) (chunk : Chunk) :
    Applied × DeltaCtx :=
  match chunk.diff with
  | none => (⟨-1, [], []⟩, ctx)
  | some diff =>
    if chunk.outBuf = false ∨ chunk.outLen = false then (⟨-1, [], []⟩, ctx)
    else
      let n := copyLen diff chunk.outCapacity
      let out :=
        match base with
        | none => ⟨0, diff.take n, []⟩
        | some base =>
          ⟨0, List.zipWith (fun i d => base i ^^^ d) (baseIndices P ctx n) diff,
            baseIndices P ctx n⟩
      (out, ctx.advance P n diff.length)

def applyChunks (base : Option (ℕ → UInt8)) : DeltaCtx → List Chunk → List (Applied × DeltaCtx)
  | _, [] => []
  | ctx, c :: cs =>
    deltaUpdateApplyChunk P base ctx c ::
      applyChunks base (deltaUpdateApplyChunk P base ctx c).2 cs

/-- The base bytes that a call needs. -/
def Chunk.needed (c : Chunk) : ℕ :=
  match c.diff with
  | none => 0
  | some diff => if c.outBuf = false ∨ c.outLen = false then 0 else copyLen diff c.outCapacity

variable {P}

theorem copyLen_le (diff : List UInt8) (cap : ℕ) : copyLen diff cap ≤ diff.length := by
  unfold copyLen
  split <;> omega

theorem copyLen_eq_length_iff (diff : List UInt8) (cap : ℕ) :
    copyLen diff cap = diff.length ↔ diff.length ≤ cap := by
  unfold copyLen
  split <;> omega

/-- A call with the base image either fails and changes nothing, or copies. -/
theorem deltaUpdateApplyChunk_cases (base : ℕ → UInt8) (ctx : DeltaCtx) (c : Chunk) :
    (deltaUpdateApplyChunk P (some base) ctx c = (⟨-1, [], []⟩, ctx) ∧ c.needed = 0) ∨
      ∃ diff, c.diff = some diff ∧ c.needed = copyLen diff c.outCapacity ∧
        deltaUpdateApplyChunk P (some base) ctx c =
          (⟨0, List.zipWith (fun i d => base i ^^^ d) (baseIndices P ctx c.needed) diff,
              baseIndices P ctx c.needed⟩,
            ctx.advance P c.needed diff.length) := by
  unfold deltaUpdateApplyChunk Chunk.needed
  cases c.diff with
  | none => exact .inl ⟨rfl, rfl⟩
  | some diff =>
    dsimp only
    by_cases hnull : c.outBuf = false ∨ c.outLen = false
    · rw [if_pos hnull, if_pos hnull]
      exact .inl ⟨rfl, rfl⟩
    · rw [if_neg hnull, if_neg hnull]
      exact .inr ⟨diff, rfl, rfl, rfl⟩

theorem mem_baseIndices {ctx : DeltaCtx} {n i : ℕ} :
    i ∈ baseIndices P ctx n ↔ ∃ j < n, P.toSize (ctx.targetWritten + j) = i := by
  unfold baseIndices
  rw [List.mem_map]
  simp only [List.mem_range]

/-! ### Reads of the base image -/

variable (P)

/-- Every index read is inside the base image, and a call that needs more is refused. -/
def StaysInBase (base : ℕ → UInt8) : DeltaCtx → List Chunk → Prop
  | _, [] => True
  | ctx, c :: cs =>
    (∀ i ∈ (deltaUpdateApplyChunk P (some base) ctx c).1.reads, i < ctx.baseImageSize) ∧
      (ctx.baseImageSize < ctx.targetWritten + c.needed →
        (deltaUpdateApplyChunk P (some base) ctx c).1.result ≠ 0 ∧
          (deltaUpdateApplyChunk P (some base) ctx c).2 = ctx) ∧
      StaysInBase base (deltaUpdateApplyChunk P (some base) ctx c).2 cs

variable {P}

theorem staysInBase_from_iff (base : ℕ → UInt8) {ctx : DeltaCtx}
    (hsize : ctx.baseImageSize < P.sizeMod) (hle : ctx.targetWritten ≤ ctx.baseImageSize)
    (cs : List Chunk) :
    StaysInBase P base ctx cs ↔
      ctx.targetWritten + (cs.map Chunk.needed).sum ≤ ctx.baseImageSize := by
  induction cs generalizing ctx with
  | nil => exact ⟨fun _ => hle, fun _ => trivial⟩
  | cons c cs ih =>
    rw [StaysInBase, List.map_cons, List.sum_cons]
    cases deltaUpdateApplyChunk_cases (P := P) base ctx c with
    | inl hfails =>
      obtain ⟨happly, hzero⟩ := hfails
      rw [happly, hzero, ih hsize hle]
      constructor
      · intro h
        have := h.2.2
        omega
      · intro h
        refine ⟨fun i hi => absurd hi List.not_mem_nil, fun hmore => ?_, by omega⟩
        omega
    | inr hcopies =>
      obtain ⟨diff, -, -, happly⟩ := hcopies
      rw [happly]
      by_cases hfits : ctx.targetWritten + c.needed ≤ ctx.baseImageSize
      · have hnext : P.toSize (ctx.targetWritten + c.needed) = ctx.targetWritten + c.needed :=
          P.toSize_of_lt (by omega)
        have hrest := @ih (ctx.advance P c.needed diff.length) hsize (Nat.le_trans (Nat.le_of_eq hnext) hfits)
        rw [hrest]
        show _ ∧ _ ∧ P.toSize (ctx.targetWritten + c.needed) + _ ≤ ctx.baseImageSize ↔ _
        constructor
        · intro h
          have := h.2.2
          omega
        · intro h
          refine ⟨?_, fun hmore => ?_, by omega⟩
          · intro i hi
            obtain ⟨j, hj, heq⟩ := mem_baseIndices.mp hi
            rw [P.toSize_of_lt (by omega)] at heq
            omega
          · omega
      · -- the index behind the base image is read
        constructor
        · intro h
          have hmem : ctx.baseImageSize ∈ baseIndices P ctx c.needed := by
            refine mem_baseIndices.mpr ⟨ctx.baseImageSize - ctx.targetWritten, by omega, ?_⟩
            rw [P.toSize_of_lt (by omega)]
            omega
          exact absurd (h.1 _ hmem) (Nat.lt_irrefl _)
        · intro h
          omega

/-- No call reads behind the base image exactly when all calls together need no more than
the base image. -/
theorem delta_in_base_iff (base : ℕ → UInt8) {baseSize : ℕ} (hsize : baseSize < P.sizeMod)
    (cs : List Chunk) :
    StaysInBase P base (deltaUpdateInit baseSize) cs ↔ (cs.map Chunk.needed).sum ≤ baseSize := by
  rw [staysInBase_from_iff base hsize (Nat.zero_le _)]
  show 0 + _ ≤ baseSize ↔ _
  rw [Nat.zero_add]

theorem delta_in_base_three_bytes :
    StaysInBase platform32 (fun i => UInt8.ofNat i) (deltaUpdateInit 3)
      [⟨some [1, 2], true, 16, true⟩, ⟨some [3], true, 16, true⟩] :=
  (delta_in_base_iff _ (by decide) _).mpr (by decide)

theorem not_delta_in_base_longer_patch :
    ¬ StaysInBase platform32 (fun i => UInt8.ofNat i) (deltaUpdateInit 1)
      [⟨some [1, 2], true, 16, true⟩] := by
  intro h
  have hread := h.1 1 (by decide)
  revert hread
  decide

/-! ### Chunks of a patch -/

/-- The base image from index `k` on, combined with a patch. -/
def patched (base : ℕ → UInt8) : ℕ → List UInt8 → List UInt8
  | _, [] => []
  | k, d :: ds => (base k ^^^ d) :: patched base (k + 1) ds

theorem patched_append (base : ℕ → UInt8) (k : ℕ) (as bs : List UInt8) :
    patched base k (as ++ bs) = patched base k as ++ patched base (k + as.length) bs := by
  induction as generalizing k with
  | nil => rfl
  | cons a as ih =>
    have hk : k + (a :: as).length = k + 1 + as.length := by
      rw [List.length_cons]
      omega
    rw [List.cons_append, patched, patched, ih, hk, List.cons_append]

theorem zipWith_baseIndices (base : ℕ → UInt8) (ctx : DeltaCtx) (diff : List UInt8)
    (h : ctx.targetWritten + diff.length < P.sizeMod) :
    List.zipWith (fun i d => base i ^^^ d) (baseIndices P ctx diff.length) diff =
      patched base ctx.targetWritten diff := by
  unfold baseIndices
  generalize ctx.targetWritten = t at h ⊢
  induction diff generalizing t with
  | nil => rfl
  | cons d ds ih =>
    rw [List.length_cons] at h ⊢
    have hrest := ih (t + 1) (by omega)
    have hshift : (fun i => P.toSize (t + i)) ∘ Nat.succ = fun i => P.toSize (t + 1 + i) := by
      funext i
      show P.toSize (t + (i + 1)) = P.toSize (t + 1 + i)
      rw [Nat.add_comm i 1, Nat.add_assoc]
    rw [List.range_succ_eq_map, List.map_cons, List.map_map, hshift, List.zipWith_cons_cons, hrest,
      Nat.add_zero, P.toSize_of_lt (by omega), patched]

variable (P)

/-- What is put out is the base image combined with the patch, and the counters agree after
every call. -/
structure Patches (base : ℕ → UInt8) (ctx : DeltaCtx) (cs : List Chunk) : Prop where
  out : (applyChunks P (some base) ctx cs).flatMap (·.1.out) =
    patched base ctx.targetWritten (cs.flatMap (·.diff.getD []))
  counters : ∀ r ∈ applyChunks P (some base) ctx cs, r.2.patchOffset = r.2.targetWritten

variable {P}

theorem patches_cons_iff {base : ℕ → UInt8} {ctx ctx' : DeltaCtx} {c : Chunk} {cs : List Chunk}
    {diff : List UInt8} {reads : List ℕ} (hdiff : c.diff = some diff)
    (happly : deltaUpdateApplyChunk P (some base) ctx c =
      (⟨0, patched base ctx.targetWritten diff, reads⟩, ctx'))
    (htarget : ctx'.targetWritten = ctx.targetWritten + diff.length)
    (hoffset : ctx'.patchOffset = ctx'.targetWritten) :
    Patches P base ctx (c :: cs) ↔ Patches P base ctx' cs := by
  have hcons : applyChunks P (some base) ctx (c :: cs) =
      (⟨0, patched base ctx.targetWritten diff, reads⟩, ctx') ::
        applyChunks P (some base) ctx' cs := by
    rw [applyChunks, happly]
  have hpatch : patched base ctx.targetWritten ((c :: cs).flatMap (·.diff.getD [])) =
      patched base ctx.targetWritten diff ++
        patched base ctx'.targetWritten (cs.flatMap (·.diff.getD [])) := by
    rw [List.flatMap_cons, hdiff, Option.getD_some, patched_append, htarget]
  constructor
  · intro h
    have hout := h.out
    rw [hcons, List.flatMap_cons, hpatch, List.append_cancel_left_eq] at hout
    refine ⟨hout, fun r hr => h.counters r ?_⟩
    rw [hcons]
    exact List.mem_cons_of_mem _ hr
  · intro h
    refine ⟨?_, fun r hr => ?_⟩
    · rw [hcons, List.flatMap_cons, hpatch, h.out]
    · rw [hcons] at hr
      cases List.mem_cons.mp hr with
      | inl heq =>
        rw [heq]
        exact hoffset
      | inr htail => exact h.counters r htail

theorem patches_from_iff (base : ℕ → UInt8) {ctx : DeltaCtx}
    (hcounters : ctx.patchOffset = ctx.targetWritten) (cs : List Chunk)
    (hlen : ctx.targetWritten + (cs.flatMap (·.diff.getD [])).length < P.sizeMod)
    (hret : ∀ r ∈ applyChunks P (some base) ctx cs, r.1.result = 0) :
    Patches P base ctx cs ↔ ∀ c ∈ cs, (c.diff.getD []).length ≤ c.outCapacity := by
  induction cs generalizing ctx with
  | nil =>
    constructor
    · intro _ c hc
      exact absurd hc List.not_mem_nil
    · intro _
      exact ⟨rfl, fun r hr => absurd hr List.not_mem_nil⟩
  | cons c cs ih =>
    have hresult := hret _ (List.mem_cons_self ..)
    cases deltaUpdateApplyChunk_cases (P := P) base ctx c with
    | inl hfails =>
      rw [hfails.1] at hresult
      cases hresult
    | inr hcopies =>
      obtain ⟨diff, hdiff, hneeded, happly⟩ := hcopies
      have hle := copyLen_le diff c.outCapacity
      rw [List.flatMap_cons, hdiff, Option.getD_some, List.length_append] at hlen
      have hoffset : (ctx.advance P c.needed diff.length).patchOffset =
          ctx.targetWritten + diff.length := by
        show P.toSize (ctx.patchOffset + diff.length) = _
        rw [hcounters, P.toSize_of_lt (by omega)]
      have htarget : (ctx.advance P c.needed diff.length).targetWritten =
          ctx.targetWritten + c.needed := P.toSize_of_lt (by omega)
      rw [List.forall_mem_cons, hdiff, Option.getD_some,
        ← copyLen_eq_length_iff diff c.outCapacity, ← hneeded]
      by_cases hall : c.needed = diff.length
      · have hsame : (ctx.advance P c.needed diff.length).patchOffset =
            (ctx.advance P c.needed diff.length).targetWritten := by
          rw [hoffset, htarget, hall]
        have hout := zipWith_baseIndices (P := P) base ctx diff (by omega)
        have hrest := @ih (ctx.advance P c.needed diff.length) hsame (by rw [htarget]; omega)
          (fun r hr => hret r (by
            rw [applyChunks, happly]
            exact List.mem_cons_of_mem _ hr))
        rw [and_iff_right hall, ← hrest]
        apply patches_cons_iff hdiff _ (htarget.trans (congrArg _ hall)) hsame
        · exact baseIndices P ctx c.needed
        · rw [happly, hall, hout]
      · -- the counters part at once
        constructor
        · intro h
          have hfirst := h.counters _ (List.mem_cons_self ..)
          rw [happly, hoffset, htarget] at hfirst
          omega
        · intro h
          exact absurd h.1 hall

/-- The calls patch as they should exactly when every chunk finds room for its output. -/
theorem delta_patches_iff (base : ℕ → UInt8) (baseSize : ℕ) (cs : List Chunk)
    (hlen : (cs.flatMap (·.diff.getD [])).length < P.sizeMod)
    (hret : ∀ r ∈ applyChunks P (some base) (deltaUpdateInit baseSize) cs, r.1.result = 0) :
    Patches P base (deltaUpdateInit baseSize) cs ↔
      ∀ c ∈ cs, (c.diff.getD []).length ≤ c.outCapacity := by
  apply patches_from_iff base rfl cs _ hret
  show 0 + _ < P.sizeMod
  rw [Nat.zero_add]
  exact hlen

theorem delta_patches_two_chunks :
    Patches platform32 (fun i => UInt8.ofNat i) (deltaUpdateInit 3)
      [⟨some [1, 2], true, 2, true⟩, ⟨some [3], true, 2, true⟩] :=
  (delta_patches_iff _ 3 _ (by decide) (by decide)).mpr (by decide)

/-- Of a chunk of two bytes one finds room, and the other is lost. -/
theorem not_delta_patches_small_buffer :
    ¬ Patches platform32 (fun i => UInt8.ofNat i) (deltaUpdateInit 3)
      [⟨some [1, 2], true, 1, true⟩] := by
  intro h
  have hout := h.out
  revert hout
  decide

end Calls

end ZephyrModem.Stream
