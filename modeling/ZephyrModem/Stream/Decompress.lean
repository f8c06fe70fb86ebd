import Mathlib.Data.Int.Notation
import Mathlib.Data.List.Basic
import ZephyrModem.Platform

/-!
# Stream decompression

`src/stream_decompress.c`. In the run-length mode 0x90 and a count repeat the byte put
out last; 0x90 before a zero, and as the last byte of the input, is a literal byte.
-/

namespace ZephyrModem.Stream

inductive CompressType where
  | none
  | rle
  | heatshrink
  | lz4
  deriving Repr, DecidableEq

structure DecompressCtx where
  algo : CompressType
  processedBytes : ℕ
  deriving Repr, DecidableEq

def streamDecompressInit (algo : CompressType) : DecompressCtx := ⟨algo, 0⟩

/-- The inner loop: `val` goes out up to `count` times, as long as there is room. -/
def repeatLoop (outCapacity : ℕ) (val : UInt8) : ℕ → List UInt8 → List UInt8
  | 0, out => out
  | count + 1, out =>
    if out.length < outCapacity then repeatLoop outCapacity val count (out ++ [val]) else out

/-- The loop on the rest of the input, `out` being what the output buffer holds. -/
def rleLoop (outCapacity : ℕ) : List UInt8 → List UInt8 → List UInt8
  | [], out => out
  | [b], out => if out.length < outCapacity then out ++ [b] else out
  | b :: count :: rest, out =>
    if out.length < outCapacity then
      if b = 0x90 ∧ count ≠ 0 then
        rleLoop outCapacity rest (repeatLoop outCapacity (out.getLastD 0) count.toNat out)
      else rleLoop outCapacity (count :: rest) (out ++ [b])
    else out

/-- The arguments of a call; `outBuf` and `outProduced` are false for a NULL pointer. -/
structure ProcessCall where
  inBuf : Option (List UInt8)
  outBuf : Bool
  outCapacity : ℕ
  outProduced : Bool
  deriving Repr, DecidableEq

section Calls

variable (P : Platform)

/-- `stream_decompress_process`: the result and the bytes put out. -/
def streamDecompressProcess (ctx : DecompressCtx) (call : ProcessCall) :
    ℤ × List UInt8 × DecompressCtx :=
  match call.inBuf with
  | none => (-1, [], ctx)
  | some input =>
    if call.outBuf = false ∨ call.outProduced = false then (-1, [], ctx)
    else
      let out :=
        match ctx.algo with
        | .rle => rleLoop call.outCapacity input []
        | _ => input.take call.outCapacity
      (0, out, { ctx with processedBytes := P.toSize (ctx.processedBytes + out.length) })

def processAll : DecompressCtx → List ProcessCall → List (ℤ × List UInt8)
  | _, [] => []
  | ctx, c :: cs =>
    ((streamDecompressProcess P ctx c).1, (streamDecompressProcess P ctx c).2.1) ::
      processAll (streamDecompressProcess P ctx c).2.2 cs

end Calls

/-! ### The codes of an input -/

inductive Token where
  | literal (b : UInt8)
  | repeats (count : UInt8)
  deriving Repr, DecidableEq

def tokens : List UInt8 → List Token
  | [] => []
  | [b] => [.literal b]
  | b :: count :: rest =>
    if b = 0x90 ∧ count ≠ 0 then .repeats count :: tokens rest
    else .literal b :: tokens (count :: rest)

/-- What codes stand for behind the byte `v`. -/
def expand : UInt8 → List Token → List UInt8
  | _, [] => []
  | _, .literal b :: ts => b :: expand b ts
  | v, .repeats count :: ts => List.replicate count.toNat v ++ expand v ts

/-- The byte that a repeat code behind these codes would repeat. -/
def lastByte : UInt8 → List Token → UInt8
  | v, [] => v
  | _, .literal b :: ts => lastByte b ts
  | v, .repeats _ :: ts => lastByte v ts

def expandedLength : List Token → ℕ
  | [] => 0
  | .literal _ :: ts => 1 + expandedLength ts
  | .repeats count :: ts => count.toNat + expandedLength ts

theorem length_expand (v : UInt8) (ts : List Token) : (expand v ts).length = expandedLength ts := by
  induction ts generalizing v with
  | nil => rfl
  | cons t ts ih =>
    cases t with
    | literal b =>
      rw [expand, expandedLength, List.length_cons, ih]
      omega
    | repeats count =>
      rw [expand, expandedLength, List.length_append, List.length_replicate, ih]

theorem expand_append (v : UInt8) (ts us : List Token) :
    expand v (ts ++ us) = expand v ts ++ expand (lastByte v ts) us := by
  induction ts generalizing v with
  | nil => rfl
  | cons t ts ih =>
    cases t with
    | literal b => exact congrArg (List.cons b) (ih b)
    | repeats count =>
      rw [List.cons_append, expand, ih, expand, lastByte, List.append_assoc]

theorem lastByte_append (v : UInt8) (ts us : List Token) :
    lastByte v (ts ++ us) = lastByte (lastByte v ts) us := by
  induction ts generalizing v with
  | nil => rfl
  | cons t ts ih =>
    cases t with
    | literal b => exact ih b
    | repeats count => exact ih v

/-! ### The loops put out what the codes stand for -/

theorem repeatLoop_eq (cap : ℕ) (v : UInt8) (count : ℕ) (out : List UInt8)
    (hout : out.length ≤ cap) :
    repeatLoop cap v count out = (out ++ List.replicate count v).take cap := by
  induction count generalizing out with
  | zero =>
    rw [repeatLoop, List.replicate_zero, List.append_nil, List.take_of_length_le hout]
  | succ count ih =>
    rw [repeatLoop]
    by_cases hroom : out.length < cap
    · rw [if_pos hroom, ih, List.append_assoc]
      · rfl
      · rw [List.length_append]
        exact hroom
    · have hfull : cap = out.length := by omega
      rw [if_neg hroom, hfull, List.take_left']
      rfl

theorem getLastD_append_replicate (out : List UInt8) (v : UInt8) {count : ℕ} (h : count ≠ 0) :
    (out ++ List.replicate count v).getLastD 0 = v := by
  obtain ⟨k, rfl⟩ := Nat.exists_eq_succ_of_ne_zero h
  rw [List.replicate_succ', ← List.append_assoc, List.getLastD_concat]

theorem toNat_ne_zero {b : UInt8} (h : b ≠ 0) : b.toNat ≠ 0 :=
  fun hz => h (UInt8.toNat_inj.mp hz)

theorem rleLoop_full (cap : ℕ) (input more : List UInt8) {out : List UInt8}
    (h : out.length = cap) : rleLoop cap input out = (out ++ more).take cap := by
  have hno : ¬ out.length < cap := by omega
  rw [List.take_left' h]
  match input with
  | [] => rfl
  | [_] => rw [rleLoop, if_neg hno]
  | _ :: _ :: _ => rw [rleLoop, if_neg hno]

/-- The loop puts out what the codes stand for, as far as there is room. -/
theorem rleLoop_eq (cap : ℕ) (input out : List UInt8) (hout : out.length ≤ cap) :
    rleLoop cap input out = (out ++ expand (out.getLastD 0) (tokens input)).take cap := by
  induction input using tokens.induct generalizing out with
  | case1 => rw [rleLoop, tokens, expand, List.append_nil, List.take_of_length_le hout]
  | case2 b =>
    by_cases hroom : out.length < cap
    · rw [rleLoop, if_pos hroom, tokens, expand, expand, List.take_of_length_le]
      rw [List.length_append]
      exact hroom
    · exact rleLoop_full cap _ _ (by omega)
  | case3 b count rest hcode ih =>
    by_cases hroom : out.length < cap
    · rw [rleLoop, if_pos hroom, if_pos hcode, tokens, if_pos hcode, expand,
        repeatLoop_eq cap _ _ out hout]
      by_cases hfits : (out ++ List.replicate count.toNat (out.getLastD 0)).length ≤ cap
      · rw [List.take_of_length_le hfits, ih _ hfits,
          getLastD_append_replicate out _ (toNat_ne_zero hcode.2), List.append_assoc]
      · -- the run fills the buffer, and nothing behind it goes out
        have hle := Nat.le_of_not_le hfits
        rw [rleLoop_full cap rest [] (List.length_take_of_le hle), List.append_nil,
          List.take_take, Nat.min_self, ← List.append_assoc, List.take_append_of_le_length hle]
    · exact rleLoop_full cap _ _ (by omega)
  | case4 b count rest hcode ih =>
    by_cases hroom : out.length < cap
    · have hnext : (out ++ [b]).length ≤ cap := by
        rw [List.length_append]
        exact hroom
      rw [rleLoop, if_pos hroom, if_neg hcode, tokens, if_neg hcode, expand, ih _ hnext,
        List.getLastD_concat, List.append_assoc]
      rfl
    · exact rleLoop_full cap _ _ (by omega)

def decoded (input : List UInt8) : List UInt8 := expand 0 (tokens input)

theorem rleLoop_decoded (cap : ℕ) (input : List UInt8) :
    rleLoop cap input [] = (decoded input).take cap := by
  rw [rleLoop_eq cap input [] (Nat.zero_le cap)]
  rfl

theorem length_decoded (input : List UInt8) :
    (decoded input).length = expandedLength (tokens input) := length_expand 0 (tokens input)

section Calls

variable (P : Platform)

/-- The output of one call in the run-length mode from a fresh context. -/
def singleOutput (input : List UInt8) (outCapacity : ℕ) : List UInt8 :=
  (streamDecompressProcess P (streamDecompressInit .rle) ⟨some input, true, outCapacity, true⟩).2.1

theorem singleOutput_eq (input : List UInt8) (cap : ℕ) :
    singleOutput P input cap = (decoded input).take cap := rleLoop_decoded cap input

/-- What a call puts out when it succeeds. -/
def ProcessCall.output (c : ProcessCall) : List UInt8 :=
  (decoded (c.inBuf.getD [])).take c.outCapacity

theorem streamDecompressProcess_ok {ctx : DecompressCtx} (halgo : ctx.algo = .rle)
    {c : ProcessCall} (hok : (streamDecompressProcess P ctx c).1 = 0) :
    (streamDecompressProcess P ctx c).2.1 = c.output ∧
      (streamDecompressProcess P ctx c).2.2.algo = .rle := by
  unfold streamDecompressProcess at hok ⊢
  unfold ProcessCall.output
  cases hinput : c.inBuf with
  | none =>
    rw [hinput] at hok
    cases hok
  | some input =>
    rw [hinput] at hok
    by_cases hnull : c.outBuf = false ∨ c.outProduced = false
    · simp only [if_pos hnull] at hok
      cases hok
    · simp only [if_neg hnull, halgo]
      exact ⟨rleLoop_decoded c.outCapacity input, trivial⟩

theorem processAll_output {ctx : DecompressCtx} (halgo : ctx.algo = .rle)
    (calls : List ProcessCall) (hret : ∀ r ∈ processAll P ctx calls, r.1 = 0) :
    (processAll P ctx calls).flatMap Prod.snd = calls.flatMap ProcessCall.output := by
  induction calls generalizing ctx with
  | nil => rfl
  | cons c calls ih =>
    obtain ⟨hout, halgo'⟩ := streamDecompressProcess_ok P halgo (hret _ (List.mem_cons_self ..))
    have hrest := ih halgo' (fun r hr => hret r (List.mem_cons_of_mem _ hr))
    rw [processAll, List.flatMap_cons, List.flatMap_cons, hrest, ← hout]

end Calls

end ZephyrModem.Stream
