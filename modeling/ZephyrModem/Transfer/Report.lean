import Mathlib.Data.List.Basic

/-!
# What a receiver reports about a batch of files

The callbacks of a batch receiver, with the data they hand over, and what it
means that they report a given batch completely: for each file, in order, its
start, chunks at contiguous offsets that make up its contents, and its end.
-/

namespace ZephyrModem.Transfer

structure File where
  name : List UInt8
  contents : List UInt8
  deriving Repr, DecidableEq

/-- A callback of the receiver. A chunk has the length passed to the callback and
the bytes found in the buffer, which are fewer if the length is too large. -/
inductive Call where
  | fileStart (name : List UInt8) (size : ℕ)
  | data (offset len : ℕ) (bytes : List UInt8)
  | fileEnd (name : List UInt8) (size : ℕ) (ok : Bool)
  deriving Repr, DecidableEq

/-- The chunks have contiguous offsets from `offset` and make up `contents`. -/
def Covers : ℕ → List Call → List UInt8 → Prop
  | _, [], contents => contents = []
  | offset, .data o len bytes :: cs, contents =>
    o = offset ∧ bytes.length = len ∧
      ∃ rest, contents = bytes ++ rest ∧ Covers (offset + len) cs rest
  | _, .fileStart .. :: _, _ => False
  | _, .fileEnd .. :: _, _ => False

/-- The calls report the files, in order, each completely and as received well. -/
def Reports : List File → List Call → Prop
  | [], cs => cs = []
  | f :: fs, cs => ∃ chunks rest,
    cs = .fileStart f.name f.contents.length :: (chunks ++
      .fileEnd f.name f.contents.length true :: rest) ∧
    Covers 0 chunks f.contents ∧ Reports fs rest

theorem Covers.nil (offset : ℕ) : Covers offset [] [] := rfl

theorem Covers.cons {offset len : ℕ} {bytes : List UInt8} {cs : List Call} {rest : List UInt8}
    (hlen : bytes.length = len) (h : Covers (offset + len) cs rest) :
    Covers offset (.data offset len bytes :: cs) (bytes ++ rest) :=
  ⟨rfl, hlen, rest, rfl, h⟩

theorem Reports.cons {f : File} {fs : List File} {chunks rest : List Call}
    (hf : Covers 0 chunks f.contents) (hfs : Reports fs rest) :
    Reports (f :: fs) (.fileStart f.name f.contents.length :: (chunks ++
      .fileEnd f.name f.contents.length true :: rest)) :=
  ⟨chunks, rest, rfl, hf, hfs⟩

end ZephyrModem.Transfer
