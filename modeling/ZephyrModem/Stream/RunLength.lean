import Mathlib.Data.List.Chain
import ZephyrModem.Stream.Decompress

/-!
# The run-length format

Which files it can represent, and which divisions of an encoded file into calls come to
the same as one call.
-/

namespace ZephyrModem.Stream

/-! ### What can be represented -/

/-- Every 0x90 is followed by a zero or is the last byte. -/
def ZeroAfterEscape (s : List UInt8) : Prop := s.IsChain (fun a b => a = 0x90 → b = 0)

instance (s : List UInt8) : Decidable (ZeroAfterEscape s) :=
  inferInstanceAs (Decidable (List.IsChain _ s))

theorem ZeroAfterEscape.cons_of_ne {b : UInt8} {s : List UInt8} (hb : b ≠ 0x90)
    (h : ZeroAfterEscape s) : ZeroAfterEscape (b :: s) :=
  h.cons (fun _ _ heq => absurd heq hb)

theorem ZeroAfterEscape.replicate_append {b : UInt8} {s : List UInt8} (hb : b ≠ 0x90) (n : ℕ)
    (h : ZeroAfterEscape s) : ZeroAfterEscape (List.replicate n b ++ s) := by
  induction n with
  | zero => exact h
  | succ n ih => exact ih.cons_of_ne hb

theorem tokens_cons_of_ne {b : UInt8} (hb : b ≠ 0x90) (rest : List UInt8) :
    tokens (b :: rest) = .literal b :: tokens rest := by
  cases rest with
  | nil => rfl
  | cons c rest => rw [tokens, if_neg (fun h => hb h.1)]

theorem tokens_escape_zero (rest : List UInt8) :
    tokens (0x90 :: 0 :: rest) = .literal 0x90 :: .literal 0 :: tokens rest := by
  rw [tokens, if_neg (fun h => h.2 rfl), tokens_cons_of_ne (by decide)]

theorem tokens_code {count : UInt8} (h : count ≠ 0) (rest : List UInt8) :
    tokens (0x90 :: count :: rest) = .repeats count :: tokens rest := by
  rw [tokens, if_pos ⟨rfl, h⟩]

theorem zeroAfterEscape_expand (input : List UInt8) {v : UInt8} (hv : v ≠ 0x90) :
    ZeroAfterEscape (expand v (tokens input)) := by
  induction input using tokens.induct generalizing v with
  | case1 => exact .nil
  | case2 b => exact .singleton b
  | case3 b count rest hcode ih =>
    rw [tokens, if_pos hcode]
    exact (ih hv).replicate_append hv count.toNat
  | case4 b count rest hcode ih =>
    rw [tokens, if_neg hcode, expand]
    by_cases hb : b = 0x90
    · -- the byte behind a literal 0x90 is a zero, which no longer depends on what precedes it
      have hzero : count = 0 := by
        by_contra hne
        exact hcode ⟨hb, hne⟩
      subst hzero
      have hrest := ih (v := 0) (by decide)
      rw [tokens_cons_of_ne (by decide)] at hrest ⊢
      exact hrest.cons (fun y hy _ => (Option.some.inj hy).symm)
    · exact (ih hb).cons_of_ne hb

theorem expand_of_zeroAfterEscape {s : List UInt8} (h : ZeroAfterEscape s) (v : UInt8) :
    expand v (tokens s) = s := by
  induction s using tokens.induct generalizing v with
  | case1 => rfl
  | case2 b => rfl
  | case3 b count rest hcode ih =>
    have hzero := (List.isChain_cons_cons.mp h).1 hcode.1
    exact absurd hzero hcode.2
  | case4 b count rest hcode ih =>
    rw [tokens, if_neg hcode, expand, ih (List.isChain_cons_cons.mp h).2]

/-- The files that have an encoding, with room enough for what it stands for; with less
room nothing else comes out either. -/
theorem representable_iff (P : Platform) (s : List UInt8) :
    ((∃ e, ∀ cap, s.length ≤ cap → singleOutput P e cap = s) ↔ ZeroAfterEscape s) ∧
      ∀ e cap, singleOutput P e cap = s → ZeroAfterEscape s := by
  have hany : ∀ e cap, singleOutput P e cap = s → ZeroAfterEscape s := by
    intro e cap hout
    rw [singleOutput_eq] at hout
    rw [← hout]
    exact (zeroAfterEscape_expand e (by decide)).take cap
  refine ⟨⟨?_, ?_⟩, hany⟩
  · intro h
    obtain ⟨e, he⟩ := h
    exact hany e s.length (he s.length (Nat.le_refl _))
  · intro h
    refine ⟨s, fun cap hcap => ?_⟩
    rw [singleOutput_eq, decoded, expand_of_zeroAfterEscape h, List.take_of_length_le hcap]

/-- No input at all decodes to 0x90, 0x41. -/
theorem not_representable_escape :
    ¬ ∃ e, ∀ cap, 2 ≤ cap → singleOutput platform32 e cap = [0x90, 0x41] := by
  intro h
  obtain ⟨e, he⟩ := h
  have hout := he 2 (Nat.le_refl 2)
  rw [singleOutput_eq] at hout
  have hzero : ZeroAfterEscape ((decoded e).take 2) := (zeroAfterEscape_expand e (by decide)).take 2
  rw [hout] at hzero
  revert hzero
  decide

/-! ### Cutting an encoded file -/

/-- No code reaches over the end of `s`, whatever follows. -/
def Closed (s : List UInt8) : Prop := ∀ rest, tokens (s ++ rest) = tokens s ++ tokens rest

theorem closed_or_open (s : List UInt8) :
    (Closed s ∧ lastByte 0 (tokens s) ≠ 0x90) ∨
      ∃ l, s = l ++ [0x90] ∧ Closed l ∧ lastByte 0 (tokens l) ≠ 0x90 := by
  induction s using List.reverseRecOn with
  | nil => exact .inl ⟨fun _ => rfl, by decide⟩
  | append_singleton s b ih =>
    cases ih with
    | inl hclosed =>
      obtain ⟨hclosed, hlast⟩ := hclosed
      by_cases hb : b = 0x90
      · exact .inr ⟨s, by rw [hb], hclosed, hlast⟩
      · have htokens : tokens (s ++ [b]) = tokens s ++ [.literal b] := hclosed [b]
        refine .inl ⟨fun rest => ?_, ?_⟩
        · rw [htokens, List.append_assoc, hclosed, List.append_assoc]
          exact congrArg _ (tokens_cons_of_ne hb rest)
        · rw [htokens, lastByte_append]
          exact hb
    | inr hopen =>
      obtain ⟨l, rfl, hclosed, hlast⟩ := hopen
      have hrest : ∀ rest, tokens (l ++ [0x90] ++ [b] ++ rest) =
          tokens l ++ tokens (0x90 :: b :: rest) := by
        intro rest
        rw [List.append_assoc, List.append_assoc, hclosed]
        rfl
      have htokens : tokens (l ++ [0x90] ++ [b]) = tokens l ++ tokens [0x90, b] := by
        have := hrest []
        rwa [List.append_nil] at this
      by_cases hzero : b = 0
      · subst hzero
        refine .inl ⟨fun rest => ?_, ?_⟩
        · rw [hrest, htokens, tokens_escape_zero, tokens_escape_zero, List.append_assoc]
          rfl
        · rw [htokens, tokens_escape_zero, lastByte_append]
          exact (by decide : (0 : UInt8) ≠ 0x90)
      · refine .inl ⟨fun rest => ?_, ?_⟩
        · rw [hrest, htokens, tokens_code hzero, tokens_code hzero, List.append_assoc]
          rfl
        · rw [htokens, tokens_code hzero, lastByte_append]
          exact hlast

/-- A repeat code begins `s`. -/
def BeginsWithRepeat (s : List UInt8) : Prop := ∃ count ts, tokens s = .repeats count :: ts

theorem beginsWithRepeat_iff (s : List UInt8) :
    BeginsWithRepeat s ↔ ∃ count rest, s = 0x90 :: count :: rest ∧ count ≠ 0 := by
  constructor
  · intro h
    obtain ⟨count, ts, htokens⟩ := h
    match s with
    | [] => cases htokens
    | [_] => cases htokens
    | b :: c :: rest =>
      rw [tokens] at htokens
      split at htokens
      · rename_i hcode
        exact ⟨c, rest, by rw [hcode.1], hcode.2⟩
      · cases htokens
  · intro h
    obtain ⟨count, rest, heq, hne⟩ := h
    rw [heq]
    exact ⟨count, tokens rest, tokens_code hne rest⟩

/-- A place to cut: no code is cut in two, and a code behind the cut repeats what a new call
would repeat, a zero. -/
structure CleanCut (left right : List UInt8) : Prop where
  whole : tokens (left ++ right) = tokens left ++ tokens right
  carried : BeginsWithRepeat right → lastByte 0 (tokens left) = 0

theorem tokens_open_iff {l : List UInt8} (h : Closed l) (right : List UInt8) :
    tokens (l ++ [0x90] ++ right) = tokens (l ++ [0x90]) ++ tokens right ↔
      ∀ n ∈ right.head?, n = 0 := by
  rw [List.append_assoc, h, h [0x90], List.append_assoc, List.append_cancel_left_eq]
  cases right with
  | nil => exact ⟨fun _ _ hn => absurd hn (by simp), fun _ => rfl⟩
  | cons n r =>
    show tokens (0x90 :: n :: r) = _ ↔ _
    constructor
    · intro heq m hm
      by_contra hne
      have hm := Option.some.inj hm
      subst hm
      rw [tokens_code hne] at heq
      cases heq
    · intro hzero
      have hn : n = 0 := hzero n rfl
      subst hn
      rw [tokens_escape_zero, tokens_cons_of_ne (show (0 : UInt8) ≠ 0x90 by decide)]
      rfl

theorem expand_eq_of_not_repeat {s : List UInt8} (h : ¬ BeginsWithRepeat s) (v w : UInt8) :
    expand v (tokens s) = expand w (tokens s) := by
  cases htokens : tokens s with
  | nil => rfl
  | cons t ts =>
    cases t with
    | literal b => rfl
    | repeats count => exact absurd ⟨count, ts, htokens⟩ h

theorem CleanCut.decoded_append {left right : List UInt8} (h : CleanCut left right) :
    decoded (left ++ right) = decoded left ++ decoded right := by
  unfold decoded
  rw [h.whole, expand_append]
  congr 1
  by_cases hrepeat : BeginsWithRepeat right
  · rw [h.carried hrepeat]
  · exact expand_eq_of_not_repeat hrepeat _ _

theorem CleanCut.of_append {left right more : List UInt8} (h : CleanCut left (right ++ more)) :
    CleanCut left right where
  whole := by
    cases closed_or_open left with
    | inl hclosed => exact hclosed.1 right
    | inr hopen =>
      obtain ⟨l, rfl, hclosed, -⟩ := hopen
      have hwhole := (tokens_open_iff hclosed _).mp h.whole
      apply (tokens_open_iff hclosed right).mpr
      intro n hn
      apply hwhole n
      rw [List.head?_append, hn]
      rfl
  carried := by
    intro hrepeat
    apply h.carried
    obtain ⟨count, rest, heq, hne⟩ := (beginsWithRepeat_iff right).mp hrepeat
    rw [heq]
    exact (beginsWithRepeat_iff _).mpr ⟨count, rest ++ more, rfl, hne⟩

/-- If the whole decodes to what the left part decodes to and more, the cut is clean, unless
that more begins as no new call does. -/
theorem cleanCut_of_decoded {left right rest : List UInt8}
    (heq : decoded (left ++ right) = decoded left ++ rest)
    (hhead : ∀ b ∈ rest.head?, BeginsWithRepeat right → b = 0 ∨ b = 0x90) :
    CleanCut left right := by
  have hwhole : tokens (left ++ right) = tokens left ++ tokens right := by
    cases closed_or_open left with
    | inl hclosed => exact hclosed.1 right
    | inr hopen =>
      obtain ⟨l, rfl, hclosed, hlast⟩ := hopen
      apply (tokens_open_iff hclosed right).mpr
      intro n hn
      by_contra hne
      -- the whole goes on with the byte repeated, the part with 0x90
      obtain ⟨k, hk⟩ := Nat.exists_eq_succ_of_ne_zero (toNat_ne_zero hne)
      obtain ⟨r, rfl⟩ := List.head?_eq_some_iff.mp hn
      rw [List.append_assoc, decoded, decoded, hclosed, hclosed [0x90], List.singleton_append,
        tokens_code hne, expand_append, expand_append, List.append_assoc,
        List.append_cancel_left_eq, expand, hk, List.replicate_succ] at heq
      exact hlast (List.cons.inj heq).1
  refine ⟨hwhole, fun hrepeat => ?_⟩
  obtain ⟨count, r, hright, hne⟩ := (beginsWithRepeat_iff right).mp hrepeat
  obtain ⟨k, hk⟩ := Nat.exists_eq_succ_of_ne_zero (toNat_ne_zero hne)
  have hcode : tokens right = .repeats count :: tokens r := by rw [hright, tokens_code hne]
  rw [decoded, hwhole, expand_append, ← decoded, List.append_cancel_left_eq, hcode, expand, hk,
    List.replicate_succ] at heq
  have hfirst : rest.head? = some (lastByte 0 (tokens left)) := by
    rw [← heq]
    rfl
  cases hhead _ hfirst hrepeat with
  | inl hzero => exact hzero
  | inr hescape =>
    -- then `left` ends with the first byte of a code, and `right` begins with a zero
    cases closed_or_open left with
    | inl hclosed => exact absurd hescape hclosed.2
    | inr hopen =>
      obtain ⟨l, rfl, hclosed, -⟩ := hopen
      have hzero := (tokens_open_iff hclosed right).mp hwhole 0x90 (by rw [hright]; rfl)
      exact absurd hzero (by decide)

/-! ### Calls on one context -/

/-- Every place between two calls is a clean cut. -/
def CleanlyCut (chunks : List (List UInt8)) : Prop :=
  ∀ before after, chunks = before ++ after → CleanCut before.flatten after.flatten

def CleanlyCutFrom (left : List UInt8) (chunks : List (List UInt8)) : Prop :=
  ∀ before after, chunks = before ++ after → CleanCut (left ++ before.flatten) after.flatten

theorem cleanCut_nil (left : List UInt8) : CleanCut left [] where
  whole := by rw [List.append_nil, tokens, List.append_nil]
  carried := by
    intro h
    obtain ⟨count, ts, htokens⟩ := h
    cases htokens

theorem cleanlyCutFrom_cons (left c : List UInt8) (cs : List (List UInt8)) :
    CleanlyCutFrom left (c :: cs) ↔
      CleanCut left (c ++ cs.flatten) ∧ CleanlyCutFrom (left ++ c) cs := by
  constructor
  · intro h
    refine ⟨?_, fun before after heq => ?_⟩
    · have hfirst := h [] (c :: cs) rfl
      rwa [List.flatten_nil, List.append_nil] at hfirst
    · have hlater := h (c :: before) after (by rw [heq]; rfl)
      rwa [List.flatten_cons, ← List.append_assoc] at hlater
  · intro h before after heq
    cases before with
    | nil =>
      have hafter : after = c :: cs := heq.symm
      rw [hafter, List.flatten_nil, List.append_nil]
      exact h.1
    | cons c' before =>
      obtain ⟨rfl, hcs⟩ := List.cons.inj heq
      rw [List.flatten_cons, ← List.append_assoc]
      exact h.2 before after hcs

theorem head_decoded_chunks (chunks : List (List UInt8)) (h : BeginsWithRepeat chunks.flatten) :
    ∀ b ∈ (chunks.flatMap decoded).head?, b = 0 ∨ b = 0x90 := by
  induction chunks with
  | nil =>
    obtain ⟨count, ts, htokens⟩ := h
    cases htokens
  | cons c cs ih =>
    obtain ⟨count, rest, heq, hne⟩ := (beginsWithRepeat_iff _).mp h
    intro b hb
    match c with
    | [] => exact ih h b hb
    | [x] =>
      have hx : x = 0x90 := (List.cons.inj heq).1
      exact .inr ((Option.some.inj hb).symm.trans hx)
    | x :: y :: c =>
      obtain ⟨hx, htail⟩ := List.cons.inj heq
      have hy : y = count := (List.cons.inj htail).1
      obtain ⟨k, hk⟩ := Nat.exists_eq_succ_of_ne_zero (toNat_ne_zero hne)
      rw [List.flatMap_cons, decoded, hx, hy, tokens_code hne, expand, hk, List.replicate_succ]
        at hb
      exact .inl (Option.some.inj hb).symm

/-- Decoded one by one the chunks come to the whole exactly when the cuts are clean. -/
theorem decoded_chunks_iff (left : List UInt8) (chunks : List (List UInt8)) :
    decoded (left ++ chunks.flatten) = decoded left ++ chunks.flatMap decoded ↔
      CleanlyCutFrom left chunks := by
  induction chunks generalizing left with
  | nil =>
    constructor
    · intro _ before after heq
      obtain ⟨hbefore, hafter⟩ := List.append_eq_nil_iff.mp heq.symm
      rw [hbefore, hafter]
      exact cleanCut_nil _
    · intro _
      rw [List.flatten_nil, List.append_nil, List.flatMap_nil, List.append_nil]
  | cons c cs ih =>
    rw [cleanlyCutFrom_cons, ← ih, List.flatten_cons, List.flatMap_cons]
    constructor
    · intro heq
      have hcut : CleanCut left (c ++ cs.flatten) :=
        cleanCut_of_decoded heq (fun b hb hrepeat => head_decoded_chunks (c :: cs) hrepeat b hb)
      refine ⟨hcut, ?_⟩
      rw [hcut.of_append.decoded_append, List.append_assoc, List.append_assoc]
      exact heq
    · intro h
      have hrest := h.2
      rw [h.1.of_append.decoded_append, List.append_assoc, List.append_assoc] at hrest
      exact hrest

theorem cleanlyCut_iff (chunks : List (List UInt8)) :
    CleanlyCut chunks ↔ decoded chunks.flatten = chunks.flatMap decoded :=
  (decoded_chunks_iff [] chunks).symm

def inputs (calls : List ProcessCall) : List (List UInt8) := calls.map (·.inBuf.getD [])

theorem inputs_cons (c : ProcessCall) (calls : List ProcessCall) :
    inputs (c :: calls) = c.inBuf.getD [] :: inputs calls := rfl

/-- Every call has room for what its input stands for. -/
def RoomEnough (calls : List ProcessCall) : Prop :=
  ∀ c ∈ calls, expandedLength (tokens (c.inBuf.getD [])) ≤ c.outCapacity

instance (calls : List ProcessCall) : Decidable (RoomEnough calls) :=
  inferInstanceAs (Decidable (∀ c ∈ calls, _))

theorem length_flatMap_output_le (calls : List ProcessCall) :
    (calls.flatMap ProcessCall.output).length ≤
      ((inputs calls).flatMap decoded).length := by
  induction calls with
  | nil => exact Nat.le_refl 0
  | cons c calls ih =>
    rw [List.flatMap_cons, inputs_cons, List.flatMap_cons, List.length_append,
      List.length_append, ProcessCall.output, List.length_take]
    omega

theorem flatMap_output_iff (calls : List ProcessCall) :
    calls.flatMap ProcessCall.output = (inputs calls).flatMap decoded ↔
      RoomEnough calls := by
  induction calls with
  | nil => exact ⟨fun _ c hc => absurd hc List.not_mem_nil, fun _ => rfl⟩
  | cons c calls ih =>
    have hle := length_flatMap_output_le calls
    unfold RoomEnough at ih ⊢
    rw [List.forall_mem_cons, ← ih, ← length_decoded, List.flatMap_cons, inputs_cons,
      List.flatMap_cons, ProcessCall.output]
    constructor
    · intro heq
      have hroom : (decoded (c.inBuf.getD [])).length ≤ c.outCapacity := by
        have hlens := congrArg List.length heq
        rw [List.length_append, List.length_append, List.length_take] at hlens
        omega
      rw [List.take_of_length_le hroom, List.append_cancel_left_eq] at heq
      exact ⟨hroom, heq⟩
    · intro h
      rw [List.take_of_length_le h.1, h.2]

/-- The calls put out what one call on the whole puts out, exactly when the cuts are clean and
there is room enough; for each of the two conditions, when the other one holds. -/
theorem rle_chunking_iff (P : Platform) (calls : List ProcessCall)
    (hret : ∀ r ∈ processAll P (streamDecompressInit .rle) calls, r.1 = 0) (cap : ℕ)
    (hcap : expandedLength (tokens (inputs calls).flatten) ≤ cap) :
    (CleanlyCut (inputs calls) →
      ((processAll P (streamDecompressInit .rle) calls).flatMap Prod.snd =
          singleOutput P (inputs calls).flatten cap ↔ RoomEnough calls)) ∧
    (RoomEnough calls →
      ((processAll P (streamDecompressInit .rle) calls).flatMap Prod.snd =
          singleOutput P (inputs calls).flatten cap ↔ CleanlyCut (inputs calls))) := by
  rw [processAll_output P rfl calls hret, singleOutput_eq, List.take_of_length_le]
  · constructor
    · intro hclean
      rw [(cleanlyCut_iff _).mp hclean]
      exact flatMap_output_iff calls
    · intro hroom
      rw [cleanlyCut_iff, (flatMap_output_iff calls).mpr hroom]
      exact eq_comm
  · rw [length_decoded]
    exact hcap

theorem rle_chunking_two_calls :
    (processAll platform32 (streamDecompressInit .rle)
        [⟨some [0x41], true, 1, true⟩, ⟨some [0x42, 0x90, 0x03], true, 4, true⟩]).flatMap Prod.snd =
      singleOutput platform32 [0x41, 0x42, 0x90, 0x03] 5 := by
  have hroom : RoomEnough [⟨some [0x41], true, 1, true⟩,
      ⟨some [0x42, 0x90, 0x03], true, 4, true⟩] := by decide
  apply ((rle_chunking_iff platform32 [⟨some [0x41], true, 1, true⟩,
    ⟨some [0x42, 0x90, 0x03], true, 4, true⟩] (by decide) 5 (by decide)).2 hroom).mpr
  rw [cleanlyCut_iff]
  decide

/-- The repeat code of the second call repeats a zero, not the byte of the first. -/
theorem not_rle_chunking_split_run :
    ¬ (processAll platform32 (streamDecompressInit .rle)
        [⟨some [0x41], true, 1, true⟩, ⟨some [0x90, 0x03], true, 3, true⟩]).flatMap Prod.snd =
      singleOutput platform32 [0x41, 0x90, 0x03] 4 := by
  decide

/-- A cut inside a code can be made up for by a buffer that is too small. -/
example : (processAll platform32 (streamDecompressInit .rle)
      [⟨some [0x01, 0x90], true, 1, true⟩, ⟨some [0x01], true, 1, true⟩]).flatMap Prod.snd =
    singleOutput platform32 [0x01, 0x90, 0x01] 2 := by decide

end ZephyrModem.Stream
