import ZephyrModem.Zmodem.CallProtocol
import ZephyrModem.Zmodem.Completeness

/-!
# Where `zmodem_receive` puts the data of a file

A ZDATA header says where the subpackets under it belong. The receiver reads the
type of that header only and counts on: what it hands to `on_data` lands where
the header says exactly when the header repeats the count.
-/

namespace ZephyrModem.Zmodem
open ZephyrModem.Reactive ZephyrModem.Transfer

section Positions

variable {υ : Type} (P : Platform) (crc : CrcService) (stale : List Byte → List Byte)
  (cbs : RxCallbacks υ)

/-- The data frame that a subpacket of a file belongs to. -/
structure Frame where
  pos : ℕ      -- the position in the ZDATA header
  before : ℕ   -- the bytes of the file received before that header
  inside : ℕ   -- the bytes of the subpackets since
  deriving Repr, DecidableEq

def frameStep (fr : Frame) (v : RxState υ × Read) : Frame :=
  match v.1.site with
  | .header _ | .fileInfo .. => ⟨0, 0, 0⟩
  | .fileHeader _ h =>
    match readHeaderRx crc h v.2 with
    | .done (some hd) => if hd.type = zdata then ⟨headerPos hd, fr.before + fr.inside, 0⟩ else fr
    | _ => fr
  | .data .. => { fr with inside := fr.inside + (acceptedSubpacket crc v.1 v.2).getD 0 }

def frameOf (vs : List (RxState υ × Read)) : Frame := vs.foldl (frameStep crc) ⟨0, 0, 0⟩

theorem frameOf_snoc (vs : List (RxState υ × Read)) (v : RxState υ × Read) :
    frameOf crc (vs ++ [v]) = frameStep crc (frameOf crc vs) v := by
  rw [frameOf, List.foldl_append]
  rfl

theorem frameStep_fileHeader (fr : Frame) {s : RxState υ} {f : FileLocals} {h : HeaderSite}
    (hsite : s.site = .fileHeader f h) (r : Read) :
    (frameStep crc fr (s, r)).before + (frameStep crc fr (s, r)).inside = fr.before + fr.inside := by
  simp only [frameStep, hsite]
  cases readHeaderRx crc h r with
  | wait h' => rfl
  | done a =>
    cases a with
    | none => rfl
    | some hd =>
      by_cases hdata : hd.type = zdata
      · simp only [if_pos hdata]
        omega
      · simp only [if_neg hdata]

/-- `file_offset` counts the bytes received of the file, as a `size_t`. -/
def Counts (vs : List (RxState υ × Read)) (_ : List (Event Status))
    (n : Next (RxState υ) Status) : Prop :=
  ∀ s, n = .wait s → ∀ f, s.site.file = some f →
    f.fileOffset = P.toSize ((frameOf crc vs).before + (frameOf crc vs).inside)

theorem counts_step (vs : List (RxState υ × Read)) (es : List (Event Status)) (s : RxState υ)
    (r : Read) (h : Counts P crc vs es (.wait s)) :
    Counts P crc (vs ++ [(s, r)]) (es ++ (receiveStep P crc stale cbs s r).events)
      (receiveStep P crc stale cbs s r).next := by
  intro t ht f hf
  rw [frameOf_snoc]
  cases hb : acceptedSubpacket crc s r with
  | some b =>
    obtain ⟨g, c, p, sub, ender, hsite, hr, rfl⟩ := (acceptedSubpacket_eq_some_iff crc s r b).mp hb
    have hoffset := h s rfl g (by rw [hsite]; rfl)
    have hstep : receiveStep P crc stale cbs s r =
        onData P cbs g c s.userData (some (sub, ender)) := by
      simp only [receiveStep, hsite, hr, continueAt]
    rw [hstep, onData_some] at ht
    have hf' : f = { g with fileOffset := P.toSize (g.fileOffset + sub.length) } := by
      cases ht
      simp only at hf
      split at hf <;> exact (Option.some.inj hf).symm
    simp only [hf', hoffset, frameStep, hsite, hb, Option.getD_some, Platform.toSize,
      Nat.mod_add_mod, Nat.add_assoc]
  | none =>
    have hkeep : ∀ g, s.site.file = some g → g.fileOffset =
        P.toSize ((frameStep crc (frameOf crc vs) (s, r)).before +
          (frameStep crc (frameOf crc vs) (s, r)).inside) := by
      intro g hg
      rw [h s rfl g hg]
      cases hsite : s.site with
      | header hs => rw [hsite] at hg; cases hg
      | fileInfo c p => rw [hsite] at hg; cases hg
      | fileHeader g' hs => rw [frameStep_fileHeader crc _ hsite r]
      | data g' c p => simp only [frameStep, hsite, hb, Option.getD_none, Nat.add_zero]
    rcases receiveStep_cases P crc stale cbs s r with ⟨site, hnext, he⟩ | ⟨hs, a, -, -, he⟩ |
      ⟨c, p, a, hsite, -, he⟩ | ⟨g, hs, a, hsite, -, he⟩ | ⟨g, c, p, a, hsite, hr, he⟩ <;>
      rw [he] at ht
    · cases ht
      exact hkeep f (hnext.file_eq crc ▸ hf)
    · rcases onHeader_cases crc s.userData a with ⟨st, -, h'⟩ | ⟨ws, -, h'⟩ |
        ⟨ws, site, -, hnone, h'⟩ <;> rw [h'] at ht <;> cases ht
      rw [hnone] at hf
      cases hf
    · cases a with
      | none => cases ht
      | some a =>
        cases ht
        cases hf
        simp only [frameStep, hsite]
        rfl
    · rcases onFileHeader_cases crc cbs g s.userData a with ⟨st, -, -, h'⟩ | ⟨hd, -, -, h'⟩ |
        ⟨hd, ws, -, -, -, h'⟩ | ⟨site, hfile, h'⟩ <;> rw [h'] at ht <;> cases ht
      · cases hf
      · apply hkeep f
        rw [hsite]
        exact hfile.symm.trans hf
    · cases a with
      | none => cases ht
      | some a =>
        rw [(acceptedSubpacket_eq_some_iff crc s r a.1.length).mpr
          ⟨g, c, p, a.1, a.2, hsite, hr, rfl⟩] at hb
        cases hb

theorem counts_run (userData : υ) (reads : List Read) :
    Counts P crc
      (visits (receiveStep P crc stale cbs) (zmodemReceive crc userData).next reads)
      (run (receiveStep P crc stale cbs) (zmodemReceive crc userData).next reads).events
      (run (receiveStep P crc stale cbs) (zmodemReceive crc userData).next reads).next := by
  refine history_invariant _ (Counts P crc) (counts_step P crc stale cbs) _ reads ?_
  intro s hs f hf
  cases hs
  cases hf

/-! ### Placed and continued -/

variable (userData : υ) (reads : List Read)

/-- What `on_data` gets as offset: the position of the ZDATA header and what came since.
Data under any other position than the count is not handed over at the count. -/
def LandsAsPlaced : Prop :=
  ∀ pre r post s, reads = pre ++ r :: post →
    (run (receiveStep P crc stale cbs) (zmodemReceive crc userData).next pre).next = .wait s →
    ∀ sub len offset res,
      .onData sub len offset res ∈ (receiveStep P crc stale cbs s r).events →
      ∀ fr, fr = frameOf crc
          (visits (receiveStep P crc stale cbs) (zmodemReceive crc userData).next pre) →
        offset = fr.pos + fr.inside ∧ (fr.pos ≠ fr.before → offset ≠ fr.before + fr.inside)

/-- Each ZDATA header under which data comes in repeats the count of the bytes received,
and the offsets under it are `size_t`s. -/
def Continues : Prop :=
  ∀ pre r post s, reads = pre ++ r :: post →
    (run (receiveStep P crc stale cbs) (zmodemReceive crc userData).next pre).next = .wait s →
    ∀ n, acceptedSubpacket crc s r = some n → 0 < n → cbs.onData ≠ none →
      ∀ fr, fr = frameOf crc
          (visits (receiveStep P crc stale cbs) (zmodemReceive crc userData).next pre) →
        fr.pos = P.toSize fr.before ∧ fr.pos + fr.inside < P.sizeMod

theorem toSize_add_eq_iff {m n k : ℕ} :
    P.toSize (m + k) = n + k ↔ n = P.toSize m ∧ n + k < P.sizeMod := by
  constructor
  · intro h
    have hlt : n + k < P.sizeMod := h ▸ P.toSize_lt (m + k)
    refine ⟨?_, hlt⟩
    have hmod : m + k ≡ n + k [MOD P.sizeMod] := by
      rw [Nat.ModEq, Nat.mod_eq_of_lt hlt]
      exact h
    have hcancel : n % P.sizeMod = m % P.sizeMod := (Nat.ModEq.add_right_cancel' k hmod).symm
    rwa [Nat.mod_eq_of_lt (by omega)] at hcancel
  · rintro ⟨rfl, hlt⟩
    rw [← P.toSize_of_lt hlt, Platform.toSize, Platform.toSize, Platform.toSize, Nat.mod_add_mod]

/-- The data of a file lands where its sender placed it exactly when the headers go on from
what was received. -/
theorem landsAsPlaced_iff {υ : Type} (P : Platform) (crc : CrcService)
    (stale : List Byte → List Byte) (cbs : RxCallbacks υ) (userData : υ) (reads : List Read) :
    LandsAsPlaced P crc stale cbs userData reads ↔ Continues P crc stale cbs userData reads := by
  constructor
  · intro h pre r post s hreads hpre n hn hpos hdata fr hfr
    obtain ⟨f, c, p, sub, ender, hsite, hr, rfl⟩ := (acceptedSubpacket_eq_some_iff crc s r n).mp hn
    obtain ⟨g, hg⟩ := Option.ne_none_iff_exists'.mp hdata
    have hstep : receiveStep P crc stale cbs s r =
        onData P cbs f c s.userData (some (sub, ender)) := by
      simp only [receiveStep, hsite, hr, continueAt]
    have hcall : .onData sub sub.length f.fileOffset (g sub sub.length f.fileOffset s.userData).1 ∈
        (receiveStep P crc stale cbs s r).events := by
      rw [hstep, onData_some]
      exact (mem_callData_iff cbs _ _ _ _ _).mpr ⟨g, hg, hpos, rfl⟩
    have hlands := (h pre r post s hreads hpre _ _ _ _ hcall fr hfr).1
    have hcount := counts_run P crc stale cbs userData pre s hpre f (by rw [hsite]; rfl)
    rw [← hfr] at hcount
    exact (toSize_add_eq_iff P).mp (hcount.symm.trans hlands)
  · intro h pre r post s hreads hpre sub len offset res hcall fr hfr
    rcases mem_receiveStep_events P crc stale cbs hcall with ⟨b, he⟩ | ⟨info, st, -, he⟩ |
      ⟨f, hd, -, -, he⟩ | ⟨c, p, a, res', -, -, he⟩ |
      ⟨f, c, p, sub', ender, g, hsite, hr, hg, hpos, he⟩ <;> cases he
    have hn := (acceptedSubpacket_eq_some_iff crc s r sub.length).mpr
      ⟨f, c, p, sub, ender, hsite, hr, rfl⟩
    have hcount := counts_run P crc stale cbs userData pre s hpre f (by rw [hsite]; rfl)
    rw [← hfr] at hcount
    have hlands : f.fileOffset = fr.pos + fr.inside := by
      rw [hcount]
      exact (toSize_add_eq_iff P).mpr
        (h pre r post s hreads hpre sub.length hn hpos (by rw [hg]; simp) fr hfr)
    refine ⟨hlands, ?_⟩
    intro hne
    omega

end Positions

/-- A file whose only byte is sent from position 1. -/
def shiftedStream : List Byte :=
  binaryHeader referenceCrc zfile zeroFlags ++ subpacket referenceCrc [0x66, 0] zcrcw ++
    binaryHeader referenceCrc zdata (posFlags 1) ++ subpacket referenceCrc [0x41] zcrcw

set_option maxRecDepth 20000 in
/-- The byte at position 1 is handed over at offset 0. -/
theorem not_landsAsPlaced_shiftedStream :
    ¬ LandsAsPlaced platform32 referenceCrc id acceptingFiles () (shiftedStream.map .ok) := by
  intro h
  have hsplit : shiftedStream.map ReadResult.ok =
      (shiftedStream.take 30).map ReadResult.ok ++ .ok 211 :: [] := by
    decide
  have hpre : (run (receiveStep platform32 referenceCrc id acceptingFiles)
      (zmodemReceive referenceCrc ()).next ((shiftedStream.take 30).map .ok)).next =
        .wait ⟨.data ⟨⟨[0x66], 0⟩, 0⟩ false (.check [0x41] zcrcw [114] false), ()⟩ := by
    decide
  have hcall : .onData [0x41] 1 0 0 ∈ (receiveStep platform32 referenceCrc id acceptingFiles
      ⟨.data ⟨⟨[0x66], 0⟩, 0⟩ false (.check [0x41] zcrcw [114] false), ()⟩ (.ok 211)).events := by
    decide
  have hframe : (⟨1, 0, 0⟩ : Frame) = frameOf referenceCrc
      (visits (receiveStep platform32 referenceCrc id acceptingFiles)
        (zmodemReceive referenceCrc ()).next ((shiftedStream.take 30).map .ok)) := by
    decide
  have hlands := (h _ _ _ _ hsplit hpre _ _ _ _ hcall _ hframe).1
  exact absurd hlands (by decide)

end ZephyrModem.Zmodem
