import ZephyrModem.Transfer.Completeness
import ZephyrModem.Zmodem.Model

/-!
# Complete files in `zmodem_receive`

A ZEOF ends a file whatever was received of it, and its position is not read.
What is reported as received well is complete exactly when the subpackets before
each ZEOF add up to the announced size and the ZEOF says so.
-/

namespace ZephyrModem.Zmodem
open ZephyrModem.Reactive ZephyrModem.Transfer

section Runs

variable {υ : Type} (P : Platform) (crc : CrcService) (stale : List Byte → List Byte)

/-- The length of the subpacket of a file that a read completes. -/
def acceptedSubpacket (s : RxState υ) (r : Read) : Option ℕ :=
  match s.site with
  | .data _ isCrc32 p =>
    match readSubpacketRx crc 1024 isCrc32 p r with
    | .done (some (sub, _)) => some sub.length
    | _ => none
  | _ => none

theorem acceptedSubpacket_eq_some_iff (s : RxState υ) (r : Read) (b : ℕ) :
    acceptedSubpacket crc s r = some b ↔
      ∃ f c p sub ender, s.site = .data f c p ∧
        readSubpacketRx crc 1024 c p r = .done (some (sub, ender)) ∧ b = sub.length := by
  unfold acceptedSubpacket
  constructor
  · intro h
    split at h
    · rename_i f c p hsite
      split at h
      · rename_i sub ender hr
        exact ⟨f, c, p, sub, ender, hsite, hr, (Option.some.inj h).symm⟩
      · cases h
    · cases h
  · rintro ⟨f, c, p, sub, ender, hsite, hr, rfl⟩
    simp only [hsite, hr]

/-- The lengths of the subpackets received for the file in progress, from the
history. -/
def subpacketsStep (ls : List ℕ) (v : RxState υ × Read) : List ℕ :=
  match v.1.site.file with
  | none => []
  | some _ => ls ++ (acceptedSubpacket crc v.1 v.2).toList

def subpacketsOf (vs : List (RxState υ × Read)) : List ℕ := vs.foldl (subpacketsStep crc) []

theorem subpacketsOf_snoc (vs : List (RxState υ × Read)) (v : RxState υ × Read) :
    subpacketsOf crc (vs ++ [v]) = subpacketsStep crc (subpacketsOf crc vs) v := by
  simp [subpacketsOf]

/-- The log of a file in progress agrees with the subpackets of the history. -/
def Tracks (vs : List (RxState υ × Read)) (es : List (Event Status))
    (n : Next (RxState υ) Status) : Prop :=
  ∀ s, n = .wait s → ∀ f, s.site.file = some f → storedLen es = (subpacketsOf crc vs).sum

variable (start : FileInfo → υ → ℤ × υ) (data : List Byte → ℕ → ℕ → υ → ℤ × υ)
  (finish : FileInfo → Status → υ → υ)

theorem storedLen_callData (es : List (Event Status)) (buf : List Byte) (offset : ℕ) (u : υ) :
    storedLen (es ++ (callData (fileCallbacks start data finish) buf buf.length offset u).1) =
      storedLen es + buf.length := by
  unfold callData
  simp only [fileCallbacks]
  split
  · simp [storedLen_append, storedStep]
  · rw [List.append_nil]
    omega

theorem tracks_step (vs : List (RxState υ × Read)) (es : List (Event Status)) (s : RxState υ)
    (r : Read) (h : Tracks crc vs es (.wait s)) :
    Tracks crc (vs ++ [(s, r)])
      (es ++ (receiveStep P crc stale (fileCallbacks start data finish) s r).events)
      (receiveStep P crc stale (fileCallbacks start data finish) s r).next := by
  intro t ht f hf
  rw [subpacketsOf_snoc]
  cases hb : acceptedSubpacket crc s r with
  | some b =>
    obtain ⟨g, c, p, sub, ender, hsite, hr, rfl⟩ := (acceptedSubpacket_eq_some_iff crc s r b).mp hb
    have hlens : subpacketsStep crc (subpacketsOf crc vs) (s, r) =
        subpacketsOf crc vs ++ [sub.length] := by
      simp [subpacketsStep, hb, hsite, RxSite.file]
    have hstep : receiveStep P crc stale (fileCallbacks start data finish) s r =
        onData P (fileCallbacks start data finish) g c s.userData (some (sub, ender)) := by
      simp only [receiveStep, hsite, hr, continueAt]
    rw [hstep, onData_some, hlens, storedLen_callData, h s rfl g (by rw [hsite]; rfl)]
    simp
  | none =>
    have hkeep : ∀ g, s.site.file = some g →
        storedLen es = (subpacketsStep crc (subpacketsOf crc vs) (s, r)).sum := by
      intro g hg
      rw [h s rfl g hg]
      simp [subpacketsStep, hg, hb]
    rcases receiveStep_cases P crc stale (fileCallbacks start data finish) s r with
      ⟨site, hnext, he⟩ | ⟨hs, a, -, -, he⟩ | ⟨c, p, a, hsite, -, he⟩ | ⟨g, hs, a, hsite, -, he⟩ |
      ⟨g, c, p, a, hsite, hr, he⟩ <;> rw [he] at ht ⊢
    · cases ht
      rw [rxAt, List.append_nil]
      exact hkeep f (hnext.file_eq crc ▸ hf)
    · rcases onHeader_cases crc s.userData a with ⟨st, -, h'⟩ | ⟨ws, -, h'⟩ |
        ⟨ws, site, -, hnone, h'⟩ <;> rw [h'] at ht <;> cases ht
      rw [hnone] at hf
      cases hf
    · cases a with
      | none => cases ht
      | some a =>
        have hnil : subpacketsStep crc (subpacketsOf crc vs) (s, r) = [] := by
          simp [subpacketsStep, hsite, RxSite.file]
        rw [hnil]
        simp [onFileInfo, callFileStart, fileCallbacks, storedLen_append, storedStep,
          foldl_storedStep_writes (writes_writeBytes _), sendHexHeader]
    · rcases onFileHeader_cases crc (fileCallbacks start data finish) g s.userData a with
        ⟨st, -, -, h'⟩ | ⟨hd, -, -, h'⟩ | ⟨hd, ws, -, -, -, h'⟩ | ⟨site, -, h'⟩ <;> rw [h'] at ht <;> cases ht
      · cases hf
      · rw [h', rxAt, List.append_nil]
        exact hkeep g (by rw [hsite]; rfl)
    · cases a with
      | none => cases ht
      | some a =>
        rw [(acceptedSubpacket_eq_some_iff crc s r a.1.length).mpr
          ⟨g, c, p, a.1, a.2, hsite, hr, rfl⟩] at hb
        cases hb

theorem tracks_run (userData : υ) (reads : List Read) :
    Tracks crc
      (visits (receiveStep P crc stale (fileCallbacks start data finish))
        (zmodemReceive crc userData).next reads)
      (run (receiveStep P crc stale (fileCallbacks start data finish))
        (zmodemReceive crc userData).next reads).events
      (run (receiveStep P crc stale (fileCallbacks start data finish))
        (zmodemReceive crc userData).next reads).next := by
  refine history_invariant _ (Tracks crc) (tracks_step P crc stale start data finish) _ reads ?_
  intro s hs f hf
  cases hs
  cases hf

/-! ### Files that end -/

def headerPos (hd : Header) : ℕ :=
  (hd.flags.getD 0 0).toNat + (hd.flags.getD 1 0).toNat * 2 ^ 8 +
    (hd.flags.getD 2 0).toNat * 2 ^ 16 + (hd.flags.getD 3 0).toNat * 2 ^ 24

section Ends

variable (cbs : RxCallbacks υ) (userData : υ) (reads : List Read)

/-- At every ZEOF of a file with an announced size, the position is the number of
bytes handed to `on_data`. -/
def PositionsMatch : Prop :=
  ∀ pre r post s f hd, reads = pre ++ r :: post →
    (run (receiveStep P crc stale cbs) (zmodemReceive crc userData).next pre).next = .wait s →
    AcceptsZeof crc s r f hd → 0 < f.info.size →
    headerPos hd = storedLen
      (run (receiveStep P crc stale cbs) (zmodemReceive crc userData).next pre).events

/-- At every ZEOF of a file with an announced size, the subpackets received for
that file add up to the size, and the position is the size. -/
def EndsFilled : Prop :=
  ∀ pre r post s f hd, reads = pre ++ r :: post →
    (run (receiveStep P crc stale cbs) (zmodemReceive crc userData).next pre).next = .wait s →
    AcceptsZeof crc s r f hd → 0 < f.info.size →
    (subpacketsOf crc
      (visits (receiveStep P crc stale cbs) (zmodemReceive crc userData).next pre)).sum =
        f.info.size ∧ headerPos hd = f.info.size

end Ends

theorem onFileEnd_ok_site {s : RxState υ} {r : Read} {info : FileInfo}
    (h : .onFileEnd info .ok ∈
      (receiveStep P crc stale (fileCallbacks start data finish) s r).events) :
    ∃ f hd, AcceptsZeof crc s r f hd := by
  rcases mem_receiveStep_events P crc stale _ h with ⟨b, he⟩ | ⟨info, st, hst, he⟩ |
    ⟨f, hd, hz, -, -⟩ | ⟨c, p, a, res, -, -, he⟩ | ⟨f, c, p, sub, ender, g, -, -, -, -, he⟩
  · cases he
  · cases he
    exact absurd rfl hst
  · exact ⟨f, hd, hz⟩
  · cases he
  · cases he

/-- No truncated file is reported complete, exactly when each end of a file comes
after all of it and says so. -/
theorem reportsComplete_iff (userData : υ) (reads : List Read) :
    (ReportsComplete .ok
        (received P crc stale (fileCallbacks start data finish) userData reads).events ∧
      PositionsMatch P crc stale (fileCallbacks start data finish) userData reads) ↔
      EndsFilled P crc stale (fileCallbacks start data finish) userData reads := by
  have hsum : ∀ {pre s f}, (run (receiveStep P crc stale (fileCallbacks start data finish))
      (zmodemReceive crc userData).next pre).next = .wait s → s.site.file = some f →
      storedLen (run (receiveStep P crc stale (fileCallbacks start data finish))
        (zmodemReceive crc userData).next pre).events =
      (subpacketsOf crc (visits (receiveStep P crc stale (fileCallbacks start data finish))
        (zmodemReceive crc userData).next pre)).sum := by
    intro pre s f hpre hf
    exact tracks_run P crc stale start data finish userData pre s hpre f hf
  have hfile : ∀ {s : RxState υ} {r f hd}, AcceptsZeof crc s r f hd → s.site.file = some f := by
    rintro s r f hd ⟨hs, hsite, -, -⟩
    rw [hsite]
    rfl
  have hopening : Writes (zmodemReceive crc userData).events := writes_writeBytes _
  rw [received, Out.after_events, reportsComplete_append_writes hopening]
  constructor
  · rintro ⟨hcomplete, hmatch⟩ pre r post s f hd hreads hpre hz hpos
    have hlog := run_events_eq (receiveStep P crc stale (fileCallbacks start data finish)) post hpre
      (acceptsZeof_call P crc stale _ (Option.some_ne_none finish) hz)
    rw [← hreads, List.append_nil] at hlog
    have hstored := hcomplete _ f.info _ hlog hpos
    have hposition := hmatch pre r post s f hd hreads hpre hz hpos
    rw [← hsum hpre (hfile hz)]
    exact ⟨hstored, hposition.trans hstored⟩
  · intro h
    refine ⟨?_, ?_⟩
    · intro pre info post hlog hpos
      obtain ⟨init, r, rest, s, a, b, hreads, hinit, hstep, rfl⟩ := exists_of_events_eq _ hlog
      have hin : .onFileEnd info .ok ∈
          (receiveStep P crc stale (fileCallbacks start data finish) s r).events := by
        rw [hstep]
        simp
      obtain ⟨f, hd, hz⟩ := onFileEnd_ok_site P crc stale start data finish hin
      rw [acceptsZeof_call P crc stale _ (Option.some_ne_none finish) hz] at hstep
      obtain ⟨rfl, rfl⟩ := onFileEnd_split writes_nil (writes_writeBytes _) hstep
      rw [List.append_nil]
      exact (hsum hinit (hfile hz)).trans (h init r rest s f hd hreads hinit hz hpos).1
    · intro pre r post s f hd hreads hpre hz hpos
      obtain ⟨hlens, hposition⟩ := h pre r post s f hd hreads hpre hz hpos
      rw [hposition, hsum hpre (hfile hz), hlens]

end Runs

end ZephyrModem.Zmodem
