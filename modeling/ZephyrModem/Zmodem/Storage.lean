import ZephyrModem.Transfer.Storage
import ZephyrModem.Zmodem.Stream

/-!
# Storage failures in `zmodem_receive`

As in YMODEM, the results of `on_file_start` and `on_data` are not used.
-/

namespace ZephyrModem.Zmodem
open ZephyrModem.Reactive ZephyrModem.Transfer

section Storage

variable {υ : Type} (P : Platform) (crc : CrcService) (stale : List Byte → List Byte)
  (cbs : RxCallbacks υ)

/-- The guarantee on one input stream. No subpacket is acknowledged by itself. -/
def StoresSafely (userData : υ) (reads : List Read) : Prop :=
  StorageSafe .ok none (received P crc stale cbs userData reads).events
    (received P crc stale cbs userData reads).next

/-- A failed call is not passed over: no ZEOF ends a file with a failed call (where
`on_file_end` is present to say so), and no ZFIN ends a session with a failed call. -/
structure FailuresStop (userData : υ) (reads : List Read) : Prop where
  fileEnds : ∀ pre r post s f hd, reads = pre ++ r :: post →
    (received P crc stale cbs userData pre).next = .wait s → AcceptsZeof crc s r f hd →
    cbs.onFileEnd ≠ none →
    ∀ e ∈ currentFile (received P crc stale cbs userData pre).events, ¬ e.Failed
  sessionEnds : ∀ pre r post s, reads = pre ++ r :: post →
    (received P crc stale cbs userData pre).next = .wait s → AcceptsZfin crc s r →
    ∀ e ∈ (received P crc stale cbs userData pre).events, ¬ e.Failed

theorem received_events_eq {userData : υ} {pre : List Read} {r : Read} {s : RxState υ}
    {a b : List (Event Status)} {e : Event Status} (post : List Read)
    (hpre : (received P crc stale cbs userData pre).next = .wait s)
    (hstep : (receiveStep P crc stale cbs s r).events = a ++ e :: b) :
    (received P crc stale cbs userData (pre ++ r :: post)).events =
      ((received P crc stale cbs userData pre).events ++ a) ++ e ::
        (b ++ (run (receiveStep P crc stale cbs) (receiveStep P crc stale cbs s r).next post).events) := by
  simp only [received, Out.after_events, run_events_eq _ post hpre hstep, List.append_assoc]

variable {P crc stale cbs} in
theorem StoresSafely.failuresStop {userData : υ} {reads : List Read}
    (h : StoresSafely P crc stale cbs userData reads) :
    FailuresStop P crc stale cbs userData reads := by
  refine ⟨?_, ?_⟩
  · rintro pre r post s f hd rfl hpre hz hend e he hf
    have hsplit := received_events_eq P crc stale cbs post hpre
      (acceptsZeof_call P crc stale cbs hend hz)
    exact h.ended _ _ _ hsplit e (mem_currentFile_append_of_mem writes_nil he) hf
  · rintro pre r post s rfl hpre hz e he
    obtain ⟨es, -, hstep⟩ := hz.step P crc stale cbs
    have hrun := run_eq_of_done _ post hpre (congrArg Out.next hstep)
    have hdone : (received P crc stale cbs userData (pre ++ r :: post)).next = .done .ok := by
      rw [received, Out.after_next, hrun]
    refine h.returned hdone e ?_
    rw [received, Out.after_events, hrun, ← List.append_assoc]
    exact List.mem_append_left _ he

variable {P crc stale cbs} in
theorem FailuresStop.storesSafely {userData : υ} {reads : List Read}
    (h : FailuresStop P crc stale cbs userData reads) :
    StoresSafely P crc stale cbs userData reads := by
  have hopening : Writes (zmodemReceive crc userData).events := writes_writeBytes _
  refine ⟨?_, ?_, ?_⟩
  · intro hdone e he hf
    rw [received, Out.after_next] at hdone
    rcases exists_of_run_done _ hdone with hnil | ⟨pre, r, post, s, rfl, hpre, hnext⟩
    · cases hnil
    · have hz := done_ok_site P crc stale cbs hnext
      obtain ⟨es, hes, hstep⟩ := hz.step P crc stale cbs
      rw [received, Out.after_events, run_eq_of_done _ post hpre hnext, ← List.append_assoc] at he
      rcases List.mem_append.mp he with he | he
      · exact h.sessionEnds pre r post s rfl hpre hz e he hf
      · rw [hstep] at he
        obtain ⟨b, rfl⟩ := hes e he
        exact hf
  · intro pre info post hlog e he hf
    obtain ⟨pre', rfl, hrun⟩ := hopening.append_eq (by simp) hlog
    obtain ⟨init, r, rest, s, a, b, hreads, hinit, hstep, rfl⟩ := exists_of_events_eq _ hrun
    have hin : .onFileEnd info .ok ∈ (receiveStep P crc stale cbs s r).events := by
      rw [hstep]
      simp
    rcases mem_receiveStep_events P crc stale cbs hin with ⟨b, he⟩ | ⟨info, st, hst, he⟩ |
      ⟨f, hd, hz, hend, -⟩ | ⟨c, p, a, res, -, -, he⟩ | ⟨f, c, p, sub, ender, g, -, -, -, -, he⟩
    · cases he
    · cases he
      exact absurd rfl hst
    · rw [acceptsZeof_call P crc stale cbs hend hz] at hstep
      obtain ⟨rfl, -⟩ := onFileEnd_split writes_nil (writes_writeBytes _) hstep
      rw [← List.append_assoc] at he
      exact h.fileEnds init r rest s f hd hreads hinit hz hend e
        (mem_currentFile_append_writes writes_nil hf he) hf
    · cases he
    · cases he
  · rintro pre buf len offset res b post - hack
    cases hack

/-- On each stream the guarantee holds exactly when no failed call is passed over. -/
theorem storesSafely_iff_failuresStop (userData : υ) (reads : List Read) :
    StoresSafely P crc stale cbs userData reads ↔ FailuresStop P crc stale cbs userData reads :=
  ⟨StoresSafely.failuresStop, FailuresStop.storesSafely⟩

end Storage

end ZephyrModem.Zmodem
