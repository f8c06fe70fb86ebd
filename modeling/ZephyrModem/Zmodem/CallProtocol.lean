import ZephyrModem.Transfer.Groups
import ZephyrModem.Zmodem.Model

/-!
# The storage calls of `zmodem_receive`

Every way out of the loops of a file calls `on_file_end`, except a ZFIN header.
-/

namespace ZephyrModem.Zmodem
open ZephyrModem.Reactive ZephyrModem.Transfer

section CallProtocol

variable {υ : Type} (P : Platform) (crc : CrcService) (stale : List Byte → List Byte)

/-- A ZFIN header comes in while a file is open. -/
def ZfinInFile (s : RxState υ) (r : Read) : Prop :=
  ∃ f h hd, s.site = .fileHeader f h ∧ readHeaderRx crc h r = .done (some hd) ∧ hd.type = zfin

/-- The file of the state is the one that is open. -/
def FileOpen (log : List (Event Status)) : Next (RxState υ) Status → Prop
  | .wait s =>
    match s.site.file with
    | none => Closed log
    | some f => Opened f.info log
  | .done _ => True

variable (start : FileInfo → υ → ℤ × υ) (data : List Byte → ℕ → ℕ → υ → ℤ × υ)
  (finish : FileInfo → Status → υ → υ)

variable {crc} in
theorem fileOpen_none {log : List (Event Status)} {s : RxState υ} (h : FileOpen log (.wait s))
    (hs : s.site.file = none) : Closed log := by
  simpa only [FileOpen, hs] using h

variable {crc} in
theorem fileOpen_some {log : List (Event Status)} {s : RxState υ} {f : FileLocals}
    (h : FileOpen log (.wait s)) (hs : s.site.file = some f) : Opened f.info log := by
  simpa only [FileOpen, hs] using h

theorem calls_callFileEnd (info : FileInfo) (st : Status) (u : υ) :
    calls (callFileEnd (fileCallbacks start data finish) info st u).1 = [.onFileEnd info st] := rfl

theorem calls_append_writes {es ws : List (Event Status)} (h : Writes ws) :
    calls (es ++ ws) = calls es := by
  rw [calls_append, h.calls, List.append_nil]

theorem fileOpen_step (log : List (Event Status)) (s : RxState υ) (r : Read)
    (h : FileOpen log (.wait s)) :
    FileOpen (log ++ (receiveStep P crc stale (fileCallbacks start data finish) s r).events)
      (receiveStep P crc stale (fileCallbacks start data finish) s r).next := by
  rcases receiveStep_cases P crc stale (fileCallbacks start data finish) s r with ⟨site, hnext, he⟩ |
    ⟨hh, a, hsite, -, he⟩ | ⟨c, p, a, hsite, -, he⟩ | ⟨f, hh, a, hsite, -, he⟩ |
    ⟨f, c, p, a, hsite, -, he⟩ <;> rw [he]
  · show FileOpen (log ++ []) (.wait ⟨site, s.userData⟩)
    rw [List.append_nil]
    simpa only [FileOpen, hnext.file_eq crc] using h
  · have hclosed := fileOpen_none h (by rw [hsite]; rfl)
    rcases onHeader_cases crc s.userData a with ⟨st, -, h'⟩ | ⟨ws, hws, h'⟩ | ⟨ws, site, hws, hs, h'⟩
    · rw [h']
      trivial
    · rw [h']
      trivial
    · rw [h']
      simp only [FileOpen, hs]
      exact hclosed.quiet hws.calls
  · have hclosed := fileOpen_none h (by rw [hsite]; rfl)
    cases a with
    | none => trivial
    | some a =>
      rw [onFileInfo_some]
      exact hclosed.start (calls_append_writes (writes_writeBytes _))
  · have hopen := fileOpen_some h (by rw [hsite]; rfl)
    rcases onFileHeader_cases crc (fileCallbacks start data finish) f s.userData a with
      ⟨st, -, -, h'⟩ | ⟨hd, -, -, h'⟩ | ⟨hd, ws, -, -, -, h'⟩ | ⟨site, hs, h'⟩
    · rw [h']
      trivial
    · rw [h']
      exact hopen.finish (calls_append_writes (writes_writeBytes _))
    · rw [h']
      trivial
    · rw [h']
      simp only [rxAt, FileOpen, hs]
      exact hopen.quiet rfl
  · have hopen := fileOpen_some h (by rw [hsite]; rfl)
    cases a with
    | none => trivial
    | some a =>
      obtain ⟨sub, ender⟩ := a
      rw [onData_some]
      have hstored : Opened f.info
          (log ++ (callData (fileCallbacks start data finish) sub sub.length f.fileOffset s.userData).1) := by
        simp only [callData, fileCallbacks]
        split
        · exact hopen.data (d := ⟨sub, sub.length, f.fileOffset, _⟩) rfl
        · exact hopen.quiet rfl
      simp only
      split
      · exact hstored
      · exact hstored

theorem fileOpen_received (userData : υ) (reads : List Read) :
    FileOpen (received P crc stale (fileCallbacks start data finish) userData reads).events
      (received P crc stale (fileCallbacks start data finish) userData reads).next :=
  trace_invariant (receiveStep P crc stale (fileCallbacks start data finish)) FileOpen
    (fun _ _ => True) (fun log s r _ => fileOpen_step P crc stale start data finish log s r) _ reads _
    (fun _ _ => trivial) (closed_of_writes (writes_writeBytes _))

theorem closed_of_return {log : List (Event Status)} {s : RxState υ} {r : Read} {st : Status}
    (h : FileOpen log (.wait s))
    (hdone : (receiveStep P crc stale (fileCallbacks start data finish) s r).next = .done st) :
    Closed (log ++ (receiveStep P crc stale (fileCallbacks start data finish) s r).events) ↔
      ¬ ZfinInFile crc s r := by
  rcases receiveStep_cases P crc stale (fileCallbacks start data finish) s r with ⟨site, -, he⟩ |
    ⟨hh, a, hsite, -, he⟩ | ⟨c, p, a, hsite, -, he⟩ | ⟨f, hh, a, hsite, hr, he⟩ |
    ⟨f, c, p, a, hsite, -, he⟩ <;> rw [he] at hdone ⊢
  · cases hdone
  · have hclosed := fileOpen_none h (by rw [hsite]; rfl)
    have hnot : ¬ ZfinInFile crc s r := by
      intro hz
      obtain ⟨f, h', hd, hs, -, -⟩ := hz
      rw [hsite] at hs
      cases hs
    refine iff_of_true ?_ hnot
    rcases onHeader_cases crc s.userData a with ⟨st, -, h'⟩ | ⟨ws, hws, h'⟩ | ⟨ws, site, hws, -, h'⟩
    · rw [h']
      exact hclosed.quiet rfl
    · rw [h']
      exact hclosed.quiet hws.calls
    · rw [h']
      exact hclosed.quiet hws.calls
  · have hclosed := fileOpen_none h (by rw [hsite]; rfl)
    have hnot : ¬ ZfinInFile crc s r := by
      intro hz
      obtain ⟨f, h', hd, hs, -, -⟩ := hz
      rw [hsite] at hs
      cases hs
    refine iff_of_true ?_ hnot
    cases a with
    | none => exact hclosed.quiet rfl
    | some a => cases hdone
  · have hopen := fileOpen_some h (by rw [hsite]; rfl)
    rcases onFileHeader_cases crc (fileCallbacks start data finish) f s.userData a with
      ⟨st, rfl, -, h'⟩ | ⟨hd, -, -, h'⟩ | ⟨hd, ws, rfl, hz, hws, h'⟩ | ⟨site, -, h'⟩
    · rw [h']
      refine iff_of_true (hopen.finish (calls_callFileEnd start data finish f.info st s.userData)) ?_
      intro hz
      obtain ⟨f', h'', hd, hs, hr', -⟩ := hz
      rw [hsite] at hs
      cases hs
      rw [hr] at hr'
      cases hr'
    · rw [h'] at hdone
      cases hdone
    · rw [h']
      refine iff_of_false (hopen.quiet hws.calls).not_closed ?_
      exact not_not.mpr ⟨f, hh, hd, hsite, hr, hz⟩
    · rw [h'] at hdone
      cases hdone
  · have hopen := fileOpen_some h (by rw [hsite]; rfl)
    have hnot : ¬ ZfinInFile crc s r := by
      intro hz
      obtain ⟨f, h', hd, hs, -, -⟩ := hz
      rw [hsite] at hs
      cases hs
    refine iff_of_true ?_ hnot
    cases a with
    | none => exact hopen.finish (calls_callFileEnd start data finish f.info .errorIo s.userData)
    | some a =>
      rw [onData_some] at hdone
      cases hdone

theorem ZfinInFile.next {s : RxState υ} {r : Read} (h : ZfinInFile crc s r) (cbs : RxCallbacks υ) :
    (receiveStep P crc stale cbs s r).next = .done .ok := by
  obtain ⟨f, hh, hd, hsite, hr, hz⟩ := h
  have hfin : AcceptsZfin crc s r := ⟨hh, hd, .inr ⟨f, hsite⟩, hr, hz⟩
  obtain ⟨es, -, hstep⟩ := hfin.step P crc stale cbs
  rw [hstep]

/-- On each stream every file that is opened is closed, exactly when no ZFIN comes in
while a file is open. -/
theorem bracketed_iff (userData : υ) (reads : List Read) :
    Bracketed (received P crc stale (fileCallbacks start data finish) userData reads).events
        (received P crc stale (fileCallbacks start data finish) userData reads).next ↔
      ∀ v ∈ visits (receiveStep P crc stale (fileCallbacks start data finish))
        (zmodemReceive crc userData).next reads, ¬ ZfinInFile crc v.1 v.2 := by
  have hopen := fileOpen_received P crc stale start data finish userData
  constructor
  · intro h v hv hz
    obtain ⟨pre, post, rfl, hpre⟩ := exists_of_mem_visits _ hv
    have hnext := hz.next P crc stale (fileCallbacks start data finish)
    have hrun := run_eq_of_done _ post hpre hnext
    have hbefore := hopen pre
    rw [received, Out.after_next, hpre] at hbefore
    rw [received, Out.after_next, Out.after_events, hrun, ← List.append_assoc] at h
    exact (closed_of_return P crc stale start data finish hbefore hnext).mp h hz
  · intro h
    cases hlast : (received P crc stale (fileCallbacks start data finish) userData reads).next with
    | wait s =>
      have hs := hopen reads
      rw [hlast] at hs
      cases hf : s.site.file with
      | none => exact .inl (fileOpen_none hs hf)
      | some f => exact .inr ⟨f.info, fileOpen_some hs hf⟩
    | done st =>
      rw [received, Out.after_next] at hlast
      rcases exists_of_run_done _ hlast with hinit | ⟨pre, r, post, s, rfl, hpre, hnext⟩
      · cases hinit
      · have hbefore := hopen pre
        rw [received, Out.after_next, hpre] at hbefore
        rw [received, Out.after_events, run_eq_of_done _ post hpre hnext, ← List.append_assoc]
        exact (closed_of_return P crc stale start data finish hbefore hnext).mpr
          (h _ (mem_visits _ hpre r post))

end CallProtocol

/-- File information without a size, then ZFIN. -/
def zfinStream : List Byte :=
  binaryHeader referenceCrc zfile zeroFlags ++ subpacket referenceCrc [0x66, 0] zcrcw ++
    hexHeader referenceCrc zfin zeroFlags

def acceptingFiles : RxCallbacks Unit :=
  fileCallbacks (fun _ u => (0, u)) (fun _ _ _ u => (0, u)) fun _ _ u => u

/-- The receiver returns OK and leaves the file open. -/
theorem not_bracketed_zfinStream :
    ¬ Bracketed (received platform32 referenceCrc id acceptingFiles () (zfinStream.map .ok)).events
      (received platform32 referenceCrc id acceptingFiles () (zfinStream.map .ok)).next := by
  have hcalls : calls (received platform32 referenceCrc id acceptingFiles ()
      (zfinStream.map .ok)).events = [.onFileStart ⟨[0x66], 0⟩ 0] := by
    decide +kernel
  have hdone : (received platform32 referenceCrc id acceptingFiles ()
      (zfinStream.map .ok)).next = .done .ok := by
    decide +kernel
  rw [hdone]
  exact Opened.not_closed ⟨[], 0, [], hcalls⟩

end ZephyrModem.Zmodem
