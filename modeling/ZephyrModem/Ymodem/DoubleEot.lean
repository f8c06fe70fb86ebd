import ZephyrModem.Ymodem.Bounds
import ZephyrModem.Ymodem.Integrity

/-!
# The double EOT of `ymodem_receive`

The first EOT is answered by NAK and only a second one ends the file. The byte after the
NAK is read and compared, but both branches end the file.
-/

namespace ZephyrModem.Ymodem
open ZephyrModem.Reactive ZephyrModem.Transfer
open ZephyrModem.Xmodem (Byte Read eot ack nak charC)

variable {υ : Type} (P : Platform) (crc : CrcService) (cbs : RxCallbacks υ)

/-- After `reads`, which end with the read `r`, the file `f` is still open: only a cancelled
read may end the session, and the block that is expected next is stored when it comes. -/
structure KeepsOpen (userData : υ) (reads : List Read) (r : Read) (f : FileLocals) : Prop where
  waits : r = .cancel ∨ ∃ s, (received P crc cbs userData reads).next = .wait s
  file : ∀ s, (received P crc cbs userData reads).next = .wait s → s.locals.phase = .data f
  delivers : ∀ more w g payload,
    (received P crc cbs userData (reads ++ more)).next = .wait ⟨.header, w⟩ → w.phase = .data g →
    payload.length = 128 ∨ payload.length = 1024 →
    (received P crc cbs userData
        (reads ++ more ++ (packet crc g.expectedBlk payload).map .ok)).events =
      (received P crc cbs userData (reads ++ more)).events ++
        (callData cbs payload (writeLen P g payload.length) g.fileOffset w.userData).1 ++ sendByte ack

/-- A file ends at the second EOT, after a first one at a packet boundary and the NAK to
it; whatever else comes after the NAK leaves the file open. -/
structure DoubleEot (userData : υ) (reads : List Read) : Prop where
  ends : ∀ l₁ info l₂,
    (received P crc cbs userData reads).events = l₁ ++ .onFileEnd info .ok :: l₂ →
    ∃ pre v f post ws, reads = pre ++ .ok eot :: .ok eot :: post ∧
      (received P crc cbs userData pre).next = .wait ⟨.header, v⟩ ∧ v.phase = .data f ∧
      f.info = info ∧ Writes ws ∧
      l₁ = (received P crc cbs userData pre).events ++ [.write nak] ++ ws
  survives : ∀ pre v f r post, reads = pre ++ .ok eot :: r :: post →
    (received P crc cbs userData pre).next = .wait ⟨.header, v⟩ → v.phase = .data f →
    r ≠ .ok eot → KeepsOpen P crc cbs userData (pre ++ [.ok eot, r]) r f

/-- In the data phase an EOT at a packet boundary comes with a second one. -/
def PairedEots (userData : υ) (reads : List Read) : Prop :=
  ∀ pre v f r post, reads = pre ++ .ok eot :: r :: post →
    (received P crc cbs userData pre).next = .wait ⟨.header, v⟩ → v.phase = .data f → r = .ok eot

variable {P crc cbs}

theorem received_after_eot {userData : υ} {pre : List Read} {v : RxLocals υ} {f : FileLocals}
    (h : (received P crc cbs userData pre).next = .wait ⟨.header, v⟩) (hp : v.phase = .data f)
    (r : Read) :
    (received P crc cbs userData (pre ++ [.ok eot, r])).next =
      .wait ⟨.header, ⟨0, .block0, (callFileEnd cbs f.info .ok v.userData).2⟩⟩ := by
  have hnak : receiveStep P crc cbs ⟨.header, v⟩ (.ok eot) =
      ⟨sendByte nak, .wait ⟨.secondEot, v⟩⟩ := by
    simp only [receiveStep, headerByte, hp, if_true]
  have hfirst : (received P crc cbs userData (pre ++ [.ok eot])).next = .wait ⟨.secondEot, v⟩ := by
    rw [received_snoc h, hnak]
    rfl
  have hreads : pre ++ [.ok eot, r] = (pre ++ [.ok eot]) ++ [r] := by simp
  rw [hreads, received_snoc hfirst]
  simp only [receiveStep, endFile, hp]
  rfl

theorem received_fileEnd {userData : υ} {reads : List Read} {l₁ l₂ : List Event} {info : FileInfo}
    (h : (received P crc cbs userData reads).events = l₁ ++ .onFileEnd info .ok :: l₂) :
    ∃ pre v f r post, reads = pre ++ .ok eot :: r :: post ∧
      (received P crc cbs userData pre).next = .wait ⟨.header, v⟩ ∧ v.phase = .data f ∧
      f.info = info ∧ l₁ = (received P crc cbs userData pre).events ++ [.write nak] ++ [.write ack] := by
  cases l₁ with
  | nil => cases (List.cons.inj h).1
  | cons x l₁ =>
    obtain ⟨hx, hrest⟩ := List.cons.inj h
    obtain ⟨before, r, post, s, a, b, rfl, hnext, hstep, hl⟩ := exists_of_events_eq _ hrest
    have hlog : x :: l₁ = (received P crc cbs userData before).events ++ a := by
      rw [hl, ← hx]
      rfl
    have hin : .onFileEnd info .ok ∈ (receiveStep P crc cbs s r).events := by
      rw [hstep]
      simp
    rcases mem_receiveStep_events P crc cbs hin with ⟨b, he⟩ | ⟨info, st, hst, he⟩ |
      ⟨f, hs, hp, hend, he⟩ | ⟨buf, res, -, -, he⟩ | ⟨f, buf, g, -, -, -, he⟩
    · cases he
    · cases he
      exact absurd rfl hst
    · cases he
      rw [endFile_events P crc cbs hend hs hp r] at hstep
      obtain ⟨rfl, -⟩ := onFileEnd_split (writes_sendByte ack) (writes_sendByte charC) hstep
      obtain ⟨pre, rs, rfl, htrail, hpre, hevents⟩ := received_trail userData before hnext
      rw [hs] at htrail hevents
      obtain ⟨-, rfl⟩ := htrail
      refine ⟨pre, s.locals, f, r, post, by simp, hpre, hp, rfl, ?_⟩
      rw [hlog, hevents]
      rfl
    · cases he
    · cases he

/-- The rule is kept on the streams whose EOTs at packet boundaries come in pairs. -/
theorem doubleEot_iff {υ : Type} (P : Platform) (crc : CrcService) (cbs : RxCallbacks υ)
    (userData : υ) (reads : List Read) :
    DoubleEot P crc cbs userData reads ↔ PairedEots P crc cbs userData reads := by
  constructor
  · intro h pre v f r post hsplit hpre hp
    by_contra hne
    have hfile := (h.survives pre v f r post hsplit hpre hp hne).file _ (received_after_eot hpre hp r)
    cases hfile
  · intro h
    constructor
    · intro l₁ info l₂ hlog
      obtain ⟨pre, v, f, r, post, hsplit, hpre, hp, hinfo, hl⟩ := received_fileEnd hlog
      obtain rfl := h pre v f r post hsplit hpre hp
      exact ⟨pre, v, f, post, [.write ack], hsplit, hpre, hp, hinfo, writes_sendByte ack, hl⟩
    · intro pre v f r post hsplit hpre hp hne
      exact absurd (h pre v f r post hsplit hpre hp) hne

/-- A noise byte equal to EOT before the first block, which begins with the next byte. -/
theorem not_doubleEot_noise :
    ¬ DoubleEot platform32 referenceCrc acceptingFiles ()
      ((packet referenceCrc 0 (block0Payload oneByteFile)).map .ok ++ [.ok eot, .ok Xmodem.soh]) := by
  intro h
  have hblock0 := congrArg Out.next (feed_block0 platform32 referenceCrc acceptingFiles
    oneByteFile_fits ())
  have hstart : (received platform32 referenceCrc acceptingFiles ()
      ((packet referenceCrc 0 (block0Payload oneByteFile)).map .ok)).next =
      .wait ⟨.header, ⟨0, .data ⟨oneByteFile, 1, 0⟩, ()⟩⟩ := by
    rw [received, Out.after_next]
    exact hblock0
  have hopen := h.survives _ _ _ _ [] rfl hstart rfl (by decide)
  have hfile := hopen.file _ (received_after_eot hstart rfl (.ok Xmodem.soh))
  cases hfile

end ZephyrModem.Ymodem
