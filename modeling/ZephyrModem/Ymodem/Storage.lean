import ZephyrModem.Transfer.Storage
import ZephyrModem.Ymodem.Block0
import ZephyrModem.Ymodem.Frames

/-!
# Storage failures in `ymodem_receive`

The results of `on_file_start` and `on_data` are not used, so a run with a failed
call can go on to the end of the batch.
-/

namespace ZephyrModem.Ymodem
open ZephyrModem.Reactive ZephyrModem.Transfer
open ZephyrModem.Xmodem (Byte Read soh stx eot ack nak can charC)

section Storage

variable {υ : Type} (P : Platform) (crc : CrcService) (cbs : RxCallbacks υ)

/-- The guarantee on one input stream. -/
def StoresSafely (userData : υ) (reads : List Read) : Prop :=
  StorageSafe .ok (some ack) (received P crc cbs userData reads).events
    (received P crc cbs userData reads).next

/-- A failed call is not passed over: every `on_data` call succeeded, no EOT ends a
file with a failed call (where `on_file_end` is present to say so), and no empty
Block 0 ends a batch with a failed call. -/
structure FailuresStop (userData : υ) (reads : List Read) : Prop where
  stored : ∀ buf len offset res,
    .onData buf len offset res ∈ (received P crc cbs userData reads).events → res = 0
  fileEnds : ∀ pre r post s f, reads = pre ++ r :: post →
    (received P crc cbs userData pre).next = .wait s → s.site = .secondEot →
    s.locals.phase = .data f → cbs.onFileEnd ≠ none →
    ∀ e ∈ currentFile (received P crc cbs userData pre).events, ¬ e.Failed
  batchEnds : ∀ pre r post s buf, reads = pre ++ r :: post →
    (received P crc cbs userData pre).next = .wait s → AcceptsBlock0 crc s r buf →
    (parseBlock0 P buf 128).filename = [] →
    ∀ e ∈ (received P crc cbs userData pre).events, ¬ e.Failed

theorem received_events_eq {userData : υ} {pre : List Read} {r : Read} {s : RxState υ}
    {a b : List Event} {e : Event} (post : List Read)
    (hpre : (received P crc cbs userData pre).next = .wait s)
    (hstep : (receiveStep P crc cbs s r).events = a ++ e :: b) :
    (received P crc cbs userData (pre ++ r :: post)).events =
      ((received P crc cbs userData pre).events ++ a) ++ e ::
        (b ++ (run (receiveStep P crc cbs) (receiveStep P crc cbs s r).next post).events) := by
  simp only [received, Out.after_events, run_events_eq _ post hpre hstep, List.append_assoc]

variable {P crc cbs} in
theorem StoresSafely.failuresStop {userData : υ} {reads : List Read}
    (h : StoresSafely P crc cbs userData reads) : FailuresStop P crc cbs userData reads := by
  have hopening : Writes (ymodemReceive userData).events := writes_sendByte charC
  refine ⟨?_, ?_, ?_⟩
  · intro buf len offset res hin
    obtain ⟨pre, post, hlog⟩ := List.append_of_mem hin
    obtain ⟨pre', rfl, hrun⟩ := hopening.append_eq (by simp) hlog
    obtain ⟨init, r, rest, s, a, b, hreads, hinit, hstep, -⟩ := exists_of_events_eq _ hrun
    have hcall : .onData buf len offset res ∈ (receiveStep P crc cbs s r).events := by
      rw [hstep]
      simp
    rcases mem_receiveStep_events P crc cbs hcall with ⟨b, he⟩ | ⟨info, st, -, he⟩ |
      ⟨f, -, -, -, he⟩ | ⟨buf, res, -, -, he⟩ | ⟨f, buf, g, ha, hg, hpos, he⟩ <;> cases he
    have hevents : (receiveStep P crc cbs s r).events = [] ++ .onData buf
        (writeLen P f buf.length) f.fileOffset
        (g buf (writeLen P f buf.length) f.fileOffset s.locals.userData).1 :: sendByte ack := by
      rw [ha.step P crc cbs, acceptBlock, if_pos rfl]
      simp only [callData, hg, if_pos hpos]
      rfl
    have hsplit := received_events_eq P crc cbs rest hinit hevents
    rw [← hreads] at hsplit
    exact h.acknowledged _ _ _ _ _ ack _ hsplit rfl
  · rintro pre r post s f rfl hpre hs hp hend e he hf
    have hsplit := received_events_eq P crc cbs post hpre (endFile_events P crc cbs hend hs hp r)
    exact h.ended _ _ _ hsplit e (mem_currentFile_append_of_mem (writes_sendByte ack) he) hf
  · rintro pre r post s buf rfl hpre ha hname e he
    have hstep : (receiveStep P crc cbs s r).next = .done .ok := by
      rw [ha.step P crc cbs, acceptBlock0_end P cbs _ _ hname]
    have hrun := run_eq_of_done _ post hpre hstep
    have hdone : (received P crc cbs userData (pre ++ r :: post)).next = .done .ok := by
      rw [received, Out.after_next, hrun]
    refine h.returned hdone e ?_
    rw [received, Out.after_events, hrun, ← List.append_assoc]
    exact List.mem_append_left _ he

variable {P crc cbs} in
theorem FailuresStop.storesSafely {userData : υ} {reads : List Read}
    (h : FailuresStop P crc cbs userData reads) : StoresSafely P crc cbs userData reads := by
  have hopening : Writes (ymodemReceive userData).events := writes_sendByte charC
  refine ⟨?_, ?_, ?_⟩
  · intro hdone e he hf
    rw [received, Out.after_next] at hdone
    rcases exists_of_run_done _ hdone with hnil | ⟨pre, r, post, s, rfl, hpre, hstep⟩
    · cases hnil
    obtain ⟨buf, ha, hname⟩ := done_ok_site P crc cbs hstep
    rw [received, Out.after_events, run_eq_of_done _ post hpre hstep, ← List.append_assoc] at he
    rcases List.mem_append.mp he with he | he
    · exact h.batchEnds pre r post s buf rfl hpre ha hname e he hf
    · rw [ha.step P crc cbs, acceptBlock0_end P cbs _ _ hname] at he
      obtain ⟨b, rfl⟩ := writes_sendByte ack e he
      exact hf
  · intro pre info post hlog e he hf
    obtain ⟨pre', rfl, hrun⟩ := hopening.append_eq (by simp) hlog
    obtain ⟨init, r, rest, s, a, b, hreads, hinit, hstep, rfl⟩ := exists_of_events_eq _ hrun
    have hin : .onFileEnd info .ok ∈ (receiveStep P crc cbs s r).events := by
      rw [hstep]
      simp
    rcases mem_receiveStep_events P crc cbs hin with ⟨b, he⟩ | ⟨info, st, hst, he⟩ |
      ⟨f, hs, hp, hend, -⟩ | ⟨buf, res, -, -, he⟩ | ⟨f, buf, g, -, -, -, he⟩
    · cases he
    · cases he
      exact absurd rfl hst
    · rw [endFile_events P crc cbs hend hs hp r] at hstep
      obtain ⟨rfl, -⟩ := onFileEnd_split (writes_sendByte ack) (writes_sendByte charC) hstep
      rw [← List.append_assoc] at he
      exact h.fileEnds init r rest s f hreads hinit hs hp hend e
        (mem_currentFile_append_writes (writes_sendByte ack) hf he) hf
    · cases he
    · cases he
  · rintro pre buf len offset res b post hlog -
    exact h.stored buf len offset res (hlog ▸ by simp)

/-- On each stream the guarantee holds exactly when no failed call is passed over. -/
theorem storesSafely_iff_failuresStop (userData : υ) (reads : List Read) :
    StoresSafely P crc cbs userData reads ↔ FailuresStop P crc cbs userData reads :=
  ⟨StoresSafely.failuresStop, FailuresStop.storesSafely⟩

/-- The rest of a stream that ends the file and the batch: EOT twice, and an empty
Block 0. -/
def ending : List Byte := eot :: eot :: packet crc 0 (List.replicate 128 0)

theorem feed_ending (v : RxLocals υ) (f : FileLocals) (hp : v.phase = .data f) :
    (feed (receiveStep P crc cbs) (.wait ⟨.header, v⟩) (ending crc)).next = .done .ok := by
  have hfirst : receiveStep P crc cbs ⟨.header, v⟩ (.ok eot) =
      ⟨sendByte nak, .wait ⟨.secondEot, v⟩⟩ := by
    simp [receiveStep, headerByte, hp]
  have hsecond : (receiveStep P crc cbs ⟨.secondEot, v⟩ (.ok eot)).next =
      .wait ⟨.header, ⟨0, .block0, (callFileEnd cbs f.info .ok v.userData).2⟩⟩ := by
    simp only [receiveStep, endFile, hp]
    rfl
  have hname : (parseBlock0 P (List.replicate 128 0) 128).filename = [] := rfl
  rw [ending, feed_cons, hfirst, Out.after_next, feed_cons, Out.after_next, hsecond,
    feed_packet P crc cbs _ _ _ (.inl List.length_replicate)]
  simp only [packetDone, ne_eq, not_true_eq_false, if_false, acceptBlock0_end P cbs _ _ hname]

end Storage

end ZephyrModem.Ymodem
