import ZephyrModem.Counter
import ZephyrModem.Ymodem.Retransmission

/-!
# A batch over a noisy line

Garbled blocks and replies cost time only. A garbled Block 0 costs the rest of the batch:
the receiver asks for it again with `'C'`, where the transmitter accepts nothing but ACK.
-/

namespace ZephyrModem.Ymodem
open ZephyrModem.Reactive ZephyrModem.Transfer
open ZephyrModem.Xmodem (Byte Read soh stx eot ack nak can charC)

section Batch

variable {υ υ' : Type} {P : Platform} (crc : CrcService) (tcbs : TxCallbacks υ) {z : Noise}
  {files : List File} {f : File}
  (start : FileInfo → υ' → ℤ × υ') (data : List Byte → ℕ → ℕ → υ' → ℤ × υ')
  (finish : FileInfo → Status → υ' → υ')

/-! ### What arrives -/

/-- What arrives of file `i`, if its Block 0 does. -/
def fileArrivals (crc : CrcService) (z : Noise) (i : ℕ) (f : File) : List Byte :=
  packet crc 0 (block0Payload (fileInfo f)) ++
    (blockArrivals crc z i f (blocksFor f.contents.length) 0 1 ++ [eot, eot])

def filesArrivals (crc : CrcService) (z : Noise) (i : ℕ) (files : List File) : List Byte :=
  (files.zipIdx i).flatMap fun x => fileArrivals crc z x.2 x.1

/-- What arrives of a batch if `k` Blocks 0 do, and the next one as the line leaves it. -/
def batchArrivals (crc : CrcService) (z : Noise) (files : List File) (k : ℕ) : List Byte :=
  filesArrivals crc z 0 (files.take k) ++
    (z.block0 (min k files.length)).getD (packet crc 0 (List.replicate 128 0))

/-! ### Between two files -/

/-- The transmitter has fetched the information of file `i` and the request is on the line. -/
def betweenFiles (tcbs : TxCallbacks υ) (i : ℕ) (u : υ) (u' : υ') (ll rl : List Event) :
    Timed Byte Event (TxSite υ) Status Event (RxState υ') Status :=
  fresh ⟨[], (nextFile tcbs i u).next⟩ ⟨[], .wait ⟨.header, idle u'⟩⟩ [charC] ll rl

/-- The locals of the transmitter for file `i`. -/
def fileLocals (tcbs : TxCallbacks υ) (i : ℕ) (u : υ) : TxLocals υ :=
  ⟨i, (tcbs.getFileInfo i u).1, (tcbs.getFileInfo i u).2.1, (tcbs.getFileInfo i u).2.2⟩

theorem fileLocals_file (hs : Serves P.sizeMod tcbs files) (hf : Sendable P f) {i : ℕ}
    (hidx : files[i]? = some f) (u : υ) : (fileLocals tcbs i u).HasFile ∧
      (fileLocals tcbs i u).info = fileInfo f ∧
      (fileLocals tcbs i u).block0 = block0Payload (fileInfo f) := by
  obtain ⟨hzero, hinfo⟩ : (fileLocals tcbs i u).hasFile = 0 ∧
      (fileLocals tcbs i u).info = fileInfo f := hs.info i f u hidx
  have hfile : (fileLocals tcbs i u).HasFile := by
    refine ⟨hzero, ?_⟩
    rw [hinfo]
    exact hf.name_ne_nil
  refine ⟨hfile, hinfo, ?_⟩
  rw [TxLocals.block0, if_pos hfile, hinfo]

theorem fileLocals_end (hs : Serves P.sizeMod tcbs files) (u : υ) :
    ¬ (fileLocals tcbs files.length u).HasFile := hs.noMore u

/-- Block 0 goes out, as the line leaves it. -/
theorem reaches_block0_out (rcbs : RxCallbacks υ') (i : ℕ) (u : υ) (u' : υ') (ll rl : List Event) :
    Timed.Reaches (noisyTx P crc tcbs z) (timedRx P crc rcbs) (betweenFiles tcbs i u u' ll rl)
      (fresh (z.outgoing ⟨writeBytes (packet crc 0 (fileLocals tcbs i u).block0),
        .wait (.ackBlock0 (fileLocals tcbs i u))⟩) ⟨[], .wait ⟨.header, idle u'⟩⟩ [] ll rl) := by
  have hc : (noisyTx P crc tcbs z).resume (.startC (fileLocals tcbs i u) 0) (.ok charC) =
      z.outgoing ⟨writeBytes (packet crc 0 (fileLocals tcbs i u).block0),
        .wait (.ackBlock0 (fileLocals tcbs i u))⟩ := by
    simp only [noisyTx, noisyStep, Noise.incoming, transmitStep, if_true]
  have hread := reaches_readLeft crc (P := P) (T := noisyTx P crc tcbs z) rcbs
    (.startC (fileLocals tcbs i u) 0) ⟨[], .wait ⟨.header, idle u'⟩⟩ charC [] ll rl
  rwa [hc] at hread

/-- An undamaged Block 0 is read and answered. -/
theorem reaches_block0 (rcbs : RxCallbacks υ') {i : ℕ} (hclean : z.block0 i = none) (u : υ) (u' : υ')
    {es : List Event} {t : RxState υ'} (hlen : (fileLocals tcbs i u).block0.length = 128)
    (hdone : packetDone P rcbs (idle u') 0 (fileLocals tcbs i u).block0 = ⟨es, .wait t⟩)
    (ll rl : List Event) :
    ∃ ll', ll'.filterMap Event.wire = ll.filterMap Event.wire ++
        packet crc 0 (fileLocals tcbs i u).block0 ∧
      Timed.Reaches (noisyTx P crc tcbs z) (timedRx P crc rcbs) (betweenFiles tcbs i u u' ll rl)
      (fresh ⟨[], .wait (.ackBlock0 (fileLocals tcbs i u))⟩ ⟨[], .wait t⟩
        (es.filterMap Event.wire) ll' (rl ++ es)) := by
  have hout : z.outgoing ⟨writeBytes (packet crc 0 (fileLocals tcbs i u).block0),
      .wait (.ackBlock0 (fileLocals tcbs i u))⟩ =
        ⟨writeBytes (packet crc 0 (fileLocals tcbs i u).block0),
          .wait (.ackBlock0 (fileLocals tcbs i u))⟩ := outgoing_of_none z hclean
  have hfirst := reaches_block0_out crc tcbs (z := z) (P := P) rcbs i u u' ll rl
  have hfed := feed_packet P crc rcbs (idle u') 0 (fileLocals tcbs i u).block0 (.inl hlen)
  rw [hdone] at hfed
  rw [hout] at hfirst
  refine ⟨ll ++ writeBytes (packet crc 0 (fileLocals tcbs i u).block0), ?_,
    hfirst.trans (reaches_fed crc rfl rcbs (wire_writeBytes _) hfed [] ll rl)⟩
  rw [List.filterMap_append, wire_writeBytes]

/-! ### One file -/

theorem reaches_opened (hs : Serves P.sizeMod tcbs files) (hf : Sendable P f)
    (hwidth : P.sizeBits ≤ P.ulongBits) {i : ℕ} (hidx : files[i]? = some f)
    (hclean : z.block0 i = none) (u : υ) (u' : υ') (ll rl : List Event) :
    ∃ res u₁ ll', ll'.filterMap Event.wire = ll.filterMap Event.wire ++
        packet crc 0 (block0Payload (fileInfo f)) ∧ Timed.Reaches (noisyTx P crc tcbs z)
      (timedRx P crc (fileCallbacks start data finish)) (betweenFiles tcbs i u u' ll rl)
      (fresh (z.outgoing (nextBlock P crc tcbs (fileLocals tcbs i u) 0 1))
        ⟨[], .wait ⟨.header, ⟨0, .data ⟨fileInfo f, 1, 0⟩, u₁⟩⟩⟩ [] ll'
        (rl ++ [.write ack, .write charC, .onFileStart (fileInfo f) res])) := by
  obtain ⟨hfile, -, hblock0⟩ := fileLocals_file tcbs hs hf hidx u
  obtain ⟨res, u₁, hdone⟩ := packetDone_block0 start data finish hf hwidth u'
  have hlen : (fileLocals tcbs i u).block0.length = 128 := by
    rw [hblock0]
    exact length_block0Payload (hf.fits hwidth)
  rw [← hblock0] at hdone
  obtain ⟨ll', hlog, hfirst⟩ := reaches_block0 crc tcbs (fileCallbacks start data finish) hclean u u'
    hlen hdone ll rl
  rw [hblock0] at hlog
  have hack : (noisyTx P crc tcbs z).resume (.ackBlock0 (fileLocals tcbs i u)) (.ok ack) =
      ⟨[], .wait (.secondC (fileLocals tcbs i u))⟩ := by
    simp only [noisyTx, noisyStep, Noise.incoming, transmitStep, ne_eq, not_true_eq_false, if_false,
      if_pos hfile]
    rfl
  have hc : (noisyTx P crc tcbs z).resume (.secondC (fileLocals tcbs i u)) (.ok charC) =
      z.outgoing (nextBlock P crc tcbs (fileLocals tcbs i u) 0 1) := by
    simp only [noisyTx, noisyStep, Noise.incoming, transmitStep, ne_eq, not_true_eq_false, if_false]
  refine ⟨res, u₁, ll', hlog, hfirst.trans ?_⟩
  refine (reaches_readLeft crc _ _ _ ack [charC] _ _).trans ?_
  rw [hack]
  refine (reaches_readLeft crc _ _ _ charC [] _ _).trans ?_
  rw [hc]
  exact Timed.Reaches.refl _

theorem reaches_silent {T : TimedParty Byte Event (TxSite υ) Status} (hwire : T.wire = Event.wire)
    (rcbs : RxCallbacks υ') {es : List Event} (hes : es.filterMap Event.wire = [])
    (n : Next (TxSite υ) Status) (r : RxOut υ') (tl : List Byte) (ll rl : List Event) :
    Timed.Reaches T (timedRx P crc rcbs) (fresh ⟨es, n⟩ r tl ll rl)
      (fresh ⟨[], n⟩ r tl (ll ++ es) rl) := by
  have hflush := Duplex.flushLeft (P := T.toParty) (Q := (timedRx P crc rcbs).toParty) es n r [] tl ll rl
  rw [hwire, hes, List.append_nil] at hflush
  exact Timed.reaches_of_lines hflush

theorem reaches_closed (hs : Serves P.sizeMod tcbs files) (v : TxLocals υ)
    (hidx : files[v.fileIdx]? = some f) (w : RxLocals υ') (g : FileLocals) (hw : w.phase = .data g)
    (ll rl : List Event) :
    ∃ u' ll', ll'.filterMap Event.wire = ll.filterMap Event.wire ++ [eot, eot] ∧
      Timed.Reaches (noisyTx P crc tcbs z) (timedRx P crc (fileCallbacks start data finish))
      (fresh ⟨sendByte eot, .wait (.eotReply v)⟩ ⟨[], .wait ⟨.header, w⟩⟩ [] ll rl)
      (betweenFiles tcbs (v.fileIdx + 1) v.userData u' ll'
        (rl ++ [.write nak] ++ [.write ack, .onFileEnd g.info .ok, .write charC])) := by
  have hcount : P.toSize (v.fileIdx + 1) = v.fileIdx + 1 := by
    obtain ⟨hlt, -⟩ := List.getElem?_eq_some_iff.mp hidx
    exact P.toSize_of_lt (Nat.lt_of_le_of_lt hlt hs.count)
  have hfirst : feed (receiveStep P crc (fileCallbacks start data finish)) (.wait ⟨.header, w⟩) [eot] =
      ⟨[.write nak], .wait ⟨.secondEot, w⟩⟩ := by
    simp only [feed_cons, feed_nil, receiveStep, headerByte, hw, if_true]
    rfl
  have hsecond : feed (receiveStep P crc (fileCallbacks start data finish)) (.wait ⟨.secondEot, w⟩)
      [eot] = ⟨[.write ack, .onFileEnd g.info .ok, .write charC],
        .wait ⟨.header, idle (finish g.info .ok w.userData)⟩⟩ := by
    simp only [feed_cons, feed_nil, receiveStep, endFile, hw]
    rfl
  have hnak : (noisyTx P crc tcbs z).resume (.eotReply v) (.ok nak) =
      ⟨sendByte eot, .wait (.secondEotReply v)⟩ := by
    simp only [noisyTx, noisyStep, Noise.incoming, transmitStep, if_true]
    rfl
  have hack : (noisyTx P crc tcbs z).resume (.secondEotReply v) (.ok ack) =
      nextFile tcbs (v.fileIdx + 1) v.userData := by
    simp only [noisyTx, noisyStep, transmitStep, hcount]
    rfl
  refine ⟨finish g.info .ok w.userData,
    ll ++ sendByte eot ++ sendByte eot ++ [.getFileInfo (v.fileIdx + 1)], ?_, ?_⟩
  · simp only [List.filterMap_append, wire_sendByte, List.append_assoc]
    rfl
  refine (reaches_fed crc rfl _ rfl hfirst [] ll rl).trans ?_
  refine (reaches_readLeft crc _ _ _ nak [] _ _).trans ?_
  rw [hnak]
  refine (reaches_fed crc rfl _ rfl hsecond [] _ _).trans ?_
  refine (reaches_readLeft crc _ _ _ ack [charC] _ _).trans ?_
  rw [hack]
  exact reaches_silent crc rfl _ rfl _ _ [charC] _ _

theorem reaches_noisyFile (hrec : Recoverable crc z) (hs : Serves P.sizeMod tcbs files)
    (hf : Sendable P f) (hwidth : P.sizeBits ≤ P.ulongBits) {i : ℕ} (hidx : files[i]? = some f)
    (hclean : z.block0 i = none) (u : υ) (u' : υ') (ll rl : List Event) :
    ∃ v v' ll' chunks es, Covers 0 chunks f.contents ∧
      es.filterMap (Event.call .ok) = .fileStart f.name f.contents.length ::
        (chunks ++ [.fileEnd f.name f.contents.length true]) ∧
      ll'.filterMap Event.wire = ll.filterMap Event.wire ++ fileArrivals crc z i f ∧
      Timed.Reaches (noisyTx P crc tcbs z) (timedRx P crc (fileCallbacks start data finish))
        (betweenFiles tcbs i u u' ll rl) (betweenFiles tcbs (i + 1) v v' ll' (rl ++ es)) := by
  obtain ⟨-, hinfo, -⟩ := fileLocals_file tcbs hs hf hidx u
  obtain ⟨res, u₁, ll₁, hlog₁, hopened⟩ := reaches_opened crc tcbs start data finish hs hf hwidth hidx hclean
    u u' ll rl
  obtain ⟨u₂, w, g, ll₂, es, hw, hg, hcover, hlog₂, hblocks⟩ := reaches_noisyBlocks crc tcbs start data finish
    hrec hs hf (fileLocals tcbs i u) hidx hinfo 0 (Nat.zero_le _) ⟨0, .data ⟨fileInfo f, 1, 0⟩, u₁⟩
    ⟨fileInfo f, 1, 0⟩ rfl rfl (fun _ => rfl) ll₁
    (rl ++ [.write ack, .write charC, .onFileStart (fileInfo f) res])
  obtain ⟨u₃, ll₃, hlog₃, hclosed⟩ := reaches_closed crc tcbs (z := z) start data finish hs
    { fileLocals tcbs i u with userData := u₂ } hidx w g hw ll₂
    (rl ++ [.write ack, .write charC, .onFileStart (fileInfo f) res] ++ es)
  refine ⟨u₂, u₃, ll₃, es.filterMap (Event.call .ok),
    [.write ack, .write charC, .onFileStart (fileInfo f) res] ++ es ++
      [.write nak, .write ack, .onFileEnd g.info .ok, .write charC], hcover, ?_, ?_, ?_⟩
  · simp [Event.call, fileInfo, hg]
  · rw [hlog₃, hlog₂, hlog₁, fileArrivals, List.append_assoc, List.append_assoc]
    rfl
  · have hlog : rl ++ ([.write ack, .write charC, .onFileStart (fileInfo f) res] ++ es ++
          [.write nak, .write ack, .onFileEnd g.info .ok, .write charC]) =
        rl ++ [.write ack, .write charC, .onFileStart (fileInfo f) res] ++ es ++ [.write nak] ++
          [Event.write ack, .onFileEnd g.info .ok, .write charC] := by
      simp only [List.append_assoc, List.cons_append, List.nil_append]
    rw [hlog]
    exact hopened.trans (hblocks.trans hclosed)

/-! ### The files up to the end of the batch, or up to a garbled Block 0 -/

theorem reaches_noisyFiles (hrec : Recoverable crc z) (hs : Serves P.sizeMod tcbs files)
    (hfiles : ∀ f ∈ files, Sendable P f) (hwidth : P.sizeBits ≤ P.ulongBits) (rest : List File) (i : ℕ)
    (hrest : rest <+: files.drop i) (hclean : ∀ k < i + rest.length, z.block0 k = none) (u : υ) (u' : υ')
    (ll rl : List Event) :
    ∃ v v' ll' es, Reports rest (es.filterMap (Event.call .ok)) ∧
      ll'.filterMap Event.wire = ll.filterMap Event.wire ++ filesArrivals crc z i rest ∧
      Timed.Reaches (noisyTx P crc tcbs z) (timedRx P crc (fileCallbacks start data finish))
        (betweenFiles tcbs i u u' ll rl)
        (betweenFiles tcbs (i + rest.length) v v' ll' (rl ++ es)) := by
  induction rest generalizing i u u' ll rl with
  | nil =>
    refine ⟨u, u', ll, [], rfl, (List.append_nil _).symm, ?_⟩
    rw [List.append_nil]
    exact Timed.Reaches.refl _
  | cons f rest ih =>
    obtain ⟨tail, htail⟩ := hrest
    have hidx : files[i]? = some f := by
      rw [← List.head?_drop, ← htail]
      rfl
    have hdrop : rest <+: files.drop (i + 1) := by
      refine ⟨tail, ?_⟩
      rw [← List.tail_drop, ← htail]
      rfl
    have hlen : i + 1 + rest.length = i + (f :: rest).length := by
      rw [List.length_cons]
      omega
    obtain ⟨v, v', ll₁, chunks, es, hcover, hcalls, hlog₁, hfirst⟩ := reaches_noisyFile crc tcbs start data
      finish hrec hs (hfiles f (List.mem_of_getElem? hidx)) hwidth hidx
      (hclean i (by rw [List.length_cons]; omega)) u u' ll rl
    obtain ⟨w, w', ll₂, es', hreports, hlog₂, hlast⟩ := ih (i + 1) hdrop (by rwa [hlen]) v v' ll₁ (rl ++ es)
    rw [hlen] at hlast
    refine ⟨w, w', ll₂, es ++ es', ?_, ?_, ?_⟩
    · have hcons := Reports.cons hcover hreports
      rw [List.filterMap_append, hcalls]
      simpa using hcons
    · rw [hlog₂, hlog₁, List.append_assoc, filesArrivals, filesArrivals, List.zipIdx_cons,
        List.flatMap_cons]
    · rw [← List.append_assoc]
      exact hfirst.trans hlast

theorem reaches_allOver (hs : Serves P.sizeMod tcbs files) (hclean : z.block0 files.length = none) (u : υ)
    (u' : υ') (ll rl : List Event) :
    ∃ ll', ll'.filterMap Event.wire = ll.filterMap Event.wire ++
        packet crc 0 (List.replicate 128 0) ∧
      Timed.Reaches (noisyTx P crc tcbs z) (timedRx P crc (fileCallbacks start data finish))
      (betweenFiles tcbs files.length u u' ll rl)
      (fresh ⟨[], .done .ok⟩ ⟨[], .done .ok⟩ [] ll' (rl ++ [.write ack])) := by
  have hfile := fileLocals_end tcbs hs u
  have hblock0 : (fileLocals tcbs files.length u).block0 = List.replicate 128 0 := if_neg hfile
  have hout : z.outgoing ⟨writeBytes (packet crc 0 (fileLocals tcbs files.length u).block0),
      .wait (.ackBlock0 (fileLocals tcbs files.length u))⟩ =
        ⟨writeBytes (packet crc 0 (List.replicate 128 0)),
          .wait (.ackBlock0 (fileLocals tcbs files.length u))⟩ := by
    have harrives : z.arrives (.ackBlock0 (fileLocals tcbs files.length u)) = none := hclean
    rw [outgoing_of_none z harrives, hblock0]
  have hfirst := reaches_block0_out crc tcbs (z := z) (P := P) (fileCallbacks start data finish)
    files.length u u' ll rl
  rw [hout] at hfirst
  have hname : (parseBlock0 P (List.replicate 128 0) 128).filename = [] := rfl
  have hdone : receiveStep P crc (fileCallbacks start data finish)
      (lastRead crc (idle u') 0 (List.replicate 128 0))
      (.ok (crcLo (modemCrc16 crc (List.replicate 128 0)))) = ⟨[.write ack], .done .ok⟩ := by
    rw [receiveStep_lastRead]
    simp only [packetDone, idle, ne_eq, not_true_eq_false, if_false]
    exact acceptBlock0_end P _ _ _ hname
  have hlast := Duplex.feedRight_last (P := (noisyTx P crc tcbs z).toParty)
    (Q := (timedRx P crc (fileCallbacks start data finish)).toParty)
    ⟨[], .wait (.ackBlock0 (fileLocals tcbs files.length u))⟩ [] []
    (ll ++ writeBytes (packet crc 0 (List.replicate 128 0))) rl
    (feed_packet_init P crc (fileCallbacks start data finish) (idle u') 0 (List.replicate 128 0)
      (.inl List.length_replicate)) hdone
  rw [← packet_eq_append] at hlast
  have hflush := Duplex.flushLeft (P := (noisyTx P crc tcbs z).toParty)
    (Q := (timedRx P crc (fileCallbacks start data finish)).toParty)
    (writeBytes (packet crc 0 (List.replicate 128 0)))
    (.wait (.ackBlock0 (fileLocals tcbs files.length u))) ⟨[], .wait ⟨.header, idle u'⟩⟩ [] [] ll rl
  have hwire : (writeBytes (packet crc 0 (List.replicate 128 0))).filterMap
      (noisyTx P crc tcbs z).wire = packet crc 0 (List.replicate 128 0) := wire_writeBytes _
  rw [hwire, List.nil_append] at hflush
  have hack : (noisyTx P crc tcbs z).resume (.ackBlock0 (fileLocals tcbs files.length u)) (.ok ack) =
      ⟨[], .done .ok⟩ := by
    simp only [noisyTx, noisyStep, Noise.incoming, transmitStep, ne_eq, not_true_eq_false, if_false,
      if_neg hfile]
    rfl
  have hread := reaches_readLeft crc (P := P) (T := noisyTx P crc tcbs z)
    (fileCallbacks start data finish) (.ackBlock0 (fileLocals tcbs files.length u))
    ⟨[], .done .ok⟩ ack [] (ll ++ writeBytes (packet crc 0 (List.replicate 128 0))) (rl ++ [.write ack])
  rw [hack] at hread
  refine ⟨ll ++ writeBytes (packet crc 0 (List.replicate 128 0)), ?_,
    hfirst.trans ((Timed.reaches_of_lines (hflush.trans hlast)).trans hread)⟩
  rw [List.filterMap_append, wire_writeBytes]

/-! ### A garbled Block 0 -/

/-- On a dead line the receiver asks for Block 0 until its attempts are used up. -/
theorem run_requests (rcbs : RxCallbacks υ') (v : RxLocals υ') (hv : v.phase = .block0) :
    ∃ k es, Requests es ∧ run (receiveStep P crc rcbs) (.wait ⟨.header, v⟩)
      (List.replicate k .timeout) = ⟨es, .done .errorTimeout⟩ := by
  induction hleft : roundsLeft maxRetries v.retries using Nat.strongRecOn generalizing v with
  | ind left ih =>
    have hask : receiveStep P crc rcbs ⟨.header, v⟩ .timeout = requestAgain v := by
      simp only [receiveStep, headerTimeout, hv]
    by_cases hmore : v.retries + 1 < maxRetries
    · rw [requestAgain, if_pos hmore] at hask
      have hlt : roundsLeft maxRetries (v.retries + 1) < left := by
        rw [← hleft]
        exact roundsLeft_lt_of_lt hmore
      obtain ⟨k, es, hes, hrun⟩ := ih _ hlt { v with retries := v.retries + 1 } hv rfl
      refine ⟨k + 1, sendByte charC ++ es, requests_charC.append hes, ?_⟩
      rw [List.replicate_succ, run_wait, hask, hrun]
      rfl
    · rw [requestAgain, if_neg hmore] at hask
      refine ⟨1, sendByte charC ++ sendByte can, requests_charC.append requests_can, ?_⟩
      rw [List.replicate_one, run_wait, hask]
      rfl

theorem calls_requests {es : List Event} (h : Requests es) : es.filterMap (Event.call .ok) = [] := by
  rw [List.filterMap_eq_nil_iff]
  intro e he
  obtain ⟨b, rfl⟩ := h.writes e he
  rfl

/-- After a garbled Block 0 the transmitter takes the second request for a refusal. -/
theorem reaches_refused (rcbs : RxCallbacks υ') {k : ℕ} {bs : List Byte} (hblock0 : z.block0 k = some bs)
    (hgarbled : Garbled crc bs) (u : υ) (u' : υ') (ll rl : List Event) :
    ∃ tl ll' es a, es.filterMap (Event.call .ok) = [] ∧
      ll'.filterMap Event.wire = ll.filterMap Event.wire ++ bs ∧
      Timed.Reaches (noisyTx P crc tcbs z) (timedRx P crc rcbs) (betweenFiles tcbs k u u' ll rl)
        ⟨⟨⟨[], .done .errorTimeout⟩, ⟨[], .done .errorTimeout⟩, [], tl, ll', rl ++ es⟩, a, 0⟩ := by
  let x : TxSite υ := .ackBlock0 (fileLocals tcbs k u)
  have harrives : z.arrives x = some bs := hblock0
  have hfirst := reaches_block0_out crc tcbs (z := z) (P := P) rcbs k u u' ll rl
  have hwire := wire_outgoing z (writeBytes (packet crc 0 (fileLocals tcbs k u).block0)) x
  have hnext := outgoing_next z ⟨writeBytes (packet crc 0 (fileLocals tcbs k u).block0), .wait x⟩
  rcases hout : z.outgoing ⟨writeBytes (packet crc 0 (fileLocals tcbs k u).block0), .wait x⟩
    with ⟨out, n⟩
  rw [hout] at hwire hnext hfirst
  obtain rfl : n = .wait x := hnext
  rw [harrives, Option.getD_some] at hwire
  have hout_garbled : Garbled crc (out.filterMap Event.wire) := by
    rw [hwire]
    exact hgarbled
  have hask : afterPurge (idle u') = ⟨sendByte charC, .wait ⟨.header, ⟨1, .block0, u'⟩⟩⟩ := rfl
  have hagain := reaches_again crc (T := noisyTx P crc tcbs z) (P := P) (x := x) rfl rcbs rfl
    hout_garbled hask ll rl
  have hrefused : (noisyTx P crc tcbs z).resume x (.ok charC) = ⟨[], .done .errorTimeout⟩ := rfl
  rw [hrefused] at hagain
  obtain ⟨j, es, hes, hrun⟩ := run_requests (P := P) crc rcbs ⟨1, .block0, u'⟩ rfl
  obtain ⟨a, halone⟩ := Timed.reaches_alone (P := noisyTx P crc tcbs z) (Q := timedRx P crc rcbs) hrun
    .errorTimeout [] (ll ++ out) (rl ++ sendByte charC) 0
  refine ⟨[] ++ es.filterMap Event.wire, ll ++ out, sendByte charC ++ es, a,
    calls_requests (requests_charC.append hes), ?_, ?_⟩
  · rw [List.filterMap_append, hwire]
  rw [← List.append_assoc]
  exact hfirst.trans (hagain.trans halone)

/-! ### The whole session -/

/-- Both sides give up, and the receiver has reported the files before the `k`-th. -/
def Stopped (files : List File) (k : ℕ)
    (s : Duplex Byte Event (TxSite υ) Status Event (RxState υ') Status) : Prop :=
  s.left = ⟨[], .done .errorTimeout⟩ ∧ s.right = ⟨[], .done .errorTimeout⟩ ∧
    Reports (files.take k) (s.rightLog.filterMap (Event.call .ok))

theorem reaches_started (rcbs : RxCallbacks υ') (u : υ) (u' : υ') :
    Timed.Reaches (noisyTx P crc tcbs z) (timedRx P crc rcbs) ⟨Ymodem.start tcbs u u', 0, 0⟩
      (betweenFiles tcbs 0 u u' [.getFileInfo 0] [.write charC]) :=
  Timed.reaches_of_lines ((Duplex.flushLeft [Event.getFileInfo 0] _ _ [] [] [] []).trans
    (Duplex.flushRight _ [Event.write charC] _ [] [] [Event.getFileInfo 0] []))

end Batch

/-- Whatever the line does to blocks and replies, as long as one attempt at each block comes
through, the two functions end with OK and the whole batch reported. -/
theorem noisy_batch {υ υ' : Type} (P : Platform) (crc : CrcService) (tcbs : TxCallbacks υ)
    (files : List File) (start' : FileInfo → υ' → ℤ × υ') (data : List Byte → ℕ → ℕ → υ' → ℤ × υ')
    (finish : FileInfo → Status → υ' → υ') (z : Noise) (u : υ) (u' : υ')
    (hs : Serves P.sizeMod tcbs files) (hfiles : ∀ f ∈ files, Sendable P f)
    (hwidth : P.sizeBits ≤ P.ulongBits) (hrec : Recoverable crc z) (hblock0 : ∀ i, z.block0 i = none) :
    Timed.Settles (noisyTx P crc tcbs z) (timedRx P crc (fileCallbacks start' data finish))
      ⟨start tcbs u u', 0, 0⟩ (Agreed files) := by
  have hstarted := reaches_started crc tcbs (z := z) (P := P) (fileCallbacks start' data finish) u u'
  obtain ⟨v, v', ll, es, hreports, -, hfiles'⟩ := reaches_noisyFiles crc tcbs start' data finish hrec hs
    hfiles hwidth files 0 (List.prefix_refl _) (fun k _ => hblock0 k) u u' [.getFileInfo 0] [.write charC]
  rw [Nat.zero_add] at hfiles'
  obtain ⟨ll', -, hover⟩ := reaches_allOver crc tcbs start' data finish hs (hblock0 _) v v' ll
    ([.write charC] ++ es)
  refine (hstarted.trans (hfiles'.trans hover)).settles ⟨⟨.ok, rfl⟩, .ok, rfl⟩ (Timed.calm_start _)
    ⟨rfl, rfl, ?_⟩
  simpa [fresh] using hreports

/-- The first packet of the first file is cut off and the reply to the second one is garbled. -/
def twoLost (block0 : ℕ → Option (List Byte)) : Noise where
  block0 := block0
  packet i offset j := if i = 0 ∧ offset = 0 ∧ j = 0 then some [soh, 1, 0xFE, 9] else none
  reply i offset j := if i = 0 ∧ offset = 0 ∧ j = 1 then some 0x16 else none

theorem recoverable_twoLost (crc : CrcService) (block0 : ℕ → Option (List Byte)) :
    Recoverable crc (twoLost block0) where
  packet i offset j bs h := by
    simp only [twoLost] at h
    split at h
    · cases h
      refine .intro (by decide) (by decide) fun _ => ?_
      rintro ⟨n, inv, payload, hi, lo, more, hlen, hrest, -⟩
      have hshort := congrArg List.length hrest
      have hsize : blockSizeOf soh = 128 := rfl
      simp only [List.length_cons, List.length_append, List.length_nil] at hshort
      omega
    · cases h
  reply i offset j b h := by
    simp only [twoLost] at h
    split at h
    · cases h
      decide
    · cases h
  through i offset := by
    refine ⟨2, by decide, ?_, ?_⟩
    · exact if_neg (by omega)
    · exact if_neg (by omega)

theorem sendable_letter {b : Byte} {contents : List Byte} (hb : (0 : Byte) ∉ [b])
    (hlen : contents.length + 1024 < platform32.sizeMod) : Sendable platform32 ⟨[b], contents⟩ :=
  ⟨List.cons_ne_nil b [], show 1 ≤ 100 by decide, hb, hlen⟩

theorem noisy_batch_two_lost :
    Timed.Settles (noisyTx platform32 referenceCrc (batchCallbacks [⟨[0x61], [1, 2, 3]⟩, ⟨[0x62], []⟩])
        (twoLost fun _ => none))
      (timedRx platform32 referenceCrc (fileCallbacks (fun _ _ => (0, ())) (fun _ _ _ _ => (0, ()))
        fun _ _ _ => ()))
      ⟨start (batchCallbacks [⟨[0x61], [1, 2, 3]⟩, ⟨[0x62], []⟩]) () (), 0, 0⟩
      (Agreed [⟨[0x61], [1, 2, 3]⟩, ⟨[0x62], []⟩]) := by
  refine noisy_batch platform32 referenceCrc _ _ _ _ _ _ () () (batchCallbacks_serves (by decide)) ?_
    (by decide) (recoverable_twoLost _ _) fun _ => rfl
  intro f hf
  simp only [List.mem_cons, List.not_mem_nil, or_false] at hf
  rcases hf with rfl | rfl
  · exact sendable_letter (by decide) (by decide)
  · exact sendable_letter (by decide) (by decide)

/-- If Block 0 of a file, or the one that ends the batch, is garbled, both functions give up
and only the files before it are reported. -/
theorem garbled_block0_stops {υ υ' : Type} (P : Platform) (crc : CrcService) (tcbs : TxCallbacks υ)
    (files : List File) (start' : FileInfo → υ' → ℤ × υ') (data : List Byte → ℕ → ℕ → υ' → ℤ × υ')
    (finish : FileInfo → Status → υ' → υ') (z : Noise) (u : υ) (u' : υ')
    (hs : Serves P.sizeMod tcbs files) (hfiles : ∀ f ∈ files, Sendable P f)
    (hwidth : P.sizeBits ≤ P.ulongBits) (hrec : Recoverable crc z) {k : ℕ} {bs : List Byte}
    (hk : k ≤ files.length) (hblock0 : z.block0 k = some bs) (hgarbled : Garbled crc bs)
    (hbefore : ∀ i < k, z.block0 i = none) :
    Timed.Settles (noisyTx P crc tcbs z) (timedRx P crc (fileCallbacks start' data finish))
      ⟨start tcbs u u', 0, 0⟩ (Stopped files k) := by
  have hstarted := reaches_started crc tcbs (z := z) (P := P) (fileCallbacks start' data finish) u u'
  have hlen : 0 + (files.take k).length = k := by
    rw [List.length_take]
    omega
  obtain ⟨v, v', ll, es, hreports, -, hfiles'⟩ := reaches_noisyFiles crc tcbs start' data finish hrec hs
    hfiles hwidth (files.take k) 0 (List.take_prefix k files) (by rwa [hlen]) u u' [.getFileInfo 0]
    [.write charC]
  rw [hlen] at hfiles'
  obtain ⟨tl, ll', es', a, hcalls, -, hrefused⟩ := reaches_refused crc tcbs (P := P)
    (fileCallbacks start' data finish) hblock0 hgarbled v v' ll ([.write charC] ++ es)
  refine (hstarted.trans (hfiles'.trans hrefused)).settles ⟨⟨.errorTimeout, rfl⟩, .errorTimeout, rfl⟩
    (Timed.calm_start _) ⟨rfl, rfl, ?_⟩
  simpa [hcalls] using hreports

/-- The second of two files, announced by a packet that lost its header byte. -/
theorem garbled_block0_stops_second_file :
    Timed.Settles (noisyTx platform32 referenceCrc (batchCallbacks [⟨[0x61], [1, 2, 3]⟩, ⟨[0x62], []⟩])
        (twoLost fun i => if i = 1 then some [0, 0xFF] else none))
      (timedRx platform32 referenceCrc (fileCallbacks (fun _ _ => (0, ())) (fun _ _ _ _ => (0, ()))
        fun _ _ _ => ()))
      ⟨start (batchCallbacks [⟨[0x61], [1, 2, 3]⟩, ⟨[0x62], []⟩]) () (), 0, 0⟩
      (Stopped [⟨[0x61], [1, 2, 3]⟩, ⟨[0x62], []⟩] 1) := by
  have hgarbled : Garbled referenceCrc [0, 0xFF] :=
    .intro (by decide) (by decide) fun h => absurd h (by decide)
  refine garbled_block0_stops platform32 referenceCrc _ _ _ _ _ _ () ()
    (batchCallbacks_serves (by decide)) ?_ (by decide) (recoverable_twoLost _ _) (by decide) rfl hgarbled
    ?_
  · intro f hf
    simp only [List.mem_cons, List.not_mem_nil, or_false] at hf
    rcases hf with rfl | rfl
    · exact sendable_letter (by decide) (by decide)
    · exact sendable_letter (by decide) (by decide)
  · intro i hi
    exact if_neg (by omega)

end ZephyrModem.Ymodem
