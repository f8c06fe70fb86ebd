import Mathlib.Data.List.Induction
import ZephyrModem.Xmodem.Safety
import ZephyrModem.Ymodem.Frames

/-!
# What the YMODEM receiver lets through

On a line that may carry anything, the calls and the ACKs of `ymodem_receive`
are traced back to packets. The complement of the block number is read and not
looked at, which decides when a damaged packet is let through.
-/

namespace ZephyrModem.Ymodem
open ZephyrModem.Reactive ZephyrModem.Transfer
open ZephyrModem.Xmodem (Byte Read soh stx eot ack nak can charC RawPacket Announces announces_pos
  announces_framed)

/-- What has been read since the last header read, when the receiver stands in a
packet or at the second EOT. -/
def Trail (phase : Phase) : RxSite → List Read → Prop
  | .header, rs => rs = []
  | .secondEot, rs => (∃ f, phase = .data f) ∧ rs = [.ok eot]
  | .blkNum len, rs => ∃ h, Announces h len ∧ rs = [.ok h]
  | .blkNumInv len n, rs => ∃ h, Announces h len ∧ rs = [.ok h, .ok n]
  | .payload len n buf, rs => ∃ h inv, Announces h len ∧ buf.length < len ∧
      rs = (h :: n :: inv :: buf).map .ok
  | .crcHi n buf false, rs => ∃ h inv, Announces h buf.length ∧ rs = (h :: n :: inv :: buf).map .ok
  | .crcLo n buf false hi, rs => ∃ h inv, Announces h buf.length ∧
      rs = (h :: n :: inv :: (buf ++ [hi])).map .ok
  | .crcHi _ _ true, _ => True
  | .crcLo _ _ true _, _ => True
  | .purge, _ => True

/-- What has been written since then. -/
def said : RxSite → List Event
  | .secondEot => sendByte nak
  | _ => []

theorem Trail.readsOn {phase : Phase} {site site' : RxSite} {r : Read} {rs : List Read}
    (h : Trail phase site rs) (hnext : site.ReadsOn phase r site') :
    Trail phase site' (rs ++ [r]) ∧ said site = said site' := by
  cases hnext with
  | block128 =>
    obtain rfl : rs = [] := h
    exact ⟨⟨soh, .inl ⟨rfl, rfl⟩, rfl⟩, rfl⟩
  | block1024 =>
    obtain rfl : rs = [] := h
    exact ⟨⟨stx, .inr ⟨rfl, rfl⟩, rfl⟩, rfl⟩
  | number len n =>
    obtain ⟨hd, ha, rfl⟩ := h
    exact ⟨⟨hd, ha, rfl⟩, rfl⟩
  | complement len n inv =>
    obtain ⟨hd, ha, rfl⟩ := h
    exact ⟨⟨hd, inv, ha, announces_pos ha, rfl⟩, rfl⟩
  | byte n hmore =>
    obtain ⟨hd, inv, ha, -, rfl⟩ := h
    exact ⟨⟨hd, inv, ha, hmore, by simp⟩, rfl⟩
  | last n hend =>
    obtain ⟨hd, inv, ha, hlt, rfl⟩ := h
    exact ⟨⟨hd, inv, ha.last hlt hend, by simp⟩, rfl⟩
  | missing len n buf r => exact ⟨trivial, rfl⟩
  | check n buf e hi =>
    cases e with
    | true => exact ⟨trivial, rfl⟩
    | false =>
      obtain ⟨hd, inv, ha, rfl⟩ := h
      exact ⟨⟨hd, inv, ha, by simp⟩, rfl⟩
  | rejected site r hsite =>
    refine ⟨trivial, ?_⟩
    cases site with
    | secondEot => exact absurd rfl hsite
    | _ => rfl
  | outside r hphase =>
    obtain ⟨⟨f, hf⟩, -⟩ := h
    cases hphase.symm.trans hf

/-- Calls that store something, and the byte that acknowledges it. -/
def Accepts : Event → Prop
  | .onFileStart .. | .onData .. => True
  | .write b => b = Xmodem.ack
  | _ => False

section Integrity

variable {υ : Type} (P : Platform) (crc : CrcService) (cbs : RxCallbacks υ)

theorem acceptBlock0_next {v : RxLocals υ} {buf : List Byte} {t : RxState υ}
    (h : (acceptBlock0 P cbs v buf).next = .wait t) : t.site = .header := by
  by_cases hname : (parseBlock0 P buf 128).filename = []
  · rw [acceptBlock0_end P cbs v buf hname] at h
    cases h
  · rw [acceptBlock0_file P cbs v buf hname] at h
    cases h
    rfl

theorem acceptBlock_next {v : RxLocals υ} {f : FileLocals} {n : Byte} {buf : List Byte}
    {t : RxState υ} (h : (acceptBlock P cbs v f n buf).next = .wait t) : t.site = .header := by
  unfold acceptBlock at h
  split_ifs at h
  · cases h
    rfl
  · cases h
    rfl
  · cases h

theorem trail_next {s t : RxState υ} {rs : List Read} {r : Read}
    (ht : Trail s.locals.phase s.site rs) (h : (receiveStep P crc cbs s r).next = .wait t) :
    t.site = .header ∨ (t.locals = s.locals ∧ Trail s.locals.phase t.site (rs ++ [r]) ∧
      said s.site ++ (receiveStep P crc cbs s r).events = said t.site) := by
  rcases receiveStep_cases P crc cbs s r with ⟨site, hnext, he⟩ | ⟨es, v, -, -, -, -, he⟩ |
    ⟨f, hs, rfl, hp, he⟩ | ⟨es, st, -, -, -, he⟩ | ⟨es, f, st, -, -, -, he⟩ | ⟨f, -, hp, he⟩ |
    ⟨buf, -, he⟩ | ⟨f, n, buf, -, he⟩
  · rw [he] at h ⊢
    cases h
    obtain ⟨htrail, hsaid⟩ := ht.readsOn hnext
    exact .inr ⟨rfl, htrail, by rw [← hsaid]; exact List.append_nil _⟩
  · rw [he] at h
    cases h
    exact .inl rfl
  · rw [he] at h ⊢
    cases h
    rw [hs] at ht ⊢
    obtain rfl : rs = [] := ht
    exact .inr ⟨rfl, ⟨⟨f, hp⟩, rfl⟩, rfl⟩
  · rw [he] at h
    cases h
  · rw [he] at h
    cases h
  · rw [he] at h
    simp only [endFile, hp] at h
    cases h
    exact .inl rfl
  · rw [he] at h
    exact .inl (acceptBlock0_next P cbs h)
  · rw [he] at h
    exact .inl (acceptBlock_next P cbs h)

/-! ### Packets of a run -/

/-- The packet `p` is read in full from the header read after `pre` on. -/
structure Arrives (userData : υ) (reads pre : List Read) (v : RxLocals υ) (p : RawPacket) : Prop where
  header : (received P crc cbs userData pre).next = .wait ⟨.header, v⟩
  bytes : pre ++ p.bytes.map .ok <+: reads
  framed : p.Framed true

/-- The packet goes unanswered until the line is quiet, and then a request or the
end in step 1 answers it; the file in progress stays as it was. -/
structure Rejected (userData : υ) (pre : List Read) (v : RxLocals υ) (p : RawPacket) : Prop where
  drains : received P crc cbs userData (pre ++ p.bytes.map .ok) =
    ⟨(received P crc cbs userData pre).events, .wait ⟨.purge, v⟩⟩
  answer : ∀ (bs : List Byte) (r : Read), (∀ b, r ≠ .ok b) →
    (∃ b w, (b = nak ∨ b = charC) ∧ w.phase = v.phase ∧
      received P crc cbs userData (pre ++ p.bytes.map .ok ++ bs.map .ok ++ [r]) =
        ⟨(received P crc cbs userData pre).events ++ [.write b], .wait ⟨.header, w⟩⟩) ∨
    (maxRetries ≤ v.retries + 1 ∧
      received P crc cbs userData (pre ++ p.bytes.map .ok ++ bs.map .ok ++ [r]) =
        ⟨(received P crc cbs userData pre).events ++ [.write charC, .write can], .done .errorTimeout⟩)

/-- Packets are accepted on both tests, and rejected otherwise. -/
structure ChecksPackets (userData : υ) (reads : List Read) : Prop where
  accepts : ∀ l₁ e l₂, (received P crc cbs userData reads).events = l₁ ++ e :: l₂ → Accepts e →
    (∃ pre v p a b, Arrives P crc cbs userData reads pre v p ∧ p.Verified crc true ∧
      l₁ = (received P crc cbs userData pre).events ++ a ∧
      (received P crc cbs userData (pre ++ p.bytes.map .ok)).events =
        (received P crc cbs userData pre).events ++ a ++ e :: b) ∨
    (∃ pre v f r, e = .write ack ∧ (received P crc cbs userData pre).next = .wait ⟨.header, v⟩ ∧
      v.phase = .data f ∧ pre ++ [.ok eot, r] <+: reads ∧
      l₁ = (received P crc cbs userData pre).events ++ [.write nak])
  rejects : ∀ pre v p, Arrives P crc cbs userData reads pre v p → ¬ p.Verified crc true →
    Rejected P crc cbs userData pre v p

variable {P crc cbs}

theorem received_snoc {userData : υ} {reads : List Read} {s : RxState υ}
    (h : (received P crc cbs userData reads).next = .wait s) (r : Read) :
    received P crc cbs userData (reads ++ [r]) =
      (receiveStep P crc cbs s r).after (received P crc cbs userData reads).events := by
  rw [received, Out.after_next] at h
  rw [received, run_snoc _ h, Out.after_after]
  rfl

theorem received_feed {userData : υ} {reads : List Read} {s : RxState υ}
    (h : (received P crc cbs userData reads).next = .wait s) (bs : List Byte) :
    received P crc cbs userData (reads ++ bs.map .ok) =
      (feed (receiveStep P crc cbs) (.wait s) bs).after (received P crc cbs userData reads).events := by
  rw [received, Out.after_next] at h
  rw [received, run_append, h, Out.after_after]
  rfl

theorem received_done {userData : υ} {reads : List Read} {st : Status}
    (h : (received P crc cbs userData reads).next = .done st) (r : Read) :
    (received P crc cbs userData (reads ++ [r])).next = .done st := by
  rw [received, Out.after_next] at h
  rw [received, run_append, h, run_done]
  rfl

theorem received_trail (userData : υ) (reads : List Read) {s : RxState υ}
    (h : (received P crc cbs userData reads).next = .wait s) :
    ∃ pre rs, reads = pre ++ rs ∧ Trail s.locals.phase s.site rs ∧
      (received P crc cbs userData pre).next = .wait ⟨.header, s.locals⟩ ∧
      (received P crc cbs userData reads).events =
        (received P crc cbs userData pre).events ++ said s.site := by
  induction reads using List.reverseRecOn generalizing s with
  | nil =>
    cases h
    exact ⟨[], [], rfl, rfl, rfl, rfl⟩
  | append_singleton reads r ih =>
    cases hprev : (received P crc cbs userData reads).next with
    | done st =>
      rw [received_done hprev] at h
      cases h
    | wait t =>
      obtain ⟨pre, rs, hreads, htrail, hpre, hevents⟩ := ih hprev
      have hsnoc := received_snoc hprev r
      rw [hsnoc, Out.after_next] at h
      rcases trail_next P crc cbs htrail h with hs | ⟨hv, hsite, hsaid⟩
      · refine ⟨reads ++ [r], [], (List.append_nil _).symm, ?_, ?_, ?_⟩
        · rw [hs]
          rfl
        · rw [hsnoc, Out.after_next, h, ← hs]
        · rw [hs]
          exact (List.append_nil _).symm
      · refine ⟨pre, rs ++ [r], by rw [hreads, List.append_assoc], hv ▸ hsite, hv ▸ hpre, ?_⟩
        rw [hsnoc, Out.after_events, hevents, List.append_assoc, hsaid]

theorem crc_framed {p : RawPacket} (hp : p.Framed true) : ∃ hi lo, p.check = [hi, lo] :=
  List.length_eq_two.mp hp.check

theorem feed_raw {v : RxLocals υ} {p : RawPacket} (hp : p.Framed true) :
    feed (receiveStep P crc cbs) (.wait ⟨.header, v⟩) p.bytes =
      if p.check = Xmodem.checkBytes crc true p.payload then packetDone P cbs v p.blkNum p.payload
      else ⟨[], .wait ⟨.purge, v⟩⟩ := by
  obtain ⟨h, n, inv, payload, check⟩ := p
  obtain ⟨hi, lo, rfl⟩ : ∃ hi lo, check = [hi, lo] := crc_framed hp
  have hlen : payload.length = 128 ∨ payload.length = 1024 := by
    have hlen := hp.payload
    rw [RawPacket.blockLen] at hlen
    split at hlen
    · exact .inl hlen
    · exact .inr hlen
  have hhead : h = if payload.length = 1024 then stx else soh := by
    have hlen := hp.payload
    rcases hp.header with hh | hh
    · change h = soh at hh
      subst hh
      change payload.length = 128 at hlen
      rw [if_neg (by omega)]
    · change h = stx at hh
      subst hh
      change payload.length = 1024 at hlen
      rw [if_pos hlen]
  have hcrc : modemCrc16 crc payload = be16 hi lo ↔
      [hi, lo] = Xmodem.checkBytes crc true payload := by
    rw [eq_comm, be16_eq_iff]
    simp [Xmodem.checkBytes]
  have hcrc' : be16 hi lo = modemCrc16 crc payload ↔
      [hi, lo] = Xmodem.checkBytes crc true payload := by
    rw [← hcrc, eq_comm]
  simp only [RawPacket.bytes]
  rw [hhead, feed_header P crc cbs v payload _ hlen,
    feed_rxAt P crc cbs ⟨.blkNum payload.length, v⟩ n (.blkNumInv payload.length n) v rfl,
    feed_rxAt P crc cbs ⟨.blkNumInv payload.length n, v⟩ inv (.payload payload.length n []) v rfl,
    feed_payload P crc cbs v n payload _ hp.payload_ne_nil,
    feed_rxAt P crc cbs ⟨.crcHi n payload false, v⟩ hi (.crcLo n payload false hi) v rfl,
    feed_cons, feed_nil]
  simp only [receiveStep, checkPacket, Bool.false_eq_true, if_false]
  by_cases hc : [hi, lo] = Xmodem.checkBytes crc true payload
  · rw [if_pos hc]
    cases hph : v.phase with
    | block0 => simp [packetDone, hph, hcrc'.mpr hc, Out.after]
    | data f => simp [packetDone, hph, hcrc.mpr hc, Out.after]
  · rw [if_neg hc]
    cases hph : v.phase with
    | block0 => simp [hcrc', hc, rxAt, Out.after]
    | data f => simp [hcrc, hc, rxAt, Out.after]

theorem not_accepts_request {es : List Event} (h : Requests es) {e : Event} (he : e ∈ es) :
    ¬ Accepts e := by
  intro hacc
  rcases h e he with rfl | rfl | rfl
  · cases hacc
  · cases hacc
  · cases hacc

theorem not_accepts_fileEnd {info : FileInfo} {st : Status} {u : υ} {e : Event}
    (he : e ∈ (callFileEnd cbs info st u).1) : ¬ Accepts e := by
  rw [((mem_callFileEnd_iff cbs info st u e).mp he).2]
  exact id

theorem reaction_accepts {s : RxState υ} {r : Read} {a b : List Event} {e : Event}
    (h : (receiveStep P crc cbs s r).events = a ++ e :: b) (he : Accepts e) :
    (s.site = .secondEot ∧ (∃ f, s.locals.phase = .data f) ∧ a = [] ∧ e = .write ack) ∨
    ∃ n buf hi lo, s.site = .crcLo n buf false hi ∧ r = .ok lo ∧
      modemCrc16 crc buf = be16 hi lo ∧ (s.locals.phase = .block0 → n = 0) := by
  have hmem : e ∈ (receiveStep P crc cbs s r).events := by
    rw [h]
    simp
  rcases receiveStep_cases P crc cbs s r with ⟨site, -, hs⟩ | ⟨es, v, -, hes, -, -, hs⟩ |
    ⟨f, -, -, -, hs⟩ | ⟨es, st, hes, -, -, hs⟩ | ⟨es, f, st, hes, -, -, hs⟩ | ⟨f, hsite, hp, hs⟩ |
    ⟨buf, ha, hs⟩ | ⟨f, n, buf, ha, hs⟩ <;> rw [hs] at hmem
  · cases hmem
  · exact absurd he (not_accepts_request hes hmem)
  · exact absurd he (not_accepts_request requests_nak hmem)
  · exact absurd he (not_accepts_request hes hmem)
  · rcases List.mem_append.mp hmem with hin | hin
    · exact absurd he (not_accepts_request hes hin)
    · exact absurd he (not_accepts_fileEnd hin)
  · left
    have hevents : (receiveStep P crc cbs s r).events = .write ack ::
        ((callFileEnd cbs f.info .ok s.locals.userData).1 ++ sendByte charC) := by
      rw [hs]
      simp only [endFile, hp]
      rfl
    rw [hevents, List.cons_eq_append_iff] at h
    rcases h with ⟨rfl, h⟩ | ⟨a', -, h⟩
    · exact ⟨hsite, ⟨f, hp⟩, rfl, (List.cons.inj h).1⟩
    · exfalso
      have hin : e ∈ (callFileEnd cbs f.info .ok s.locals.userData).1 ++ sendByte charC := by
        rw [h]
        simp
      rcases List.mem_append.mp hin with hin | hin
      · exact not_accepts_fileEnd hin he
      · exact not_accepts_request requests_charC hin he
  · right
    obtain ⟨hp, hi, lo, hsite, hr, hcrc⟩ := ha
    exact ⟨0, buf, hi, lo, hsite, hr, hcrc, fun _ => rfl⟩
  · right
    obtain ⟨hp, hi, lo, hsite, hr, hcrc⟩ := ha
    exact ⟨n, buf, hi, lo, hsite, hr, hcrc, fun h => by rw [h] at hp; cases hp⟩

/-- An accepting event of a run acknowledges the end of a file, or it belongs to a
packet whose CRC is right. -/
theorem accepts_packet {userData : υ} {reads : List Read} {l₁ l₂ : List Event} {e : Event}
    (h : (received P crc cbs userData reads).events = l₁ ++ e :: l₂) (he : Accepts e) :
    (∃ pre v p a b, Arrives P crc cbs userData reads pre v p ∧
      p.check = Xmodem.checkBytes crc true p.payload ∧ (v.phase = .block0 → p.blkNum = 0) ∧
      l₁ = (received P crc cbs userData pre).events ++ a ∧
      (received P crc cbs userData (pre ++ p.bytes.map .ok)).events =
        (received P crc cbs userData pre).events ++ a ++ e :: b) ∨
    (∃ pre v f r, e = .write ack ∧ (received P crc cbs userData pre).next = .wait ⟨.header, v⟩ ∧
      v.phase = .data f ∧ pre ++ [.ok eot, r] <+: reads ∧
      l₁ = (received P crc cbs userData pre).events ++ [.write nak]) := by
  cases l₁ with
  | nil =>
    cases (List.cons.inj h).1
    cases he
  | cons x l₁ =>
    obtain ⟨hx, hrest⟩ := List.cons.inj h
    obtain ⟨before, r, post, s, a, b, hreads, hnext, hstep, hl⟩ := exists_of_events_eq _ hrest
    have hlog : x :: l₁ = (received P crc cbs userData before).events ++ a := by
      rw [hl, ← hx]
      rfl
    obtain ⟨pre, rs, hbefore, htrail, hpre, hevents⟩ := received_trail userData before hnext
    rcases reaction_accepts hstep he with ⟨hsite, ⟨f, hf⟩, rfl, rfl⟩ |
      ⟨n, buf, hi, lo, hsite, rfl, hcrc, hzero⟩
    · right
      rw [hsite] at htrail
      obtain ⟨-, rfl⟩ := htrail
      refine ⟨pre, s.locals, f, r, rfl, hpre, hf, ⟨post, by rw [hreads, hbefore]; simp⟩, ?_⟩
      rw [hlog, hevents, hsite, List.append_nil]
      rfl
    · left
      rw [hsite] at htrail
      obtain ⟨hd, inv, ha, rfl⟩ := htrail
      have hsame : (received P crc cbs userData before).events =
          (received P crc cbs userData pre).events := by
        rw [hevents, hsite]
        exact List.append_nil _
      have hbytes : (RawPacket.mk hd n inv buf [hi, lo]).bytes.map ReadResult.ok =
          (hd :: n :: inv :: (buf ++ [hi])).map .ok ++ [.ok lo] := by
        simp [RawPacket.bytes]
      refine ⟨pre, s.locals, ⟨hd, n, inv, buf, [hi, lo]⟩, a, b,
        ⟨hpre, ⟨post, by rw [hreads, hbefore, hbytes]; simp⟩, announces_framed ha rfl⟩, ?_, hzero,
        by rw [hlog, hsame], ?_⟩
      · simpa [Xmodem.checkBytes, be16_eq_iff] using hcrc.symm
      · rw [hbytes, ← List.append_assoc, ← hbefore, received_snoc hnext, Out.after_events, hstep, hsame,
          List.append_assoc]

theorem rejected_of_drains {userData : υ} {pre : List Read} {v : RxLocals υ} {p : RawPacket}
    (h : received P crc cbs userData (pre ++ p.bytes.map .ok) =
      ⟨(received P crc cbs userData pre).events, .wait ⟨.purge, v⟩⟩) :
    Rejected P crc cbs userData pre v p where
  drains := h
  answer := by
    intro bs r hr
    have hdrain : received P crc cbs userData (pre ++ p.bytes.map .ok ++ bs.map .ok) =
        ⟨(received P crc cbs userData pre).events, .wait ⟨.purge, v⟩⟩ := by
      induction bs using List.reverseRecOn with
      | nil => simpa using h
      | append_singleton bs b ih =>
        rw [List.map_append, ← List.append_assoc, List.map_singleton,
          received_snoc (by rw [ih]), ih]
        simp [receiveStep, rxAt, Out.after]
    have hstep : receiveStep P crc cbs ⟨.purge, v⟩ r = afterPurge v := by
      cases r with
      | ok b => exact absurd rfl (hr b)
      | timeout | cancel => rfl
    rw [received_snoc (by rw [hdrain]), hdrain, hstep]
    cases hp : v.phase with
    | block0 =>
      by_cases hlt : v.retries + 1 < maxRetries
      · left
        refine ⟨charC, { v with retries := v.retries + 1 }, .inr rfl, hp, ?_⟩
        simp only [afterPurge, hp, requestAgain, if_pos hlt]
        rfl
      · right
        refine ⟨UInt8.not_lt.mp hlt, ?_⟩
        simp only [afterPurge, hp, requestAgain, if_neg hlt]
        rfl
    | data f =>
      left
      refine ⟨nak, v, .inl rfl, hp, ?_⟩
      simp only [afterPurge, hp]
      rfl

theorem packetDone_events_ne {v : RxLocals υ} {n : Byte} {payload : List Byte}
    (h : ¬ (v.phase = .block0 ∧ n ≠ 0)) : (packetDone P cbs v n payload).events ≠ [] := by
  cases hp : v.phase with
  | block0 =>
    have hn : n = 0 := by
      by_contra hn
      exact h ⟨hp, hn⟩
    simp only [packetDone, hp, hn, ne_eq, not_true_eq_false, if_false]
    by_cases hname : (parseBlock0 P payload 128).filename = []
    · simp [acceptBlock0_end P cbs v payload hname, sendByte]
    · simp [acceptBlock0_file P cbs v payload hname, sendByte]
  | data f =>
    simp only [packetDone, hp, acceptBlock]
    split_ifs <;> simp [fileFails, sendByte]

theorem not_rejected {userData : υ} {reads pre : List Read} {v : RxLocals υ} {p : RawPacket}
    (h : Arrives P crc cbs userData reads pre v p)
    (hcheck : p.check = Xmodem.checkBytes crc true p.payload)
    (haccept : ¬ (v.phase = .block0 ∧ p.blkNum ≠ 0)) : ¬ Rejected P crc cbs userData pre v p := by
  intro hrej
  have hdrains := hrej.drains
  rw [received_feed h.header, feed_raw h.framed, if_pos hcheck] at hdrains
  have hevents : (packetDone P cbs v p.blkNum p.payload).events = [] := by
    simpa [Out.after] using congrArg Out.events hdrains
  exact packetDone_events_ne haccept hevents

/-- On each stream the packets are checked exactly when every packet that has the
right CRC and a wrong complement falls to the test for block number 0. -/
theorem checksPackets_iff (P : Platform) (crc : CrcService) (cbs : RxCallbacks υ) (userData : υ)
    (reads : List Read) :
    ChecksPackets P crc cbs userData reads ↔
      ∀ pre v p, Arrives P crc cbs userData reads pre v p →
        p.check = Xmodem.checkBytes crc true p.payload → p.blkNum + p.blkNumInv ≠ 0xFF →
        v.phase = .block0 ∧ p.blkNum ≠ 0 := by
  constructor
  · intro h pre v p hp hcheck hinv
    by_contra haccept
    exact not_rejected hp hcheck haccept (h.rejects pre v p hp fun hv => hinv hv.1)
  · intro h
    constructor
    · intro l₁ e l₂ hlog he
      rcases accepts_packet hlog he with ⟨pre, v, p, a, b, hp, hcheck, hzero, hl, hevents⟩ | heot
      · left
        refine ⟨pre, v, p, a, b, hp, ⟨?_, hcheck⟩, hl, hevents⟩
        by_contra hinv
        obtain ⟨hphase, hn⟩ := h pre v p hp hcheck hinv
        exact hn (hzero hphase)
      · exact .inr heot
    · intro pre v p hp hbad
      apply rejected_of_drains
      rw [received_feed hp.header, feed_raw hp.framed]
      by_cases hcheck : p.check = Xmodem.checkBytes crc true p.payload
      · have hinv : p.blkNum + p.blkNumInv ≠ 0xFF := fun hinv => hbad ⟨hinv, hcheck⟩
        obtain ⟨hphase, hn⟩ := h pre v p hp hcheck hinv
        rw [if_pos hcheck]
        simp [packetDone, hphase, hn, rxAt, Out.after]
      · rw [if_neg hcheck]
        simp [Out.after]

end Integrity

/-- Block 1 of a file after a change of one bit in its number. -/
def flippedBlock : RawPacket where
  header := soh
  blkNum := 0
  blkNumInv := 0xFE
  payload := List.replicate 128 0x41
  check := Xmodem.checkBytes referenceCrc true (List.replicate 128 0x41)

/-- The changed block passes for a duplicate: it is acknowledged and dropped. -/
theorem flipped_number_accepted :
    ¬ ChecksPackets platform32 referenceCrc (⟨none, none, none⟩ : RxCallbacks Unit) ()
      ((packet referenceCrc 0 (block0Payload oneByteFile) ++ flippedBlock.bytes).map .ok) := by
  intro h
  have hblock0 := feed_block0 platform32 referenceCrc (⟨none, none, none⟩ : RxCallbacks Unit)
    oneByteFile_fits ()
  have harrives : Arrives platform32 referenceCrc (⟨none, none, none⟩ : RxCallbacks Unit) ()
      ((packet referenceCrc 0 (block0Payload oneByteFile) ++ flippedBlock.bytes).map .ok)
      ((packet referenceCrc 0 (block0Payload oneByteFile)).map .ok)
      ⟨0, .data ⟨oneByteFile, 1, 0⟩, ()⟩ flippedBlock := by
    refine ⟨?_, ?_, ?_, ?_, ?_⟩
    · rw [received, Out.after_next]
      unfold feed at hblock0
      rw [hblock0]
    · rw [List.map_append]
    · exact .inl rfl
    · exact List.length_replicate
    · exact Xmodem.checkBytes_length referenceCrc true _
  have hbad : ¬ flippedBlock.Verified referenceCrc true := by
    intro hv
    exact absurd hv.1 (by decide)
  apply not_rejected harrives rfl _ (h.rejects _ _ _ harrives hbad)
  intro hb
  cases hb.1

end ZephyrModem.Ymodem
