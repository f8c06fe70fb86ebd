import Mathlib.Data.List.Induction
import ZephyrModem.Xmodem.Frames

/-!
# What the receiver lets through

On a line that may carry anything, each call of `data_cb` and each ACK of
`xmodem_receive` is traced back to the reads that led to it.
-/

namespace ZephyrModem.Xmodem
open ZephyrModem.Reactive

/-- A header byte and the payload length it announces. -/
def Announces (header : Byte) (blockLen : ℕ) : Prop :=
  header = soh ∧ blockLen = blockSize128 ∨ header = stx ∧ blockLen = blockSize1024

/-- What has been read of a packet when the receiver stands inside it. -/
def Trail (crcMode : Bool) : RxSite → List Read → Prop
  | .header, rs => rs = []
  | .secondCan, _ => True
  | .blkNum len, rs => ∃ h, Announces h len ∧ rs = [.ok h]
  | .blkNumInv len r1, rs => ∃ h, Announces h len ∧ rs = [.ok h, r1]
  | .payload len n buf, rs => ∃ h inv, Announces h len ∧ n + inv = 0xFF ∧ buf.length < len ∧
      rs = (h :: n :: inv :: buf).map .ok
  | .crcHi n buf, rs => crcMode = true ∧ ∃ h inv, Announces h buf.length ∧ n + inv = 0xFF ∧
      rs = (h :: n :: inv :: buf).map .ok
  | .crcLo n buf cr1, rs => crcMode = true ∧ ∃ h inv, Announces h buf.length ∧ n + inv = 0xFF ∧
      rs = (h :: n :: inv :: buf).map .ok ++ [cr1]
  | .cksum n buf, rs => crcMode = false ∧ ∃ h inv, Announces h buf.length ∧ n + inv = 0xFF ∧
      rs = (h :: n :: inv :: buf).map .ok
  | .purge _, _ => True

theorem announces_pos {h : Byte} {len : ℕ} (ha : Announces h len) : 0 < len := by
  rcases ha with ⟨-, rfl⟩ | ⟨-, rfl⟩ <;> decide

theorem announces_framed {h n inv : Byte} {buf check : List Byte} {crcMode : Bool}
    (ha : Announces h buf.length) (hc : check.length = if crcMode then 2 else 1) :
    (RawPacket.mk h n inv buf check).Framed crcMode where
  header := by
    rcases ha with ⟨rfl, -⟩ | ⟨rfl, -⟩
    · exact .inl rfl
    · exact .inr rfl
  payload := by
    rcases ha with ⟨rfl, hlen⟩ | ⟨rfl, hlen⟩
    · exact hlen
    · exact hlen
  check := hc

theorem Announces.last {hd b : Byte} {len : ℕ} {buf : List Byte} (ha : Announces hd len)
    (hlt : buf.length < len) (hend : ¬ (buf ++ [b]).length < len) :
    Announces hd (buf ++ [b]).length := by
  rw [length_full hlt hend]
  exact ha

theorem Trail.readsOn {crcMode : Bool} {site site' : RxSite} {r : Read} {rs : List Read}
    (h : Trail crcMode site rs) (hnext : site.ReadsOn crcMode r site') :
    Trail crcMode site' (rs ++ [r]) := by
  cases hnext with
  | second => trivial
  | block128 =>
    obtain rfl : rs = [] := h
    exact ⟨soh, .inl ⟨rfl, rfl⟩, rfl⟩
  | block1024 =>
    obtain rfl : rs = [] := h
    exact ⟨stx, .inr ⟨rfl, rfl⟩, rfl⟩
  | number len r1 =>
    obtain ⟨hd, ha, rfl⟩ := h
    exact ⟨hd, ha, rfl⟩
  | numbers len hn =>
    obtain ⟨hd, ha, rfl⟩ := h
    exact ⟨hd, _, ha, hn, announces_pos ha, rfl⟩
  | byte n hmore =>
    obtain ⟨hd, inv, ha, hn, -, rfl⟩ := h
    exact ⟨hd, inv, ha, hn, hmore, by simp⟩
  | lastCrc n hend hmode =>
    obtain ⟨hd, inv, ha, hn, hlt, rfl⟩ := h
    exact ⟨hmode, hd, inv, ha.last hlt hend, hn, by simp⟩
  | lastSum n hend hmode =>
    obtain ⟨hd, inv, ha, hn, hlt, rfl⟩ := h
    exact ⟨hmode, hd, inv, ha.last hlt hend, hn, by simp⟩
  | check n buf cr1 =>
    obtain ⟨hm, hd, inv, ha, hn, rfl⟩ := h
    exact ⟨hm, hd, inv, ha, hn, rfl⟩
  | rejected site r bad => trivial

theorem Trail.completes {crc : CrcService} {crcMode : Bool} {site : RxSite} {r : Read}
    {rs : List Read} {n : Byte} {buf : List Byte} (h : Trail crcMode site rs)
    (hlast : site.Completes crc r n buf) :
    ∃ p : RawPacket, p.Framed crcMode ∧ p.Verified crc crcMode ∧ rs ++ [r] = p.bytes.map .ok ∧
      p.blkNum = n ∧ p.payload = buf := by
  cases hlast with
  | @crc16 n buf hi lo hcrc =>
    obtain ⟨rfl, hd, inv, ha, hn, rfl⟩ := h
    have hcheck : [hi, lo] = checkBytes crc true buf := by
      simpa [checkBytes, be16_eq_iff] using hcrc
    refine ⟨⟨hd, n, inv, buf, [hi, lo]⟩, announces_framed ha rfl, ⟨hn, hcheck⟩, ?_, rfl, rfl⟩
    simp [RawPacket.bytes]
  | @checksum n buf b hsum =>
    obtain ⟨rfl, hd, inv, ha, hn, rfl⟩ := h
    have hcheck : [b] = checkBytes crc false buf := by
      simpa [checkBytes] using hsum
    refine ⟨⟨hd, n, inv, buf, [b]⟩, announces_framed ha rfl, ⟨hn, hcheck⟩, ?_, rfl, rfl⟩
    simp [RawPacket.bytes]

section Safety

variable {υ : Type} (P : Platform) (crc : CrcService) (cbs : RxCallbacks υ) (cfg : Config)

/-- The reaction to one read, for a receiver that has read `rs` since it last
stood at the header: it reads on, fails, ends at EOT, answers a time-out or a
drained line, or `rs` and this read are a packet that passes every test. -/
theorem receiveStep_trail {s : RxState υ} {rs : List Read}
    (h : Trail s.locals.crcMode s.site rs) (r : Read) :
    (∃ site, receiveStep P crc cbs cfg s r = rxAt site s.locals ∧
      Trail s.locals.crcMode site (rs ++ [r])) ∨
    (∃ es, (es = [] ∨ es = sendByte can ++ sendByte can) ∧
      receiveStep P crc cbs cfg s r = rxFail es .errorCancel) ∨
    (s.site = .header ∧ r = .ok eot ∧
      receiveStep P crc cbs cfg s r = ⟨sendByte ack, .done ⟨.ok, some s.locals.totalBytes⟩⟩) ∨
    receiveStep P crc cbs cfg s r = headerTimeout cfg s.locals ∨
    (∃ bad, receiveStep P crc cbs cfg s r = afterPurge cfg bad s.locals) ∨
    ∃ p : RawPacket, p.Framed s.locals.crcMode ∧ p.Verified crc s.locals.crcMode ∧
      rs ++ [r] = p.bytes.map .ok ∧
      receiveStep P crc cbs cfg s r = acceptPacket P cbs s.locals p.blkNum p.payload := by
  rcases receiveStep_cases P crc cbs cfg s r with ⟨site, hnext, he⟩ | ⟨es, -, hes, he⟩ |
    ⟨hs, hr, he⟩ | ⟨-, -, he⟩ | ⟨bad, -, he⟩ | ⟨n, buf, hlast, he⟩
  · exact .inl ⟨site, he, h.readsOn hnext⟩
  · exact .inr (.inl ⟨es, hes, he⟩)
  · exact .inr (.inr (.inl ⟨hs, hr, he⟩))
  · exact .inr (.inr (.inr (.inl he)))
  · exact .inr (.inr (.inr (.inr (.inl ⟨bad, he⟩))))
  · obtain ⟨p, hp, hv, hrs, rfl, rfl⟩ := h.completes hlast
    exact .inr (.inr (.inr (.inr (.inr ⟨p, hp, hv, hrs, he⟩))))

/-- The run of `xmodem_receive` on a line, handshake byte included. -/
def receive (userData : υ) (reads : List Read) : RxOut υ :=
  (run (receiveStep P crc cbs cfg) (xmodemReceive cfg userData).next reads).after
    (xmodemReceive cfg userData).events

/-- The locals as the log determines them. -/
structure Counted (log : List Event) (v : RxLocals υ) : Prop where
  expected : v.expectedBlock = UInt8.ofNat ((delivered log).length + 1)
  total : v.totalBytes = P.toSize (delivered log).flatten.length
  request : v.req = ack → (delivered log).flatten ≠ []

/-- Where the receiver stands: the locals follow from the log, and they are those
of the last header read, from which the reads so far of a packet are known. -/
structure Traced (userData : υ) (reads : List Read) (s : RxState υ) : Prop where
  counted : Counted P (receive P crc cbs cfg userData reads).events s.locals
  trail : ∃ pre rs, reads = pre ++ rs ∧ Trail s.locals.crcMode s.site rs ∧
    receive P crc cbs cfg userData pre =
      ⟨(receive P crc cbs cfg userData reads).events, .wait ⟨.header, s.locals⟩⟩

/-- Calls of `data_cb` made while `reads` were read. -/
def calls (userData : υ) (reads : List Read) : ℕ :=
  (delivered (receive P crc cbs cfg userData reads).events).length

/-- The packet `p` is read in full from the header read after `pre` on, and it
passes the tests of the check mode then in force. -/
structure Passes (userData : υ) (reads pre : List Read) (v : RxLocals υ) (p : RawPacket) : Prop where
  header : (receive P crc cbs cfg userData pre).next = .wait ⟨.header, v⟩
  bytes : pre ++ p.bytes.map .ok <+: reads
  framed : p.Framed v.crcMode
  verified : p.Verified crc v.crcMode

/-- What the receiver guarantees on any line. -/
structure Safe (userData : υ) (reads : List Read) : Prop where
  delivers : ∀ l₁ n buf res l₂,
    (receive P crc cbs cfg userData reads).events = l₁ ++ .dataCb n buf res :: l₂ →
    n = UInt8.ofNat ((delivered l₁).length + 1) ∧
    ∃ pre v p, Passes P crc cbs cfg userData reads pre v p ∧ p.blkNum = n ∧ p.payload = buf ∧
      l₁ = (receive P crc cbs cfg userData pre).events
  acknowledges : ∀ l₁ l₂,
    (receive P crc cbs cfg userData reads).events = l₁ ++ .write ack :: l₂ →
    (∃ pre v p, Passes P crc cbs cfg userData reads pre v p ∧
      p.blkNum = UInt8.ofNat (calls P crc cbs cfg userData pre + 1) ∧
      l₁ = (receive P crc cbs cfg userData pre).events ++ [.dataCb p.blkNum p.payload 0]) ∨
    (∃ pre v p, Passes P crc cbs cfg userData reads pre v p ∧
      p.blkNum = UInt8.ofNat (calls P crc cbs cfg userData pre) ∧
      l₁ = (receive P crc cbs cfg userData pre).events ∧
      receive P crc cbs cfg userData (pre ++ p.bytes.map .ok) =
        ⟨l₁ ++ [.write ack], .wait ⟨.header, v⟩⟩) ∨
    (∃ pre v t, pre ++ [.ok eot] <+: reads ∧
      (receive P crc cbs cfg userData pre).next = .wait ⟨.header, v⟩ ∧
      l₁ = (receive P crc cbs cfg userData pre).events ∧
      (receive P crc cbs cfg userData reads).next = .done ⟨.ok, t⟩)
  total : ∀ t, (receive P crc cbs cfg userData reads).next = .done ⟨.ok, t⟩ →
    t = some (delivered (receive P crc cbs cfg userData reads).events).flatten.length

variable {P crc cbs cfg}

theorem receive_snoc {userData : υ} {reads : List Read} {s : RxState υ}
    (h : (receive P crc cbs cfg userData reads).next = .wait s) (r : Read) :
    receive P crc cbs cfg userData (reads ++ [r]) =
      (receiveStep P crc cbs cfg s r).after (receive P crc cbs cfg userData reads).events := by
  rw [receive, Out.after_next] at h
  rw [receive, run_snoc _ h, Out.after_after]
  rfl

theorem receive_snoc_done {userData : υ} {reads : List Read} {res : RxResult}
    (h : (receive P crc cbs cfg userData reads).next = .done res) (r : Read) :
    (receive P crc cbs cfg userData (reads ++ [r])).next = .done res := by
  rw [receive, Out.after_next] at h
  rw [receive, run_append, h, run_done]
  rfl

theorem Counted.same {log es : List Event} {v w : RxLocals υ} (h : Counted P log v)
    (he : delivered es = []) (hexpected : w.expectedBlock = v.expectedBlock)
    (htotal : w.totalBytes = v.totalBytes) (hreq : w.req = ack → v.req = ack) :
    Counted P (log ++ es) w := by
  have hsame : delivered (log ++ es) = delivered log := by rw [delivered_append, he, List.append_nil]
  constructor
  · rw [hsame, hexpected, h.expected]
  · rw [hsame, htotal, h.total]
  · intro hw
    rw [hsame]
    exact h.request (hreq hw)

theorem Counted.accept {log : List Event} {v : RxLocals υ} (h : Counted P log v) {n : Byte}
    {buf : List Byte} {res : ℤ} {b : Byte} {u : υ} (hbuf : buf ≠ []) :
    Counted P (log ++ (.dataCb n buf res :: sendByte b)) { v with
      expectedBlock := v.expectedBlock + 1
      totalBytes := P.toSize (v.totalBytes + buf.length)
      retries := 0
      req := ack
      userData := u } := by
  have hlog : delivered (log ++ (.dataCb n buf res :: sendByte b)) = delivered log ++ [buf] := by
    simp
  constructor
  · rw [hlog, List.length_append, List.length_singleton]
    show v.expectedBlock + 1 = _
    rw [h.expected, UInt8.ofNat_add (_ + 1) 1]
    rfl
  · rw [hlog, List.flatten_append, List.length_append, List.flatten_singleton]
    show P.toSize (v.totalBytes + buf.length) = _
    rw [h.total]
    exact Nat.mod_add_mod _ _ _
  · intro _
    rw [hlog, List.flatten_append, List.flatten_singleton]
    exact List.append_ne_nil_of_right_ne_nil _ hbuf

theorem traced_header {userData : υ} {reads : List Read} {es log : List Event} {v : RxLocals υ}
    {s : RxState υ} (hrun : receive P crc cbs cfg userData reads =
      (⟨es, .wait ⟨.header, v⟩⟩ : RxOut υ).after log) (hc : Counted P (log ++ es) v)
    (h : (receive P crc cbs cfg userData reads).next = .wait s) :
    Traced P crc cbs cfg userData reads s := by
  rw [hrun] at h
  cases h
  refine ⟨?_, reads, [], (List.append_nil _).symm, rfl, ?_⟩
  · rw [hrun]
    exact hc
  · rw [hrun]
    rfl

theorem receive_traced (userData : υ) (reads : List Read) {s : RxState υ}
    (h : (receive P crc cbs cfg userData reads).next = .wait s) :
    Traced P crc cbs cfg userData reads s := by
  induction reads using List.reverseRecOn generalizing s with
  | nil =>
    have hinit : Counted P ([] ++ sendByte (rxInit cfg userData).req) (rxInit cfg userData) := by
      constructor
      · rfl
      · rfl
      · intro hreq
        simp only [rxInit] at hreq
        split at hreq <;> cases hreq
    exact traced_header rfl hinit h
  | append_singleton reads r ih =>
    cases hprev : (receive P crc cbs cfg userData reads).next with
    | done res =>
      rw [receive_snoc_done hprev] at h
      cases h
    | wait t =>
      have ht := ih hprev
      obtain ⟨pre, rs, hreads, htrail, hpre⟩ := ht.trail
      have hsnoc := receive_snoc hprev r
      rcases receiveStep_trail P crc cbs cfg htrail r with ⟨site, hs, hsite⟩ | ⟨es, -, hs⟩ |
        ⟨-, -, hs⟩ | hs | ⟨bad, hs⟩ | ⟨p, hp, -, -, hs⟩
      · rw [hs, rxAt, Out.after, List.append_nil] at hsnoc
        rw [hsnoc] at h
        cases h
        refine ⟨?_, pre, rs ++ [r], by rw [hreads, List.append_assoc], hsite, ?_⟩
        · rw [hsnoc]
          exact ht.counted
        · rw [hsnoc]
          exact hpre
      · rw [hsnoc, hs] at h
        cases h
      · rw [hsnoc, hs] at h
        cases h
      · rcases headerTimeout_cases cfg t.locals with hto | ⟨c, q, hq, hto⟩
        · rw [hsnoc, hs, hto] at h
          cases h
        · rw [hs, hto] at hsnoc
          have hreq : q = ack → t.locals.req = ack := by
            intro hack
            rcases hq with ⟨-, hq⟩ | ⟨-, hq, -⟩
            · exact hq.symm.trans hack
            · cases hq.symm.trans hack
          exact traced_header hsnoc (ht.counted.same (by simp) rfl rfl hreq) h
      · rcases afterPurge_cases cfg bad t.locals with hp | hp
        · rw [hsnoc, hs, hp] at h
          cases h
        · rw [hs, hp] at hsnoc
          exact traced_header hsnoc (ht.counted.same (by simp) rfl rfl id) h
      · rcases acceptPacket_cases P cbs t.locals p.blkNum p.payload with ⟨-, -, ha⟩ | ⟨-, -, ha⟩ |
          ⟨es, st, -, ha⟩
        · rw [hs, ha] at hsnoc
          exact traced_header hsnoc (ht.counted.accept hp.payload_ne_nil) h
        · rw [hs, ha] at hsnoc
          exact traced_header hsnoc (ht.counted.same (by simp) rfl rfl id) h
        · rw [hsnoc, hs, ha] at h
          cases h

/-! ### Calls and acknowledgements -/

theorem acceptPacket_dataCb {v : RxLocals υ} {n m : Byte} {buf buf' : List Byte} {res : ℤ}
    {a b : List Event} (h : (acceptPacket P cbs v n buf).events = a ++ .dataCb m buf' res :: b) :
    a = [] ∧ m = n ∧ buf' = buf ∧ n = v.expectedBlock := by
  by_cases hn : n = v.expectedBlock
  · subst hn
    by_cases hres : (cbs.dataCb v.expectedBlock buf v.userData).1 = 0
    · rw [acceptPacket_stored P cbs v buf hres] at h
      simp [sendByte, List.cons_eq_append_iff] at h
      exact ⟨h.1, h.2.1.1, h.2.1.2.1, rfl⟩
    · rw [acceptPacket_refused P cbs v buf hres] at h
      simp [rxFail, sendByte, List.cons_eq_append_iff] at h
      exact ⟨h.1, h.2.1.1, h.2.1.2.1, rfl⟩
  · exfalso
    by_cases hd : n = v.expectedBlock - 1
    · rw [acceptPacket_duplicate P cbs buf hn hd] at h
      simp [sendByte, List.cons_eq_append_iff] at h
    · rw [acceptPacket_sequence P cbs buf hn hd] at h
      simp [rxFail, sendByte, List.cons_eq_append_iff] at h

theorem acceptPacket_ack {v : RxLocals υ} {n : Byte} {buf : List Byte} {a b : List Event}
    (h : (acceptPacket P cbs v n buf).events = a ++ .write ack :: b) :
    (n = v.expectedBlock ∧ a = [.dataCb n buf 0]) ∨
      (n = v.expectedBlock - 1 ∧ a = [] ∧ acceptPacket P cbs v n buf = ⟨sendByte ack, .wait ⟨.header, v⟩⟩) := by
  by_cases hn : n = v.expectedBlock
  · subst hn
    left
    by_cases hres : (cbs.dataCb v.expectedBlock buf v.userData).1 = 0
    · rw [acceptPacket_stored P cbs v buf hres] at h
      simp [sendByte, List.cons_eq_append_iff] at h
      exact ⟨rfl, h.1⟩
    · rw [acceptPacket_refused P cbs v buf hres] at h
      simp [rxFail, sendByte, List.cons_eq_append_iff, ack, can] at h
  · by_cases hd : n = v.expectedBlock - 1
    · right
      have hacc := acceptPacket_duplicate P cbs buf hn hd
      rw [hacc] at h
      simp [sendByte, List.cons_eq_append_iff] at h
      exact ⟨hd, h.1, hacc⟩
    · exfalso
      rw [acceptPacket_sequence P cbs buf hn hd] at h
      simp [rxFail, sendByte, List.cons_eq_append_iff, ack, can] at h

theorem receive_split {userData : υ} {reads : List Read} {l₁ l₂ : List Event} {e : Event}
    (h : (receive P crc cbs cfg userData reads).events = l₁ ++ e :: l₂) :
    e = .write (rxInit cfg userData).req ∨
    ∃ pre r post s a b, reads = pre ++ r :: post ∧
      (receive P crc cbs cfg userData pre).next = .wait s ∧
      (receiveStep P crc cbs cfg s r).events = a ++ e :: b ∧
      l₁ = (receive P crc cbs cfg userData pre).events ++ a := by
  cases l₁ with
  | nil =>
    left
    exact (List.cons.inj h).1.symm
  | cons x l₁ =>
    right
    obtain ⟨hx, hrest⟩ := List.cons.inj h
    obtain ⟨pre, r, post, s, a, b, hreads, hnext, hstep, hl⟩ := exists_of_events_eq _ hrest
    refine ⟨pre, r, post, s, a, b, hreads, hnext, hstep, ?_⟩
    rw [hl, ← hx]
    rfl

theorem reaction_dataCb {s : RxState υ} {rs : List Read} {r : Read}
    (ht : Trail s.locals.crcMode s.site rs) {n : Byte} {buf : List Byte} {res : ℤ} {a b : List Event}
    (h : (receiveStep P crc cbs cfg s r).events = a ++ .dataCb n buf res :: b) :
    a = [] ∧ n = s.locals.expectedBlock ∧
      ∃ p : RawPacket, p.Framed s.locals.crcMode ∧ p.Verified crc s.locals.crcMode ∧
        rs ++ [r] = p.bytes.map .ok ∧ p.blkNum = n ∧ p.payload = buf := by
  rcases receiveStep_trail P crc cbs cfg ht r with ⟨site, hs, -⟩ | ⟨es, he, hs⟩ |
    ⟨-, -, hs⟩ | hs | ⟨bad, hs⟩ | ⟨p, hp, hv, hrs, hs⟩
  · simp [hs, rxAt] at h
  · rcases he with rfl | rfl <;> simp [hs, rxFail, sendByte, List.cons_eq_append_iff] at h
  · simp [hs, sendByte, List.cons_eq_append_iff] at h
  · rcases headerTimeout_cases cfg s.locals with hto | ⟨c, q, -, hto⟩ <;>
      simp [hs, hto, rxFail, sendByte, List.cons_eq_append_iff] at h
  · rcases afterPurge_cases cfg bad s.locals with hto | hto <;>
      simp [hs, hto, rxFail, sendByte, List.cons_eq_append_iff] at h
  · rw [hs] at h
    obtain ⟨ha, hn, hbuf, hexp⟩ := acceptPacket_dataCb h
    exact ⟨ha, hn.trans hexp, p, hp, hv, hrs, hn.symm, hbuf.symm⟩

/-- The reaction that writes ACK completes such a packet or reads EOT; a total that
wraps to 0 would let a time-out repeat it. -/
theorem reaction_ack {s : RxState υ} {rs : List Read} {r : Read}
    (ht : Trail s.locals.crcMode s.site rs) (hreq : s.locals.req = ack → s.locals.totalBytes ≠ 0)
    {a b : List Event} (h : (receiveStep P crc cbs cfg s r).events = a ++ .write ack :: b) :
    (s.site = .header ∧ r = .ok eot ∧ a = [] ∧
      (receiveStep P crc cbs cfg s r).next = .done ⟨.ok, some s.locals.totalBytes⟩) ∨
    ∃ p : RawPacket, p.Framed s.locals.crcMode ∧ p.Verified crc s.locals.crcMode ∧
      rs ++ [r] = p.bytes.map .ok ∧
      ((p.blkNum = s.locals.expectedBlock ∧ a = [.dataCb p.blkNum p.payload 0]) ∨
        (p.blkNum = s.locals.expectedBlock - 1 ∧ a = [] ∧
          receiveStep P crc cbs cfg s r = ⟨sendByte ack, .wait ⟨.header, s.locals⟩⟩)) := by
  rcases receiveStep_trail P crc cbs cfg ht r with ⟨site, hs, -⟩ | ⟨es, he, hs⟩ |
    ⟨hsite, hr, hs⟩ | hs | ⟨bad, hs⟩ | ⟨p, hp, hv, hrs, hs⟩
  · simp [hs, rxAt] at h
  · rcases he with rfl | rfl <;>
      simp [hs, rxFail, sendByte, List.cons_eq_append_iff, ack, can] at h
  · left
    rw [hs] at h ⊢
    simp [sendByte, List.cons_eq_append_iff] at h
    exact ⟨hsite, hr, h.1, rfl⟩
  · exfalso
    rcases headerTimeout_cases cfg s.locals with hto | ⟨c, q, hq, hto⟩
    · simp [hs, hto, rxFail, sendByte, List.cons_eq_append_iff, ack, can] at h
    · simp [hs, hto, sendByte, List.cons_eq_append_iff] at h
      by_cases h0 : s.locals.totalBytes = 0
      · rw [if_pos h0] at h
        rcases hq with ⟨-, hq⟩ | ⟨-, hq, -⟩
        · exact hreq (hq.symm.trans h.2.1.symm) h0
        · cases hq.symm.trans h.2.1.symm
      · rw [if_neg h0] at h
        cases h.2.1
  · exfalso
    rcases afterPurge_cases cfg bad s.locals with hto | hto <;>
      simp [hs, hto, rxFail, sendByte, List.cons_eq_append_iff, ack, can, nak] at h
  · right
    rw [hs] at h
    refine ⟨p, hp, hv, hrs, ?_⟩
    rw [hs]
    exact acceptPacket_ack h

variable (P crc cbs cfg)

theorem events_prefix (userData : υ) (as bs : List Read) :
    (receive P crc cbs cfg userData as).events <+:
      (receive P crc cbs cfg userData (as ++ bs)).events := by
  simp only [receive, Out.after_events, run_append, List.prefix_append_right_inj]
  exact List.prefix_append _ _

theorem delivered_le (userData : υ) (as bs : List Read) :
    (delivered (receive P crc cbs cfg userData as).events).flatten.length ≤
      (delivered (receive P crc cbs cfg userData (as ++ bs)).events).flatten.length := by
  obtain ⟨l, hl⟩ := events_prefix P crc cbs cfg userData as bs
  rw [← hl, delivered_append, List.flatten_append, List.length_append]
  omega

theorem dataCb_packet {userData : υ} {reads : List Read} {l₁ l₂ : List Event} {n : Byte}
    {buf : List Byte} {res : ℤ}
    (h : (receive P crc cbs cfg userData reads).events = l₁ ++ .dataCb n buf res :: l₂) :
    n = UInt8.ofNat ((delivered l₁).length + 1) ∧
    ∃ pre v p, Passes P crc cbs cfg userData reads pre v p ∧ p.blkNum = n ∧ p.payload = buf ∧
      l₁ = (receive P crc cbs cfg userData pre).events := by
  rcases receive_split h with he | ⟨before, r, post, s, a, b, hreads, hnext, hstep, hl⟩
  · cases he
  · have ht := receive_traced userData before hnext
    obtain ⟨pre, rs, hbefore, htrail, hpre⟩ := ht.trail
    obtain ⟨rfl, hn, p, hp, hv, hrs, hblk, hbuf⟩ := reaction_dataCb htrail hstep
    rw [List.append_nil] at hl
    have hbytes : pre ++ p.bytes.map .ok <+: reads :=
      ⟨post, by rw [hreads, hbefore, ← hrs]; simp⟩
    refine ⟨?_, pre, s.locals, p, ⟨by rw [hpre], hbytes, hp, hv⟩, hblk, hbuf, by rw [hl, hpre]⟩
    rw [hl, hn, ht.counted.expected]

theorem ack_answers {userData : υ} {reads : List Read} {l₁ l₂ : List Event}
    (hfew : (delivered (receive P crc cbs cfg userData reads).events).flatten.length < P.sizeMod - 1)
    (h : (receive P crc cbs cfg userData reads).events = l₁ ++ .write ack :: l₂) :
    (∃ pre v p, Passes P crc cbs cfg userData reads pre v p ∧
      p.blkNum = UInt8.ofNat (calls P crc cbs cfg userData pre + 1) ∧
      l₁ = (receive P crc cbs cfg userData pre).events ++ [.dataCb p.blkNum p.payload 0]) ∨
    (∃ pre v p, Passes P crc cbs cfg userData reads pre v p ∧
      p.blkNum = UInt8.ofNat (calls P crc cbs cfg userData pre) ∧
      l₁ = (receive P crc cbs cfg userData pre).events ∧
      receive P crc cbs cfg userData (pre ++ p.bytes.map .ok) =
        ⟨l₁ ++ [.write ack], .wait ⟨.header, v⟩⟩) ∨
    (∃ pre v t, pre ++ [.ok eot] <+: reads ∧
      (receive P crc cbs cfg userData pre).next = .wait ⟨.header, v⟩ ∧
      l₁ = (receive P crc cbs cfg userData pre).events ∧
      (receive P crc cbs cfg userData reads).next = .done ⟨.ok, t⟩) := by
  rcases receive_split h with he | ⟨before, r, post, s, a, b, hreads, hnext, hstep, hl⟩
  · simp only [rxInit, Event.write.injEq] at he
    split at he <;> cases he
  · have ht := receive_traced userData before hnext
    obtain ⟨pre, rs, hbefore, htrail, hpre⟩ := ht.trail
    -- no wrap so far, so the total is 0 only before the first block
    have htotal : s.locals.req = ack → s.locals.totalBytes ≠ 0 := by
      intro hreq
      have hle := delivered_le P crc cbs cfg userData before (r :: post)
      rw [← hreads] at hle
      rw [ht.counted.total, P.toSize_of_lt (by omega)]
      exact mt List.length_eq_zero_iff.mp (ht.counted.request hreq)
    have hcalls : calls P crc cbs cfg userData pre =
        (delivered (receive P crc cbs cfg userData before).events).length := by
      rw [calls, hpre]
    have hbytes : ∀ p : RawPacket, rs ++ [r] = p.bytes.map .ok → pre ++ p.bytes.map .ok <+: reads := by
      intro p hrs
      exact ⟨post, by rw [hreads, hbefore, ← hrs]; simp⟩
    rcases reaction_ack htrail htotal hstep with ⟨hsite, rfl, rfl, hdone⟩ |
      ⟨p, hp, hv, hrs, ⟨hn, rfl⟩ | ⟨hn, rfl, hs⟩⟩
    · right; right
      refine ⟨before, s.locals, some s.locals.totalBytes, ⟨post, by rw [hreads]; simp⟩, ?_,
        by rw [hl, List.append_nil], ?_⟩
      · rw [hnext, ← hsite]
      · rw [receive, Out.after_next] at hnext ⊢
        rw [hreads, run_eq_of_done _ post hnext hdone]
    · left
      refine ⟨pre, s.locals, p, ⟨by rw [hpre], hbytes p hrs, hp, hv⟩, ?_, by rw [hl, hpre]⟩
      rw [hn, ht.counted.expected, hcalls]
    · right; left
      refine ⟨pre, s.locals, p, ⟨by rw [hpre], hbytes p hrs, hp, hv⟩, ?_, by rw [hl, hpre, List.append_nil], ?_⟩
      · rw [hn, ht.counted.expected, hcalls, UInt8.ofNat_add _ 1]
        exact UInt8.add_sub_cancel _ _
      · rw [← hrs, ← List.append_assoc, ← hbefore, receive_snoc hnext, hs, hl, List.append_nil]
        rfl

theorem receiveStep_done_ok {s : RxState υ} {r : Read} {t : Option ℕ}
    (h : (receiveStep P crc cbs cfg s r).next = .done ⟨.ok, t⟩) :
    receiveStep P crc cbs cfg s r = ⟨sendByte ack, .done ⟨.ok, some s.locals.totalBytes⟩⟩ := by
  rcases receiveStep_done P crc cbs cfg h with ⟨-, hst⟩ | he | ⟨hst, -⟩
  · cases hst
  · exact he
  · exact absurd rfl hst

theorem ok_total {userData : υ} {reads : List Read} {t : Option ℕ}
    (hfew : (delivered (receive P crc cbs cfg userData reads).events).flatten.length < P.sizeMod - 1)
    (h : (receive P crc cbs cfg userData reads).next = .done ⟨.ok, t⟩) :
    t = some (delivered (receive P crc cbs cfg userData reads).events).flatten.length := by
  rw [receive, Out.after_next] at h
  rcases exists_of_run_done _ h with hinit | ⟨before, r, post, s, hreads, hnext, hlast⟩
  · cases hinit
  · have hs := receiveStep_done_ok P crc cbs cfg hlast
    have hrun := run_eq_of_done _ post hnext hlast
    have hevents : (receive P crc cbs cfg userData reads).events =
        (receive P crc cbs cfg userData before).events ++ sendByte ack := by
      rw [receive, hreads, hrun, hs, receive, Out.after_events, Out.after_events, List.append_assoc]
    have hsame : delivered (receive P crc cbs cfg userData reads).events =
        delivered (receive P crc cbs cfg userData before).events := by
      rw [hevents, delivered_append, delivered_sendByte, List.append_nil]
    rw [hreads, hrun] at h
    cases h
    rw [hs] at hlast
    cases hlast
    rw [hsame] at hfew ⊢
    rw [(receive_traced userData before hnext).counted.total, P.toSize_of_lt (by omega)]

/-- Safety of `xmodem_receive` on any line, short of a total that wraps. -/
theorem receive_safe (userData : υ) (reads : List Read)
    (hfew : (delivered (receive P crc cbs cfg userData reads).events).flatten.length < P.sizeMod - 1) :
    Safe P crc cbs cfg userData reads where
  delivers := fun _ _ _ _ _ => dataCb_packet P crc cbs cfg
  acknowledges := fun _ _ => ack_answers P crc cbs cfg hfew
  total := fun _ => ok_total P crc cbs cfg hfew

end Safety

/-- Two blocks of zeros, the first of them sent twice, and EOT. -/
def repeatedBlock : List Read :=
  ((packet referenceCrc false 1 (List.replicate 128 0) ++
    packet referenceCrc false 1 (List.replicate 128 0) ++
    packet referenceCrc false 2 (List.replicate 128 0)) ++ [eot]).map .ok

theorem receive_safe_repeated_block :
    (delivered (receive platform32 referenceCrc acceptingStorage ⟨.standard, 10⟩ ()
      repeatedBlock).events).flatten.length = 256 ∧
    Safe platform32 referenceCrc acceptingStorage ⟨.standard, 10⟩ () repeatedBlock := by
  have hlen : (delivered (receive platform32 referenceCrc acceptingStorage ⟨.standard, 10⟩ ()
      repeatedBlock).events).flatten.length = 256 := by decide +kernel
  exact ⟨hlen, receive_safe _ _ _ _ () repeatedBlock (by rw [hlen]; decide)⟩

end ZephyrModem.Xmodem
