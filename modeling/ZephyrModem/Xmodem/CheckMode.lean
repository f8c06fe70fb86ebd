import ZephyrModem.Reactive.Delay
import ZephyrModem.Xmodem.InStep

/-!
# The check of both sides

The receiver of XMODEM-1K asks for CRC and falls back to the checksum after half
of its retries; the requests it has sent by then are not taken back. The
transmitter goes by the first request it reads.
-/

namespace ZephyrModem.Xmodem
open ZephyrModem.Reactive ZephyrModem.Reactive.Duplex

/-- The check by which the receiver is verifying a packet. -/
def verifyingCheck {υ : Type} : Next (RxState υ) RxResult → Option Bool
  | .wait x => x.site.check
  | .done _ => none

section CheckMode

variable {υ υ' : Type} (P : Platform) (crc : CrcService) (tcbs : TxCallbacks υ)
  (rcbs : RxCallbacks υ') (tcfg rcfg : Config) (totalLen : ℕ)

def lineStart (u : υ) (u' : υ') : Line υ υ' :=
  Duplex.init (xmodemTransmit u) (xmodemReceive rcfg u')

/-- In every run from `s₀`, the receiver verifies by the check with which the
transmitter built its packets. -/
def ChecksAgree (s₀ : Line υ υ') : Prop :=
  ∀ i s j t c c',
    PatientRun (txParty P crc tcbs tcfg totalLen) (receiver P crc rcbs rcfg) i s₀ s →
    PatientRun (txParty P crc tcbs tcfg totalLen) (receiver P crc rcbs rcfg) j s t →
    txCheck s.left.next = some c → verifyingCheck t.right.next = some c' → c' = c

/-! ### Before the transmitter reads -/

/-- The receiver's locals after `k` time-outs. -/
def asked (u' : υ') (k : ℕ) : RxLocals υ' :=
  { rxInit rcfg u' with
    retries := UInt8.ofNat k
    crcMode := k ≤ rcfg.maxRetries.toNat / 2
    req := if k ≤ rcfg.maxRetries.toNat / 2 then charC else nak }

/-- After `k` time-outs: the first request is for CRC, and all are if the receiver
still wants it. -/
structure Asking (u : υ) (u' : υ') (k : ℕ) (s : Line υ υ') : Prop where
  left : s.left = ⟨[], .wait (.start 0 u)⟩
  toRight : s.toRight = []
  right : s.right.next = .wait ⟨.header, asked rcfg u' k⟩
  first : ∃ rest, s.toLeft ++ s.right.events.filterMap Event.wire = charC :: rest
  all : k ≤ rcfg.maxRetries.toNat / 2 →
    ∀ b ∈ s.toLeft ++ s.right.events.filterMap Event.wire, b = charC

section Asking

variable {P crc tcbs rcbs tcfg rcfg totalLen} {u : υ} {u' : υ'}

theorem headerTimeout_asked (hmode : rcfg.mode = .oneK) {k : ℕ} (hk : k < rcfg.maxRetries.toNat) :
    headerTimeout rcfg (asked rcfg u' k) =
      ⟨sendByte (asked rcfg u' (k + 1)).req, .wait ⟨.header, asked rcfg u' (k + 1)⟩⟩ := by
  have hbyte := rcfg.maxRetries.toNat_lt
  have hretries : UInt8.ofNat k + 1 = UInt8.ofNat (k + 1) := by
    rw [UInt8.ofNat_add]
    rfl
  have htoNat : (UInt8.ofNat (k + 1)).toNat = k + 1 := UInt8.toNat_ofNat_of_lt' (by
    show k + 1 < 256
    omega)
  have hlimit : ¬ UInt8.ofNat (k + 1) > rcfg.maxRetries := by
    rw [gt_iff_lt, UInt8.lt_iff_toNat_lt, htoNat]
    omega
  have hhalf : UInt8.ofNat (k + 1) > rcfg.maxRetries / 2 ↔ ¬ k + 1 ≤ rcfg.maxRetries.toNat / 2 := by
    rw [gt_iff_lt, UInt8.lt_iff_toNat_lt, htoNat, UInt8.toNat_div]
    show _ / 2 < _ ↔ _
    omega
  have hne : Mode.oneK ≠ .crc := by decide
  simp only [headerTimeout, asked, hretries, if_neg hlimit, rxInit, if_true, true_and, hmode, hhalf]
  by_cases hnext : k + 1 ≤ rcfg.maxRetries.toNat / 2
  · have hle : k ≤ rcfg.maxRetries.toNat / 2 := by omega
    simp [hnext, hle]
  · by_cases hle : k ≤ rcfg.maxRetries.toNat / 2
    · simp [hnext, hle]
    · simp [hnext, hle]

theorem Asking.emitRight {k : ℕ} {s t : Line υ υ'} (h : Asking rcfg u u' k s)
    (hmove : move (txParty P crc tcbs tcfg totalLen) (receiver P crc rcbs rcfg) .emitRight s = some t) :
    Asking rcfg u u' k t := by
  obtain ⟨e, es, n, hr, rfl⟩ := move_emitRight.mp hmove
  obtain ⟨hleft, htoRight, hright, hfirst, hall⟩ := h
  rw [hr] at hright hfirst hall
  rw [← sent_emit] at hfirst hall
  exact ⟨hleft, htoRight, hright, hfirst, hall⟩

theorem Asking.failRight (hmode : rcfg.mode = .oneK) {k : ℕ} (hk : k < rcfg.maxRetries.toNat)
    {s t : Line υ υ'} (h : Asking rcfg u u' k s)
    (hmove : move (txParty P crc tcbs tcfg totalLen) (receiver P crc rcbs rcfg) .failRight s = some t) :
    Asking rcfg u u' (k + 1) t := by
  obtain ⟨x, hr, -, rfl⟩ := move_failRight.mp hmove
  obtain ⟨hleft, htoRight, hright, ⟨rest, hfirst⟩, hall⟩ := h
  rw [hr] at hright hfirst hall
  obtain rfl := Next.wait.inj hright
  have hstep : (receiver P crc rcbs rcfg).resume ⟨.header, asked rcfg u' k⟩ .timeout =
      ⟨sendByte (asked rcfg u' (k + 1)).req, .wait ⟨.header, asked rcfg u' (k + 1)⟩⟩ :=
    headerTimeout_asked hmode hk
  rw [List.filterMap_nil, List.append_nil] at hfirst hall
  refine ⟨hleft, htoRight, ?_, ⟨rest ++ [(asked rcfg u' (k + 1)).req], ?_⟩, ?_⟩
  · show ((receiver P crc rcbs rcfg).resume _ _).next = _
    rw [hstep]
  · show s.toLeft ++ ((receiver P crc rcbs rcfg).resume _ _).events.filterMap Event.wire = _
    rw [hstep, hfirst]
    rfl
  · intro hle b hb
    change b ∈ s.toLeft ++ ((receiver P crc rcbs rcfg).resume _ _).events.filterMap Event.wire at hb
    rw [hstep] at hb
    rcases List.mem_append.mp hb with hb | hb
    · exact hall (by omega) b hb
    · rw [wire_sendByte, List.mem_singleton, asked, if_pos hle] at hb
      exact hb

theorem asking_of_delayed (hmode : rcfg.mode = .oneK) {k : ℕ} (hk : k ≤ rcfg.maxRetries.toNat)
    {s : Line υ υ'} (h : Delayed (txParty P crc tcbs tcfg totalLen) (receiver P crc rcbs rcfg) k
      (lineStart rcfg u u') s) : Asking rcfg u u' k s := by
  refine Delayed.invariant (I := Asking rcfg u u') (n := rcfg.maxRetries.toNat) ?_ ?_ ?_ ?_ ?_ hk h
  · have hasked : asked rcfg u' 0 = rxInit rcfg u' := by
      simp [asked, rxInit, hmode]
    refine ⟨rfl, rfl, ?_, ⟨[], ?_⟩, ?_⟩
    · rw [hasked]
      rfl
    · simp [lineStart, Duplex.init, xmodemReceive, rxInit, hmode]
    · intro _ b hb
      simpa [lineStart, Duplex.init, xmodemReceive, rxInit, hmode] using hb
  · intro k s t hs hmove
    obtain ⟨e, es, n, hl, -⟩ := move_emitLeft.mp hmove
    rw [hs.left] at hl
    cases hl
  · intro k s t hs hmove
    exact hs.emitRight hmove
  · intro k s t hs hmove
    obtain ⟨x, b, q, -, hq, -⟩ := move_readRight.mp hmove
    rw [hs.toRight] at hq
    cases hq
  · intro k s t hk hs hmove
    exact hs.failRight hmode hk hmove

theorem exists_asking (P : Platform) (crc : CrcService) (tcbs : TxCallbacks υ) (rcbs : RxCallbacks υ')
    (tcfg rcfg : Config) (totalLen : ℕ) (u : υ) (u' : υ') (hmode : rcfg.mode = .oneK) {k : ℕ}
    (hk : k ≤ rcfg.maxRetries.toNat) :
    ∃ s, Delayed (txParty P crc tcbs tcfg totalLen) (receiver P crc rcbs rcfg) k
      (lineStart rcfg u u') s := by
  refine exists_delayed ?_ hk
  intro k t hlt ht
  have hasking := asking_of_delayed hmode (Nat.le_of_lt hlt) ht
  exact ⟨⟨_, hasking.right⟩, hasking.toRight⟩

end Asking

/-! ### When the checks agree -/

section Agreement

variable {P crc tcbs rcbs tcfg rcfg totalLen} {u : υ} {u' : υ'}

theorem Asking.inStep {k : ℕ} {s : Line υ υ'} (h : Asking rcfg u u' k s)
    (hk : k ≤ rcfg.maxRetries.toNat / 2) : InStep P crc rcbs tcfg rcfg s := by
  have hahead : ahead P crc rcbs rcfg s = ⟨[], .wait ⟨.header, asked rcfg u' k⟩⟩ := by
    unfold ahead
    rw [h.left, h.toRight, h.right]
    rfl
  have hreplies : replies P crc rcbs rcfg s =
      s.toLeft ++ s.right.events.filterMap Event.wire := by
    rw [replies, hahead, List.filterMap_nil, List.append_nil]
  constructor
  · intro x hx
    rw [h.right] at hx
    obtain rfl := Next.wait.inj hx
    refine ⟨?_, ?_⟩
    · show decide _ = true
      exact decide_eq_true hk
    · simp [RxSite.check]
  · rw [h.left]
    refine ⟨⟨_, by rw [hahead]⟩, ?_, ?_⟩
    · rw [hreplies]
      exact h.first
    · intro hcan
      rw [hreplies] at hcan
      exact absurd (h.all hk can hcan) (by decide)

theorem InStep.checksAgree {s : Line υ υ'} (h : InStep P crc rcbs tcfg rcfg s) :
    ChecksAgree P crc tcbs rcbs tcfg rcfg totalLen s := by
  intro i v j t c c' hi hj hc hc'
  have hv := h.run hi
  have ht := hv.run hj
  have htx : c = true := by
    have hexpects := hv.expects
    cases hl : v.left.next with
    | done st =>
      rw [hl] at hc
      cases hc
    | wait y =>
      rw [hl] at hc hexpects
      cases y with
      | start retries u => cases hc
      | reply w retries payload =>
        have hw : some w.crcMode = some c := hc
        rw [← Option.some.inj hw]
        exact hexpects.1
      | eotReply retries => cases hc
  cases hr : t.right.next with
  | done r =>
    rw [hr] at hc'
    cases hc'
  | wait x =>
    rw [hr] at hc'
    have hcheck : x.site.check = some c' := hc'
    cases c' with
    | true => exact htx.symm
    | false => exact absurd hcheck (ht.byCrc x hr).check

/-- The transmitter has not been asked, or has returned. -/
def NoPacket (u : υ) (s : Line υ υ') : Prop :=
  (∃ retries, s.left.next = .wait (.start retries u)) ∨ ∃ st, s.left.next = .done st

theorem startAgain_noPacket (retries : Byte) :
    (∃ retries', (startAgain tcfg retries u).next = .wait (.start retries' u)) ∨
      ∃ st, (startAgain tcfg retries u).next = .done st := by
  simp only [startAgain]
  split_ifs
  · exact .inr ⟨_, rfl⟩
  · exact .inl ⟨_, rfl⟩

theorem start_noPacket (h : ¬ SendsPacket P tcbs tcfg totalLen ⟨true, 1, 0, u⟩) (retries : Byte) (r : Read) :
    (∃ retries', (transmitStep P crc tcbs tcfg totalLen (.start retries u) r).next =
      .wait (.start retries' u)) ∨
    ∃ st, (transmitStep P crc tcbs tcfg totalLen (.start retries u) r).next = .done st := by
  have hfirst : ∀ c, ∃ st, (nextBlock P crc tcbs tcfg totalLen ⟨c, 1, 0, u⟩).next = .done st := by
    intro c
    rcases nextBlock_first P crc totalLen u c with ⟨hsends, -⟩ | ⟨-, es, st, -, hnext⟩
    · exact absurd hsends h
    · exact ⟨st, by rw [hnext]⟩
  cases r with
  | ok b =>
    simp only [transmitStep]
    split_ifs
    · exact .inr (hfirst true)
    · exact .inr (hfirst false)
    · exact .inr ⟨_, rfl⟩
    · exact startAgain_noPacket retries
  | timeout => exact startAgain_noPacket retries
  | cancel => exact startAgain_noPacket retries

theorem NoPacket.step (hsends : ¬ SendsPacket P tcbs tcfg totalLen ⟨true, 1, 0, u⟩) {s t : Line υ υ'}
    (h : NoPacket u s)
    (hstep : PatientStep (txParty P crc tcbs tcfg totalLen) (receiver P crc rcbs rcfg) s t) :
    NoPacket u t := by
  obtain ⟨m, hmove, -⟩ := hstep
  unfold NoPacket at h ⊢
  rcases move_left_cases hmove with ht | ⟨e, es, n, hl, ht⟩ | ⟨x, r, hl, ht⟩
  · rw [ht]
    exact h
  · rw [hl] at h
    rw [ht]
    exact h
  · rw [hl] at h
    rcases h with ⟨retries, hs⟩ | ⟨st, hs⟩
    · obtain rfl := Next.wait.inj hs
      rw [ht]
      exact start_noPacket hsends retries r
    · cases hs

theorem NoPacket.run (hsends : ¬ SendsPacket P tcbs tcfg totalLen ⟨true, 1, 0, u⟩) {j : ℕ} {s t : Line υ υ'}
    (h : NoPacket u s)
    (hrun : PatientRun (txParty P crc tcbs tcfg totalLen) (receiver P crc rcbs rcfg) j s t) :
    NoPacket u t := by
  induction hrun with
  | refl s => exact h
  | step hstep _ ih => exact ih (h.step hsends hstep)

theorem NoPacket.checksAgree (hsends : ¬ SendsPacket P tcbs tcfg totalLen ⟨true, 1, 0, u⟩) {s : Line υ υ'}
    (h : NoPacket u s) : ChecksAgree P crc tcbs rcbs tcfg rcfg totalLen s := by
  intro i v j t c c' hi _ hc _
  rcases h.run hsends hi with ⟨retries, hl⟩ | ⟨st, hl⟩
  · rw [hl] at hc
    cases hc
  · rw [hl] at hc
    cases hc

/-- A receiver that has fallen back meets the packets of its first request. -/
theorem Asking.not_checksAgree {k : ℕ} {s : Line υ υ'} (h : Asking rcfg u u' k s)
    (hk : ¬ k ≤ rcfg.maxRetries.toNat / 2) (hsends : SendsPacket P tcbs tcfg totalLen ⟨true, 1, 0, u⟩) :
    ¬ ChecksAgree P crc tcbs rcbs tcfg rcfg totalLen s := by
  intro hagree
  obtain ⟨l, ⟨es, n⟩, tr, tl, ll, rl⟩ := s
  obtain ⟨hleft, htoRight, hright, ⟨rest, hfirst⟩, -⟩ := h
  obtain rfl : l = _ := hleft
  obtain rfl : tr = [] := htoRight
  obtain rfl : n = _ := hright
  have hqueue : tl ++ es.filterMap Event.wire = charC :: rest := hfirst
  have hmode : (asked rcfg u' k).crcMode = false := decide_eq_false hk
  obtain ⟨-, payload, res, u₁, hlen, hnext⟩ :=
    (nextBlock_first P crc totalLen u true).resolve_right fun hnot => hnot.1 hsends
  -- the transmitter takes the first request, and sends a packet with a CRC
  have hflush := flushRight (P := txParty P crc tcbs tcfg totalLen) (Q := receiver P crc rcbs rcfg)
    (⟨[], .wait (.start 0 u)⟩ : TxOut υ) es (.wait ⟨.header, asked rcfg u' k⟩) [] tl ll rl
  have hwire : tl ++ es.filterMap (receiver P crc rcbs rcfg).wire = charC :: rest := hqueue
  rw [hwire] at hflush
  have hread := readsLeft (P := txParty P crc tcbs tcfg totalLen) (Q := receiver P crc rcbs rcfg)
    (.start 0 u) ⟨[], .wait ⟨.header, asked rcfg u' k⟩⟩ charC [] rest ll (rl ++ es)
  have hstep : (txParty P crc tcbs tcfg totalLen).resume (.start 0 u) (.ok charC) =
      ⟨.dataCb 1 payload res :: writeBytes (packet crc true 1 payload),
        .wait (.reply ⟨true, 1, 0, u₁⟩ 0 payload)⟩ := by
    rw [← hnext]
    show transmitStep P crc tcbs tcfg totalLen (.start 0 u) (.ok charC) = _
    simp only [transmitStep, if_true]
  rw [hstep] at hread
  obtain ⟨i, hi⟩ := hflush.trans hread
  -- the receiver reads it up to the check, and takes a checksum
  have hsend := flushLeft (P := txParty P crc tcbs tcfg totalLen) (Q := receiver P crc rcbs rcfg)
    (.dataCb 1 payload res :: writeBytes (packet crc true 1 payload))
    (.wait (.reply ⟨true, 1, 0, u₁⟩ 0 payload)) ⟨[], .wait ⟨.header, asked rcfg u' k⟩⟩ [] rest ll (rl ++ es)
  have hpacket : [] ++ (.dataCb 1 payload res :: writeBytes (packet crc true 1 payload)).filterMap
      (txParty P crc tcbs tcfg totalLen).wire =
      (sentPacket crc true 1 payload).header :: (sentPacket crc true 1 payload).blkNum ::
        (sentPacket crc true 1 payload).blkNumInv :: (sentPacket crc true 1 payload).payload ++
        checkBytes crc true payload := by
    show ([] : List Byte) ++ (Event.dataCb 1 payload res ::
      writeBytes (packet crc true 1 payload)).filterMap Event.wire = _
    rw [wire_dataCb, wire_writeBytes]
    rfl
  rw [hpacket] at hsend
  have hfeed := feed_toCheck P crc rcbs rcfg (asked rcfg u' k)
    (sentPacket_framed crc true 1 payload hlen) (sentPacket_verified crc true 1 payload).1
  have hreads := feedRight (P := txParty P crc tcbs tcfg totalLen) (Q := receiver P crc rcbs rcfg)
    ⟨[], .wait (.reply ⟨true, 1, 0, u₁⟩ 0 payload)⟩ (checkBytes crc true payload) rest
    (ll ++ .dataCb 1 payload res :: writeBytes (packet crc true 1 payload)) (rl ++ es) hfeed
  obtain ⟨j, hj⟩ := hsend.trans hreads
  have hsame := hagree i _ j _ true false hi.patient hj.patient rfl
  rw [hmode] at hsame
  exact absurd (hsame rfl) Bool.false_ne_true

end Agreement

end CheckMode

/-- After `k` time-outs the checks agree exactly when the receiver has not fallen back
to the checksum by then, or nothing is sent. -/
theorem checksAgree_iff {υ υ' : Type} (P : Platform) (crc : CrcService) (tcbs : TxCallbacks υ)
    (rcbs : RxCallbacks υ') (tcfg rcfg : Config) (totalLen : ℕ) (u : υ) (u' : υ') (k : ℕ)
    (s : Line υ υ') (hmode : rcfg.mode = .oneK) (hk : k ≤ rcfg.maxRetries.toNat)
    (h : Delayed (txParty P crc tcbs tcfg totalLen) (receiver P crc rcbs rcfg) k
      (lineStart rcfg u u') s) :
    ChecksAgree P crc tcbs rcbs tcfg rcfg totalLen s ↔
      k ≤ rcfg.maxRetries.toNat / 2 ∨ ¬ SendsPacket P tcbs tcfg totalLen ⟨true, 1, 0, u⟩ := by
  have hasking := asking_of_delayed hmode hk h
  constructor
  · intro hagree
    by_contra hlate
    rw [not_or, not_not] at hlate
    exact hasking.not_checksAgree hlate.1 hlate.2 hagree
  · rintro (hsoon | hsends)
    · exact (hasking.inStep hsoon).checksAgree
    · exact NoPacket.checksAgree hsends (.inl ⟨0, by rw [hasking.left]⟩)

/-! ### Three bytes and the default configuration -/

def threeBytes : List Byte := [1, 2, 3]

theorem checksAgree_five :
    ∃ s, Delayed (txParty platform32 referenceCrc (fileCallbacks threeBytes) configInit 3)
        (receiver platform32 referenceCrc acceptingStorage configInit) 5
        (lineStart configInit 0 ()) s ∧
      ChecksAgree platform32 referenceCrc (fileCallbacks threeBytes) acceptingStorage
        configInit configInit 3 s := by
  obtain ⟨s, hs⟩ := exists_asking platform32 referenceCrc (fileCallbacks threeBytes) acceptingStorage
    configInit configInit 3 0 () rfl (by decide : 5 ≤ _)
  exact ⟨s, hs, (checksAgree_iff platform32 referenceCrc (fileCallbacks threeBytes) acceptingStorage
    configInit configInit 3 0 () 5 s rfl (by decide) hs).mpr (.inl (by decide))⟩

/-- The sixth time-out falls back to the checksum; the transmitter has been asked for CRC. -/
theorem not_checksAgree_six :
    ∃ s, Delayed (txParty platform32 referenceCrc (fileCallbacks threeBytes) configInit 3)
        (receiver platform32 referenceCrc acceptingStorage configInit) 6
        (lineStart configInit 0 ()) s ∧
      ¬ ChecksAgree platform32 referenceCrc (fileCallbacks threeBytes) acceptingStorage
        configInit configInit 3 s := by
  have hlimit : 6 ≤ configInit.maxRetries.toNat := by decide
  obtain ⟨s, hs⟩ := exists_asking platform32 referenceCrc (fileCallbacks threeBytes) acceptingStorage
    configInit configInit 3 0 () rfl hlimit
  have hasking := asking_of_delayed rfl hlimit hs
  have hsends : SendsPacket platform32 (fileCallbacks threeBytes) configInit 3 ⟨true, 1, 0, 0⟩ :=
    ⟨by decide, Int.le_refl 0⟩
  exact ⟨s, hs, hasking.not_checksAgree (by decide) hsends⟩

end ZephyrModem.Xmodem
