import Mathlib.Data.List.Induction
import ZephyrModem.Reactive.DeadLine
import ZephyrModem.Xmodem.Transcript

/-!
# The XMODEM engines on a dead line

Every wait of `xmodem_receive` comes back to the header read, where a time-out counts in
`retries`; so does every wait of `xmodem_transmit` for its start byte. An 8-bit counter
exceeds every limit but 255.
-/

namespace ZephyrModem.Xmodem
open ZephyrModem.Reactive

/-! ### The receiver -/

section Receive

variable {υ : Type} (P : Platform) (crc : CrcService) (cbs : RxCallbacks υ) {cfg : Config}

theorem returns_header (hlimit : cfg.maxRetries ≠ 255) (v : RxLocals υ) :
    Returns (receiveStep P crc cbs cfg) (.wait ⟨.header, v⟩) := by
  apply returns_of_measure (fun s => s.site = .header)
    (fun s => roundsLeft cfg.maxRetries s.locals.retries)
  · rintro ⟨site, v⟩ t rfl ht
    have hstep : receiveStep P crc cbs cfg ⟨.header, v⟩ .timeout = headerTimeout cfg v := rfl
    rw [hstep] at ht
    by_cases hr : v.retries + 1 > cfg.maxRetries
    · rw [headerTimeout, if_pos hr] at ht
      cases ht
    · rw [headerTimeout, if_neg hr] at ht
      cases ht
      exact ⟨rfl, roundsLeft_lt hr hlimit⟩
  · rfl

theorem returns_purge (hlimit : cfg.maxRetries ≠ 255) (bad : Bool) (v : RxLocals υ) :
    Returns (receiveStep P crc cbs cfg) (.wait ⟨.purge bad, v⟩) := by
  apply (returns_wait_iff _).mpr
  have hstep : receiveStep P crc cbs cfg ⟨.purge bad, v⟩ .timeout = afterPurge cfg bad v := rfl
  rw [hstep]
  rcases afterPurge_cases cfg bad v with h | h <;> rw [h]
  · exact returns_done _
  · exact returns_header P crc cbs hlimit _

theorem returns_receive (hlimit : cfg.maxRetries ≠ 255) (s : RxState υ) :
    Returns (receiveStep P crc cbs cfg) (.wait s) := by
  have hnumbers : ∀ v len r1,
      Returns (receiveStep P crc cbs cfg) (.wait ⟨.blkNumInv len r1, v⟩) := by
    intro v len r1
    apply (returns_wait_iff _).mpr
    simp only [receiveStep, checkNumbers]
    split
    · exact returns_done _
    · cases r1 <;> exact returns_purge P crc cbs hlimit false v
  have hcrc : ∀ v n buf cr1,
      Returns (receiveStep P crc cbs cfg) (.wait ⟨.crcLo n buf cr1, v⟩) := by
    intro v n buf cr1
    apply (returns_wait_iff _).mpr
    simp only [receiveStep, checkCrc]
    split
    · exact returns_done _
    · cases cr1 <;> exact returns_purge P crc cbs hlimit false v
  obtain ⟨site, v⟩ := s
  cases site with
  | header => exact returns_header P crc cbs hlimit v
  | secondCan => exact (returns_wait_iff _).mpr (returns_done _)
  | blkNum len => exact (returns_wait_iff _).mpr (hnumbers v len .timeout)
  | blkNumInv len r1 => exact hnumbers v len r1
  | payload len n buf => exact (returns_wait_iff _).mpr (returns_purge P crc cbs hlimit false v)
  | crcHi n buf => exact (returns_wait_iff _).mpr (hcrc v n buf .timeout)
  | crcLo n buf cr1 => exact hcrc v n buf cr1
  | cksum n buf => exact (returns_wait_iff _).mpr (returns_purge P crc cbs hlimit false v)
  | purge bad => exact returns_purge P crc cbs hlimit bad v

/-- A read whose first half, if it has one, was not cancelled. -/
def RxSite.Uncancelled : RxSite → Prop
  | .blkNumInv _ r1 => r1 ≠ .cancel
  | .crcLo _ _ cr1 => cr1 ≠ .cancel
  | _ => True

theorem receiveStep_uncancelled {s t : RxState υ} {r : Read} (hr : r ≠ .cancel)
    (h : (receiveStep P crc cbs cfg s r).next = .wait t) : t.site.Uncancelled := by
  obtain ⟨site, v⟩ := s
  obtain ⟨site', w⟩ := t
  rcases receiveStep_wait P crc cbs cfg h with hsite | ⟨hnext, -⟩
  · obtain rfl : site' = .header := hsite
    trivial
  · cases hnext with
    | number len r1 => exact hr
    | check n buf cr1 => exact hr
    | _ => trivial

/-- With a limit that no byte exceeds, a time-out leads from every read but that behind a CAN
to another such read. -/
theorem timeout_stays (hlimit : cfg.maxRetries = 255) {s : RxState υ} (hs : s.site ≠ .secondCan)
    (hclean : s.site.Uncancelled) :
    ∃ t, (receiveStep P crc cbs cfg s .timeout).next = .wait t ∧ t.site ≠ .secondCan ∧
      t.site.Uncancelled := by
  have hgt : ∀ v : RxLocals υ, ¬ v.retries + 1 > cfg.maxRetries := fun v => not_gt_255 hlimit
  obtain ⟨site, v⟩ := s
  have hwait : ∃ t, (receiveStep P crc cbs cfg ⟨site, v⟩ .timeout).next = .wait t := by
    rcases receiveStep_cases P crc cbs cfg ⟨site, v⟩ .timeout with ⟨site', -, he⟩ |
      ⟨es, hcancels, -, -⟩ | ⟨-, hr, -⟩ | ⟨-, -, he⟩ | ⟨bad, -, he⟩ | ⟨n, buf, hlast, -⟩
    · exact ⟨_, congrArg Out.next he⟩
    · exfalso
      rcases hcancels with hsite | hr | ⟨len, rfl⟩ | ⟨n, buf, rfl⟩
      · exact hs hsite
      · cases hr
      · exact hclean rfl
      · exact hclean rfl
    · cases hr
    · rw [he, headerTimeout, if_neg (hgt _)]
      exact ⟨_, rfl⟩
    · rw [he, afterPurge, if_neg (fun h => hgt _ h.2)]
      exact ⟨_, rfl⟩
    · cases hlast
  obtain ⟨⟨site', w⟩, ht⟩ := hwait
  refine ⟨⟨site', w⟩, ht, ?_, receiveStep_uncancelled P crc cbs (by decide) ht⟩
  rintro rfl
  rcases receiveStep_wait P crc cbs cfg ht with hsite | ⟨hnext, -⟩
  · cases hsite
  · cases hnext

variable (cfg) in
/-- The receiver returns on a dead line, unless its limit is 255 and it waits for anything but
the byte behind a CAN. -/
theorem receive_returns_iff (userData : υ) (bytes : List Byte) :
    ReturnsAfter (receiveStep P crc cbs cfg) (xmodemReceive cfg userData).next bytes ↔
      (cfg.maxRetries = 255 → ∀ s,
        (feed (receiveStep P crc cbs cfg) (xmodemReceive cfg userData).next bytes).next = .wait s →
          s.site = .secondCan) := by
  rw [returnsAfter_iff]
  have hclean : ∀ s, (feed (receiveStep P crc cbs cfg) (xmodemReceive cfg userData).next bytes).next =
      .wait s → s.site.Uncancelled := by
    refine feed_invariant
      (fun n : Next (RxState υ) RxResult => ∀ s, n = .wait s → s.site.Uncancelled) ?_ _ bytes ?_
    · intro s b _ t ht
      exact receiveStep_uncancelled P crc cbs (by simp) ht
    · intro s hs
      cases hs
      trivial
  cases hnext : (feed (receiveStep P crc cbs cfg) (xmodemReceive cfg userData).next bytes).next with
  | done r => exact iff_of_true (returns_done r) (by intro _ s hs; cases hs)
  | wait s =>
    constructor
    · intro h hlimit t ht
      cases ht
      by_contra hsite
      exact not_returns (fun s => s.site ≠ .secondCan ∧ s.site.Uncancelled)
        (fun s hs => timeout_stays P crc cbs hlimit hs.1 hs.2) ⟨hsite, hclean s hnext⟩ h
    · intro h
      by_cases hlimit : cfg.maxRetries = 255
      · have hsite := h hlimit s rfl
        obtain ⟨site, v⟩ := s
        simp only at hsite
        rw [hsite]
        exact (returns_wait_iff _).mpr (returns_done _)
      · exact returns_receive P crc cbs hlimit s

end Receive

/-! ### The transmitter -/

section Transmit

variable {υ : Type} (P : Platform) (crc : CrcService) (cbs : TxCallbacks υ) {cfg : Config}
  (totalLen : ℕ)

def TxSite.retries : TxSite υ → Byte
  | .start retries _ => retries
  | .reply _ retries _ => retries
  | .eotReply retries => retries

/-- The loop of step 1. -/
def TxSite.Starting : TxSite υ → Prop
  | .start .. => True
  | _ => False

theorem timeout_counts {s t : TxSite υ} (hlimit : s.Starting → cfg.maxRetries ≠ 255)
    (h : (transmitStep P crc cbs cfg totalLen s .timeout).next = .wait t) :
    (t.Starting → s.Starting) ∧
      roundsLeft cfg.maxRetries t.retries < roundsLeft cfg.maxRetries s.retries := by
  cases s with
  | start retries u =>
    have hstep : transmitStep P crc cbs cfg totalLen (.start retries u) .timeout =
        startAgain cfg retries u := rfl
    rw [hstep] at h
    by_cases hr : retries + 1 > cfg.maxRetries
    · rw [startAgain, if_pos hr] at h
      cases h
    · rw [startAgain, if_neg hr] at h
      cases h
      exact ⟨id, roundsLeft_lt hr (hlimit trivial)⟩
  | reply v retries payload =>
    have hstep : transmitStep P crc cbs cfg totalLen (.reply v retries payload) .timeout =
        sendPacket crc cfg v (retries + 1) payload := rfl
    rw [hstep] at h
    rcases sendPacket_cases crc cfg v (retries + 1) payload with ⟨hr, he⟩ | ⟨-, he⟩ <;> rw [he] at h
    · cases h
      exact ⟨id, roundsLeft_lt_of_lt hr⟩
    · cases h
  | eotReply retries =>
    have hstep : transmitStep P crc cbs cfg totalLen (.eotReply retries) .timeout =
        sendEot cfg (retries + 1) := rfl
    rw [hstep] at h
    by_cases hr : retries + 1 < cfg.maxRetries
    · rw [sendEot, if_pos hr] at h
      cases h
      exact ⟨id, roundsLeft_lt_of_lt hr⟩
    · rw [sendEot, if_neg hr] at h
      cases h

theorem returns_transmit {s : TxSite υ} (hlimit : s.Starting → cfg.maxRetries ≠ 255) :
    Returns (transmitStep P crc cbs cfg totalLen) (.wait s) := by
  apply returns_of_measure (fun s => s.Starting → cfg.maxRetries ≠ 255)
    (fun s => roundsLeft cfg.maxRetries s.retries)
  · intro s t hs ht
    obtain ⟨hstart, hlt⟩ := timeout_counts P crc cbs totalLen hs ht
    exact ⟨fun h => hs (hstart h), hlt⟩
  · exact hlimit

/-- The bytes that end the wait for the receiver. -/
def StartSignal (b : Byte) : Prop := b = charC ∨ b = nak ∨ b = can

theorem startAgain_stays (hlimit : cfg.maxRetries = 255) (retries : Byte) (u : υ) :
    startAgain cfg retries u = ⟨[], .wait (.start (retries + 1) u)⟩ :=
  if_neg (not_gt_255 hlimit)

theorem start_byte (hlimit : cfg.maxRetries = 255) (retries : Byte) (u : υ) (b : Byte) :
    (∃ retries' u', (transmitStep P crc cbs cfg totalLen (.start retries u) (.ok b)).next =
      .wait (.start retries' u')) ↔ ¬ StartSignal b := by
  rcases transmitStep_start P crc cbs cfg totalLen retries u (.ok b) with
    ⟨b', hb, hsignal, hstep⟩ | ⟨hcan, hstep⟩ | ⟨hnone, hstep⟩ <;> rw [hstep]
  · cases hb
    apply iff_of_false
    · rintro ⟨retries', u', h⟩
      exact nextBlock_ne_start crc cbs _ _ _ h
    · rcases hsignal with hc | hnak
      · exact fun h => h (.inl hc)
      · exact fun h => h (.inr (.inl hnak))
  · cases hcan
    apply iff_of_false
    · rintro ⟨retries', u', h⟩
      cases h
    · exact fun h => h (.inr (.inr rfl))
  · rw [startAgain_stays hlimit]
    exact iff_of_true ⟨_, _, rfl⟩ (hnone b rfl)

theorem waits_iff (hlimit : cfg.maxRetries = 255) (userData : υ) (bytes : List Byte) :
    (∃ retries u, (feed (transmitStep P crc cbs cfg totalLen) (xmodemTransmit userData).next bytes).next =
      .wait (.start retries u)) ↔ ∀ b ∈ bytes, ¬ StartSignal b := by
  induction bytes using List.reverseRecOn with
  | nil => exact iff_of_true ⟨0, userData, rfl⟩ (by simp)
  | append_singleton bytes b ih =>
    have hall : (∀ x ∈ bytes ++ [b], ¬ StartSignal x) ↔
        (∀ x ∈ bytes, ¬ StartSignal x) ∧ ¬ StartSignal b := by
      simp [or_imp, forall_and]
    rw [hall, ← ih]
    cases hnext : (feed (transmitStep P crc cbs cfg totalLen) (xmodemTransmit userData).next bytes).next with
    | done st =>
      rw [feed_append, hnext, feed_done]
      exact iff_of_false (by rintro ⟨_, _, h⟩; cases h) (by rintro ⟨⟨_, _, h⟩, -⟩; cases h)
    | wait s =>
      rw [feed_append, hnext, feed_cons, feed_nil, Out.after_next, Out.after_next]
      constructor
      · rintro ⟨retries, u, h⟩
        obtain ⟨⟨retries', u', rfl⟩, -⟩ := silent_step crc cbs h
        exact ⟨⟨retries', u', rfl⟩, (start_byte P crc cbs totalLen hlimit retries' u' b).mp ⟨_, _, h⟩⟩
      · rintro ⟨⟨retries, u, hs⟩, hb⟩
        cases hs
        exact (start_byte P crc cbs totalLen hlimit retries u b).mpr hb

theorem start_waits (hlimit : cfg.maxRetries = 255) (retries : Byte) (u : υ) :
    ¬ Returns (transmitStep P crc cbs cfg totalLen) (.wait (.start retries u)) := by
  apply not_returns (fun s => ∃ retries u, s = .start retries u)
  · rintro s ⟨retries, u, rfl⟩
    exact ⟨_, congrArg Out.next (startAgain_stays hlimit retries u), _, _, rfl⟩
  · exact ⟨retries, u, rfl⟩

variable (cfg) in
/-- The transmitter returns on a dead line, unless its limit is 255 and it got no signal. -/
theorem transmit_returns_iff (userData : υ) (bytes : List Byte) :
    ReturnsAfter (transmitStep P crc cbs cfg totalLen) (xmodemTransmit userData).next bytes ↔
      (cfg.maxRetries = 255 → ∃ b ∈ bytes, StartSignal b) := by
  rw [returnsAfter_iff]
  by_cases hlimit : cfg.maxRetries = 255
  · have hsignal : (∃ b ∈ bytes, StartSignal b) ↔
        ¬ ∃ retries u, (feed (transmitStep P crc cbs cfg totalLen) (xmodemTransmit userData).next
          bytes).next = .wait (.start retries u) := by
      rw [waits_iff P crc cbs totalLen hlimit]
      simp
    simp only [hlimit, forall_const, hsignal]
    constructor
    · rintro h ⟨retries, u, hnext⟩
      rw [hnext] at h
      exact start_waits P crc cbs totalLen hlimit retries u h
    · intro h
      cases hnext : (feed (transmitStep P crc cbs cfg totalLen) (xmodemTransmit userData).next
          bytes).next with
      | done st => exact returns_done st
      | wait s =>
        apply returns_transmit
        intro hs
        cases s with
        | start retries u => exact absurd ⟨retries, u, hnext⟩ h
        | reply v retries payload => exact hs.elim
        | eotReply retries => exact hs.elim
  · apply iff_of_true
    · cases (feed (transmitStep P crc cbs cfg totalLen) (xmodemTransmit userData).next bytes).next with
      | done st => exact returns_done st
      | wait s => exact returns_transmit P crc cbs totalLen fun _ => hlimit
    · intro h
      exact absurd h hlimit

end Transmit

/-! ### Both -/

section Both

variable {υ υ' : Type} (P : Platform) (crc : CrcService) (rcbs : RxCallbacks υ) (tcbs : TxCallbacks υ')
  (cfg : Config) (totalLen : ℕ) (u : υ) (u' : υ') (bytes : List Byte)

/-- Both functions return on a line that carries `bytes` and is dead then. -/
structure Terminates : Prop where
  receive : ReturnsAfter (receiveStep P crc rcbs cfg) (xmodemReceive cfg u).next bytes
  transmit : ReturnsAfter (transmitStep P crc tcbs cfg totalLen) (xmodemTransmit u').next bytes

/-- The line is dead for `xmodem_receive` after its return or a CAN, and for
`xmodem_transmit` after its signal. -/
structure Signalled : Prop where
  receive : ∀ s, (feed (receiveStep P crc rcbs cfg) (xmodemReceive cfg u).next bytes).next = .wait s →
    s.site = .secondCan
  transmit : ∃ b ∈ bytes, StartSignal b

end Both

/-- Both functions return on every dead line, but for a limit of 255 retries on a line
that dies before their signals. -/
theorem terminates_iff {υ υ' : Type} (P : Platform) (crc : CrcService) (rcbs : RxCallbacks υ)
    (tcbs : TxCallbacks υ') (cfg : Config) (totalLen : ℕ) (u : υ) (u' : υ') (bytes : List Byte) :
    Terminates P crc rcbs tcbs cfg totalLen u u' bytes ↔
      (cfg.maxRetries ≠ 255 ∨ Signalled P crc rcbs cfg u bytes) := by
  have hreceive := receive_returns_iff P crc rcbs cfg u bytes
  have htransmit := transmit_returns_iff P crc tcbs cfg totalLen u' bytes
  constructor
  · intro h
    by_cases hlimit : cfg.maxRetries = 255
    · exact .inr ⟨hreceive.mp h.receive hlimit, htransmit.mp h.transmit hlimit⟩
    · exact .inl hlimit
  · rintro (hlimit | h)
    · exact ⟨hreceive.mpr fun he => absurd he hlimit, htransmit.mpr fun he => absurd he hlimit⟩
    · exact ⟨hreceive.mpr fun _ => h.receive, htransmit.mpr fun _ => h.transmit⟩

/-- A line that is dead from the start. -/
theorem not_terminates_silence :
    ¬ Terminates platform32 referenceCrc acceptingStorage (fileCallbacks [1, 2, 3])
      { configInit with maxRetries := 255 } 3 () 0 [] := by
  intro h
  have hsignal := (transmit_returns_iff platform32 referenceCrc (fileCallbacks [1, 2, 3]) _ 3 0 []).mp
    h.transmit rfl
  simp at hsignal

end ZephyrModem.Xmodem
