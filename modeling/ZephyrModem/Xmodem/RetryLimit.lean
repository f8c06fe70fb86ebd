import ZephyrModem.Counter
import ZephyrModem.Reactive.Streak
import ZephyrModem.Xmodem.Model

/-!
# The retry limit of `xmodem_receive`

Every rejected packet counts in the 8-bit `retries`, but only a time-out of the header
read and a bad header byte are followed by a comparison with `max_retries`.
-/

namespace ZephyrModem.Xmodem
open ZephyrModem.Reactive

variable {υ : Type} (P : Platform) (crc : CrcService) (cbs : RxCallbacks υ) (cfg : Config)

/-- The read after which a packet counts as missing or rejected: a time-out where a
header byte is due, or the end of a purge. -/
def rejects (v : RxState υ × Read) : Bool :=
  match v.1.site, v.2 with
  | .header, .timeout => true
  | .purge _, .ok _ => false
  | .purge _, _ => true
  | _, _ => false

/-- The read completes a packet that `data_cb` stores. -/
def accepts (v : RxState υ × Read) : Bool :=
  (receiveStep P crc cbs cfg v.1 v.2).events.any fun
    | .dataCb _ _ res => res = 0
    | .write _ => false

def rejectedInARow (userData : υ) (reads : List Read) : ℕ :=
  streak (accepts P crc cbs cfg) rejects
    (visits (receiveStep P crc cbs cfg) (xmodemReceive cfg userData).next reads)

/-- The counter is below the limit, or it is compared with a limit that eight bits can
exceed. -/
def WithinLimit (s : RxState υ) : Prop :=
  s.locals.retries < cfg.maxRetries ∨ s.site ≠ .purge false ∧ cfg.maxRetries ≠ 255

instance (s : RxState υ) : Decidable (WithinLimit cfg s) := inferInstanceAs (Decidable (_ ∨ _))

theorem rejects_cases {s : RxState υ} {r : Read} (hr : rejects (s, r) = true) :
    (s.site = .header ∧ receiveStep P crc cbs cfg s r = headerTimeout cfg s.locals) ∨
    ∃ bad, s.site = .purge bad ∧
      receiveStep P crc cbs cfg s r = afterPurge cfg bad s.locals := by
  obtain ⟨site, v⟩ := s
  cases site with
  | header =>
    cases r with
    | timeout => exact .inl ⟨rfl, rfl⟩
    | ok b => cases hr
    | cancel => cases hr
  | purge bad =>
    cases r with
    | ok b => cases hr
    | timeout => exact .inr ⟨bad, rfl, rfl⟩
    | cancel => exact .inr ⟨bad, rfl, rfl⟩
  | secondCan => cases hr
  | blkNum len => cases hr
  | blkNumInv len r1 => cases hr
  | payload len n buf => cases hr
  | crcHi n buf => cases hr
  | crcLo n buf cr1 => cases hr
  | cksum n buf => cases hr

theorem rejects_step {s : RxState υ} {r : Read} {t : RxState υ} (hr : rejects (s, r) = true)
    (hle : s.locals.retries ≤ cfg.maxRetries) (hw : WithinLimit cfg s)
    (ht : (receiveStep P crc cbs cfg s r).next = .wait t) :
    t.locals.retries.toNat = s.locals.retries.toNat + 1 ∧ t.locals.retries ≤ cfg.maxRetries := by
  rcases rejects_cases P crc cbs cfg hr with ⟨-, he⟩ | ⟨bad, hs, he⟩
  · rw [he] at ht
    by_cases hover : s.locals.retries + 1 > cfg.maxRetries
    · simp only [headerTimeout, if_pos hover, rxFail] at ht
      cases ht
    · have hlt : s.locals.retries < cfg.maxRetries := by
        rcases hw with hlt | ⟨-, hmax⟩
        · exact hlt
        · exact lt_of_not_succ_gt hle hover hmax
      simp only [headerTimeout, if_neg hover] at ht
      cases ht
      exact succ_of_lt hlt
  · rw [he] at ht
    by_cases hover : bad ∧ s.locals.retries + 1 > cfg.maxRetries
    · simp only [afterPurge, if_pos hover, rxFail] at ht
      cases ht
    · have hlt : s.locals.retries < cfg.maxRetries := by
        rcases hw with hlt | ⟨hsite, hmax⟩
        · exact hlt
        · have hbad : bad = true := by
            cases bad with
            | true => rfl
            | false => exact absurd hs hsite
          exact lt_of_not_succ_gt hle (fun h => hover ⟨hbad, h⟩) hmax
      simp only [afterPurge, if_neg hover] at ht
      cases ht
      exact succ_of_lt hlt

theorem not_rejects_step {s : RxState υ} {r : Read} {t : RxState υ} (hr : rejects (s, r) = false)
    (ht : (receiveStep P crc cbs cfg s r).next = .wait t) :
    t.locals.retries = s.locals.retries ∨
      t.locals.retries = 0 ∧ accepts P crc cbs cfg (s, r) = true := by
  rcases receiveStep_cases P crc cbs cfg s r with ⟨site, -, he⟩ | ⟨es, -, -, he⟩ | ⟨-, -, he⟩ |
    ⟨hs, hread, -⟩ | ⟨bad, hs, he⟩ | ⟨n, buf, -, he⟩
  · rw [he] at ht
    cases ht
    exact .inl rfl
  · rw [he] at ht
    cases ht
  · rw [he] at ht
    cases ht
  · obtain ⟨site, v⟩ := s
    subst hs hread
    cases hr
  · obtain ⟨site, v⟩ := s
    subst hs
    cases r with
    | ok b =>
      cases ht
      exact .inl rfl
    | timeout => cases hr
    | cancel => cases hr
  · rcases acceptPacket_cases P cbs s.locals n buf with ⟨-, -, ha⟩ | ⟨-, -, ha⟩ | ⟨es, st, -, ha⟩
    · rw [he, ha] at ht
      cases ht
      refine .inr ⟨rfl, ?_⟩
      simp [accepts, he, ha]
    · rw [he, ha] at ht
      cases ht
      exact .inl rfl
    · rw [he, ha] at ht
      cases ht

theorem rejectedInARow_le (userData : υ) (reads : List Read)
    (h : ∀ v ∈ visits (receiveStep P crc cbs cfg) (xmodemReceive cfg userData).next reads,
      rejects v = true → WithinLimit cfg v.1) :
    rejectedInARow P crc cbs cfg userData reads ≤ cfg.maxRetries.toNat + 1 := by
  refine streak_le_of_counter (receiveStep P crc cbs cfg)
    (fun s => s.locals.retries ≤ cfg.maxRetries) (fun s => s.locals.retries.toNat) _
    (fun s r => rejects (s, r) = true → WithinLimit cfg s) (fun _ hle => hle) ?_ ?_ reads h
  · intro s r t hc hle ht
    cases hr : rejects (s, r) with
    | true =>
      obtain ⟨hcount, hle'⟩ := rejects_step P crc cbs cfg hr hle (hc hr) ht
      exact ⟨hle', hcount ▸ streakStep_le _ _ _ _⟩
    | false =>
      rcases not_rejects_step P crc cbs cfg hr ht with hsame | ⟨hzero, hacc⟩
      · rw [hsame]
        exact ⟨hle, streakStep_of_not_mark hr⟩
      · rw [hzero, streakStep_of_reset hacc]
        exact ⟨Nat.zero_le _, Nat.zero_le _⟩
  · exact Nat.zero_le _

/-! ### An endless stream of damaged packets -/

/-- A packet whose two number bytes do not match, and the silence after it. -/
def damagedPacket : List Read := [.ok soh, .ok 0, .ok 0, .timeout]

/-- However many damaged packets come, each is rejected and the receiver waits for more. -/
theorem damagedPackets_rejected (userData : υ) (k : ℕ) :
    (∃ t, (run (receiveStep P crc cbs cfg) (xmodemReceive cfg userData).next
      (List.replicate k damagedPacket).flatten).next = .wait t) ∧
    rejectedInARow P crc cbs cfg userData (List.replicate k damagedPacket).flatten = k := by
  have hone : ∀ s : RxState υ, s.site = .header →
      (∃ t, (run (receiveStep P crc cbs cfg) (.wait s) damagedPacket).next = .wait t ∧
        t.site = .header) ∧
      ∀ c, (visits (receiveStep P crc cbs cfg) (.wait s) damagedPacket).foldl
        (streakStep (accepts P crc cbs cfg) rejects) c = c + 1 := by
    intro s hs
    obtain ⟨site, v⟩ := s
    subst hs
    exact ⟨⟨⟨.header, { v with retries := v.retries + 1 }⟩, rfl, rfl⟩, fun c => rfl⟩
  have hstart : (run (receiveStep P crc cbs cfg) (xmodemReceive cfg userData).next []).next =
      .wait ⟨.header, rxInit cfg userData⟩ := rfl
  obtain ⟨⟨t, ht, -⟩, hcount⟩ := streak_replicate (receiveStep P crc cbs cfg)
    (accepts P crc cbs cfg) rejects (fun s => s.site = .header) damagedPacket hone hstart rfl k
  refine ⟨⟨t, ht⟩, hcount.trans ?_⟩
  rw [visits_nil]
  exact Nat.zero_add k

end ZephyrModem.Xmodem
