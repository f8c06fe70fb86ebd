import ZephyrModem.Counter
import ZephyrModem.Reactive.Streak
import ZephyrModem.Ymodem.Completeness

/-!
# The retry limit of `ymodem_receive`

In the data phase only the time-out of a header read counts in `retries`: a packet that
is rejected after a purge is answered by NAK and forgotten.
-/

namespace ZephyrModem.Ymodem
open ZephyrModem.Reactive ZephyrModem.Transfer
open ZephyrModem.Xmodem (Byte Read)

variable {υ : Type} (P : Platform) (crc : CrcService) (cbs : RxCallbacks υ)

def rejects (v : RxState υ × Read) : Bool :=
  match v.1.locals.phase with
  | .block0 => false
  | .data _ => misses v.1 v.2

theorem rejects_read {v : RxState υ × Read} (h : rejects v = true) (b : Byte) : .ok b ≠ v.2 := by
  obtain ⟨⟨site, retries, phase, u⟩, r⟩ := v
  rintro rfl
  cases phase with
  | block0 => cases h
  | data f => cases site <;> cases h

/-- The read completes a block in sequence; step 1 has no packets of the file to count. -/
def accepts (v : RxState υ × Read) : Bool :=
  match v.1.locals.phase with
  | .block0 => true
  | .data _ => (acceptedBlock crc v.1 v.2).isSome

def rejectedInARow (userData : υ) (reads : List Read) : ℕ :=
  streak (accepts crc) rejects (visits (receiveStep P crc cbs) (ymodemReceive userData).next reads)

/-- What the count may be for the counter to bound it: step 1 leaves any number behind. -/
def allowance (s : RxState υ) : ℕ :=
  match s.locals.phase with
  | .block0 => maxRetries.toNat
  | .data _ => s.locals.retries.toNat

theorem allowance_le {s : RxState υ} (h : s.locals.retries ≤ maxRetries) :
    allowance s ≤ maxRetries.toNat := by
  unfold allowance
  split
  · exact Nat.le_refl _
  · exact h

theorem requestAgain_retries {v : RxLocals υ} {t : RxState υ}
    (ht : (requestAgain v).next = .wait t) : t.locals.retries ≤ maxRetries := by
  by_cases hmore : v.retries + 1 < maxRetries
  · simp only [requestAgain, if_pos hmore] at ht
    cases ht
    exact Nat.le_of_lt hmore
  · simp only [requestAgain, if_neg hmore] at ht
    cases ht

theorem misses_step {s : RxState υ} {r : Read} (hm : misses s r = true) :
    (s.site = .header ∧ receiveStep P crc cbs s r = headerTimeout cbs s.locals) ∨
    s.site = .purge ∧ receiveStep P crc cbs s r = afterPurge s.locals := by
  obtain ⟨site, v⟩ := s
  cases site with
  | header =>
    cases r with
    | timeout => exact .inl ⟨rfl, rfl⟩
    | ok b => cases hm
    | cancel => cases hm
  | purge =>
    cases r with
    | ok b => cases hm
    | timeout => exact .inr ⟨rfl, rfl⟩
    | cancel => exact .inr ⟨rfl, rfl⟩
  | secondEot => cases hm
  | blkNum len => cases hm
  | blkNumInv len n => cases hm
  | payload len n buf => cases hm
  | crcHi n buf e => cases hm
  | crcLo n buf e hi => cases hm

theorem misses_block0 {s : RxState υ} {r : Read} {t : RxState υ} (hm : misses s r = true)
    (hp : s.locals.phase = .block0) (ht : (receiveStep P crc cbs s r).next = .wait t) :
    t.locals.retries ≤ maxRetries := by
  have hstep : receiveStep P crc cbs s r = requestAgain s.locals := by
    rcases misses_step P crc cbs hm with ⟨-, he⟩ | ⟨-, he⟩
    · rw [he]
      simp only [headerTimeout, hp]
    · rw [he]
      simp only [afterPurge, hp]
  rw [hstep] at ht
  exact requestAgain_retries ht

theorem misses_data {s : RxState υ} {r : Read} {t : RxState υ} {f : FileLocals}
    (hm : misses s r = true) (hs : s.site ≠ .purge) (hp : s.locals.phase = .data f)
    (hle : s.locals.retries ≤ maxRetries) (ht : (receiveStep P crc cbs s r).next = .wait t) :
    t.locals.retries ≤ maxRetries ∧ allowance t = allowance s + 1 := by
  rcases misses_step P crc cbs hm with ⟨-, he⟩ | ⟨hpurge, -⟩
  · rw [he] at ht
    simp only [headerTimeout, hp] at ht
    by_cases hover : s.locals.retries + 1 > maxRetries
    · rw [if_pos hover] at ht
      cases ht
    · rw [if_neg hover] at ht
      cases ht
      have hle' : s.locals.retries + 1 ≤ maxRetries := Nat.not_lt.mp hover
      refine ⟨hle', ?_⟩
      simp only [allowance, hp]
      exact toNat_succ (Nat.lt_of_le_of_lt hle (by decide))
  · exact absurd hpurge hs

theorem not_misses_step {s : RxState υ} {r : Read} {t : RxState υ} (hm : misses s r = false)
    (ht : (receiveStep P crc cbs s r).next = .wait t) :
    (t.locals.retries = s.locals.retries ∧
      (t.locals.phase = s.locals.phase ∨ s.locals.phase = .block0)) ∨
    t.locals.retries = 0 ∧ (t.locals.phase = .block0 ∨ (acceptedBlock crc s r).isSome = true) := by
  rcases receiveStep_cases P crc cbs s r with ⟨site, -, he⟩ | ⟨es, v, hm', -, -, -, he⟩ |
    ⟨f, -, -, -, he⟩ | ⟨es, st, -, -, -, he⟩ | ⟨es, f, st, -, -, -, he⟩ | ⟨f, -, hp, he⟩ |
    ⟨buf, ⟨hp, -⟩, he⟩ | ⟨f, n, buf, ha, he⟩
  · rw [he] at ht
    cases ht
    exact .inl ⟨rfl, .inl rfl⟩
  · rw [hm] at hm'
    cases hm'
  · rw [he] at ht
    cases ht
    exact .inl ⟨rfl, .inl rfl⟩
  · rw [he] at ht
    cases ht
  · rw [he] at ht
    cases ht
  · rw [he] at ht
    simp only [endFile, hp] at ht
    cases ht
    exact .inr ⟨rfl, .inl rfl⟩
  · rw [he] at ht
    by_cases hname : (parseBlock0 P buf 128).filename = []
    · rw [acceptBlock0_end P cbs _ _ hname] at ht
      cases ht
    · rw [acceptBlock0_file P cbs _ _ hname] at ht
      cases ht
      exact .inl ⟨rfl, .inr hp⟩
  · rw [he] at ht
    by_cases hn : n = f.expectedBlk
    · subst hn
      simp only [acceptBlock, if_true] at ht
      cases ht
      refine .inr ⟨rfl, .inr ?_⟩
      rw [(acceptedBlock_eq_some_iff crc s r buf.length).mpr ⟨f, buf, ha, rfl⟩]
      rfl
    · simp only [acceptBlock, if_neg hn] at ht
      split at ht
      · cases ht
        exact .inl ⟨rfl, .inl rfl⟩
      · cases ht

theorem counter_step {s : RxState υ} {r : Read} {t : RxState υ}
    (hc : rejects (s, r) = true → s.site ≠ .purge) (hle : s.locals.retries ≤ maxRetries)
    (ht : (receiveStep P crc cbs s r).next = .wait t) :
    t.locals.retries ≤ maxRetries ∧
      streakStep (accepts crc) rejects (allowance s) (s, r) ≤ allowance t := by
  cases hp : s.locals.phase with
  | block0 =>
    have hreset : accepts crc (s, r) = true := by simp only [accepts, hp]
    rw [streakStep_of_reset hreset]
    refine ⟨?_, Nat.zero_le _⟩
    cases hm : misses s r with
    | true => exact misses_block0 P crc cbs hm hp ht
    | false =>
      rcases not_misses_step P crc cbs hm ht with ⟨hsame, -⟩ | ⟨hzero, -⟩
      · exact hsame ▸ hle
      · exact hzero ▸ Nat.zero_le _
  | data f =>
    have hrej : rejects (s, r) = misses s r := by simp only [rejects, hp]
    cases hm : misses s r with
    | true =>
      obtain ⟨hle', hcount⟩ := misses_data P crc cbs hm (hc (hrej.trans hm)) hp hle ht
      exact ⟨hle', hcount ▸ streakStep_le _ _ _ _⟩
    | false =>
      have hkeep : streakStep (accepts crc) rejects (allowance s) (s, r) ≤ allowance s :=
        streakStep_of_not_mark (hrej.trans hm)
      rcases not_misses_step P crc cbs hm ht with ⟨hsame, hphase⟩ | ⟨hzero, hphase | hacc⟩
      · have hphase' : t.locals.phase = s.locals.phase := by
          rcases hphase with h | h
          · exact h
          · rw [h] at hp
            cases hp
        have hallow : allowance t = allowance s := by simp only [allowance, hphase', hsame]
        exact ⟨hsame ▸ hle, hallow ▸ hkeep⟩
      · have hallow : allowance t = maxRetries.toNat := by simp only [allowance, hphase]
        exact ⟨hzero ▸ Nat.zero_le _, hallow ▸ Nat.le_trans hkeep (allowance_le hle)⟩
      · have hreset : accepts crc (s, r) = true := by simpa only [accepts, hp] using hacc
        rw [streakStep_of_reset hreset]
        exact ⟨hzero ▸ Nat.zero_le _, Nat.zero_le _⟩

theorem rejectedInARow_le (userData : υ) (reads : List Read)
    (h : ∀ v ∈ visits (receiveStep P crc cbs) (ymodemReceive userData).next reads,
      rejects v = true → v.1.site ≠ .purge) :
    rejectedInARow P crc cbs userData reads ≤ maxRetries.toNat + 1 := by
  refine streak_le_of_counter (receiveStep P crc cbs) (fun s => s.locals.retries ≤ maxRetries)
    allowance _ (fun s r => rejects (s, r) = true → s.site ≠ .purge) (fun s hle => allowance_le hle)
    ?_ ?_ reads h
  · intro s r t hc hle ht
    exact counter_step P crc cbs hc hle ht
  · show (0 : Byte) ≤ maxRetries
    decide

/-! ### An endless stream of damaged packets -/

/-- A header byte that opens no packet, and the silence after it. -/
def damagedPacket : List Read := [.ok 0, .timeout]

/-- In the data phase, however many damaged packets come, each is rejected and the
receiver waits for more. -/
theorem damagedPackets_rejected (userData : υ) {reads : List Read} {v : RxLocals υ} {f : FileLocals}
    (hv : (run (receiveStep P crc cbs) (ymodemReceive userData).next reads).next =
      .wait ⟨.header, v⟩) (hp : v.phase = .data f) (k : ℕ) :
    (∃ t, (run (receiveStep P crc cbs) (ymodemReceive userData).next
      (reads ++ (List.replicate k damagedPacket).flatten)).next = .wait t) ∧
    rejectedInARow P crc cbs userData (reads ++ (List.replicate k damagedPacket).flatten) =
      rejectedInARow P crc cbs userData reads + k := by
  have hone : ∀ s : RxState υ, s.site = .header ∧ s.locals.phase = .data f →
      (∃ t, (run (receiveStep P crc cbs) (.wait s) damagedPacket).next = .wait t ∧
        t.site = .header ∧ t.locals.phase = .data f) ∧
      ∀ c, (visits (receiveStep P crc cbs) (.wait s) damagedPacket).foldl
        (streakStep (accepts crc) rejects) c = c + 1 := by
    rintro ⟨site, retries, phase, u⟩ ⟨hs, hp⟩
    change site = _ at hs
    change phase = _ at hp
    subst hs hp
    exact ⟨⟨_, rfl, rfl, rfl⟩, fun c => rfl⟩
  obtain ⟨⟨t, ht, -⟩, hcount⟩ := streak_replicate (receiveStep P crc cbs) (accepts crc) rejects
    (fun s => s.site = .header ∧ s.locals.phase = .data f) damagedPacket hone hv ⟨rfl, hp⟩ k
  exact ⟨⟨t, ht⟩, hcount⟩

end ZephyrModem.Ymodem
