import ZephyrModem.Counter
import ZephyrModem.Reactive.DeadLine
import ZephyrModem.Ymodem.Integrity

/-!
# The YMODEM receiver on a dead line

On a dead line every packet is given up and its purge ends, so that the header read of
step 1 or of step 2 comes back and counts. The end of a file at a lost second EOT leads
from step 2 back to step 1.
-/

namespace ZephyrModem.Ymodem
open ZephyrModem.Reactive ZephyrModem.Transfer
open ZephyrModem.Xmodem (Byte Read soh stx eot ack nak can charC RawPacket Announces announces_framed
  checkBytes)

section DeadLine

variable {υ : Type} (P : Platform) (crc : CrcService) (cbs : RxCallbacks υ)

theorem returns_block0 {v : RxLocals υ} (hp : v.phase = .block0) :
    Returns (receiveStep P crc cbs) (.wait ⟨.header, v⟩) := by
  apply returns_of_measure (fun s => s.site = .header ∧ s.locals.phase = .block0)
    (fun s => roundsLeft maxRetries s.locals.retries)
  · rintro ⟨site, v⟩ t ⟨rfl, hp⟩ ht
    have hstep : receiveStep P crc cbs ⟨.header, v⟩ .timeout = requestAgain v := by
      simp only [receiveStep, headerTimeout, show v.phase = .block0 from hp]
    rw [hstep] at ht
    by_cases hmore : v.retries + 1 < maxRetries
    · rw [requestAgain, if_pos hmore] at ht
      cases ht
      exact ⟨⟨rfl, hp⟩, roundsLeft_lt_of_lt hmore⟩
    · rw [requestAgain, if_neg hmore] at ht
      cases ht
  · exact ⟨rfl, hp⟩

theorem returns_data {v : RxLocals υ} {f : FileLocals} (hp : v.phase = .data f) :
    Returns (receiveStep P crc cbs) (.wait ⟨.header, v⟩) := by
  apply returns_of_measure (fun s => s.site = .header ∧ s.locals.phase = .data f)
    (fun s => roundsLeft maxRetries s.locals.retries)
  · rintro ⟨site, v⟩ t ⟨rfl, hp⟩ ht
    have hstep : receiveStep P crc cbs ⟨.header, v⟩ .timeout = headerTimeout cbs v := rfl
    rw [hstep] at ht
    simp only [headerTimeout, show v.phase = .data f from hp] at ht
    by_cases hover : v.retries + 1 > maxRetries
    · rw [if_pos hover] at ht
      cases ht
    · rw [if_neg hover] at ht
      cases ht
      exact ⟨⟨rfl, rfl⟩, roundsLeft_lt hover (by decide)⟩
  · exact ⟨rfl, hp⟩

theorem returns_header (v : RxLocals υ) : Returns (receiveStep P crc cbs) (.wait ⟨.header, v⟩) := by
  cases hp : v.phase with
  | block0 => exact returns_block0 P crc cbs hp
  | data f => exact returns_data P crc cbs hp

theorem returns_purge (v : RxLocals υ) : Returns (receiveStep P crc cbs) (.wait ⟨.purge, v⟩) := by
  apply (returns_wait_iff _).mpr
  have hstep : receiveStep P crc cbs ⟨.purge, v⟩ .timeout = afterPurge v := rfl
  rw [hstep]
  cases hp : v.phase with
  | block0 =>
    simp only [afterPurge, hp]
    rcases requestAgain_cases v with ⟨es, -, he⟩ | ⟨es, -, he⟩ <;> rw [he]
    · exact returns_done _
    · exact returns_header P crc cbs _
  | data f =>
    simp only [afterPurge, hp]
    exact returns_header P crc cbs v

theorem returns_receive {s : RxState υ} (h : s.site = .secondEot → ∃ f, s.locals.phase = .data f) :
    Returns (receiveStep P crc cbs) (.wait s) := by
  have hcrc : ∀ v n buf, Returns (receiveStep P crc cbs) (.wait ⟨.crcHi n buf true, v⟩) := by
    intro v n buf
    exact (returns_wait_iff _).mpr (returns_purge P crc cbs v)
  obtain ⟨site, v⟩ := s
  cases site with
  | header => exact returns_header P crc cbs v
  | secondEot =>
    obtain ⟨f, hp⟩ := h rfl
    apply (returns_wait_iff _).mpr
    simp only [receiveStep, endFile, show v.phase = .data f from hp]
    exact returns_header P crc cbs _
  | blkNum len => exact (returns_wait_iff _).mpr (returns_purge P crc cbs v)
  | blkNumInv len n => exact (returns_wait_iff _).mpr (returns_purge P crc cbs v)
  | payload len n buf => exact (returns_wait_iff _).mpr (hcrc v n buf)
  | crcHi n buf e => exact (returns_wait_iff _).mpr (returns_purge P crc cbs v)
  | crcLo n buf e hi => exact (returns_wait_iff _).mpr (returns_purge P crc cbs v)
  | purge => exact returns_purge P crc cbs v

theorem returns_after (userData : υ) (bytes : List Byte) :
    ReturnsAfter (receiveStep P crc cbs) (ymodemReceive userData).next bytes := by
  rw [returnsAfter_iff]
  cases hnext : (feed (receiveStep P crc cbs) (ymodemReceive userData).next bytes).next with
  | done st => exact returns_done st
  | wait s =>
    apply returns_receive
    intro hsite
    obtain ⟨pre, rs, -, htrail, -, -⟩ := received_trail userData (bytes.map .ok) hnext
    rw [hsite] at htrail
    exact htrail.1

/-! ### The end of the batch -/

/-- A packet that ends the batch: Block 0 with an empty name and the right CRC. The complement
of its number is read and not looked at. -/
structure EndsBatch (p : RawPacket) : Prop where
  framed : p.Framed true
  check : p.check = checkBytes crc true p.payload
  number : p.blkNum = 0
  noName : p.payload.head? = some 0

theorem parseBlock0_empty {buf : List Byte} (hne : buf ≠ [])
    (h : (parseBlock0 P buf 128).filename = []) : buf.head? = some 0 := by
  obtain ⟨b, rest, rfl⟩ := List.exists_cons_of_ne_nil hne
  by_contra hb
  have hb' : b ≠ 0 := fun he => hb (he ▸ rfl)
  have hlen : 0 < (cstr ((b :: rest).take 128)).length := by
    rw [List.take_succ_cons, cstr, List.takeWhile_cons_of_pos (by simp [hb'])]
    exact Nat.succ_pos _
  unfold parseBlock0 at h
  rw [List.take_succ_cons] at h hlen
  simp only [List.head?_cons, Option.some.injEq, hb', if_false, List.take_eq_nil_iff, reduceCtorEq,
    or_false] at h
  split at h
  · cases h
  · omega

/-- The bytes hold such a packet. -/
def HoldsBatchEnd (bytes : List Byte) : Prop :=
  ∃ pre p post, EndsBatch crc p ∧ bytes = pre ++ p.bytes ++ post

theorem holdsBatchEnd_of_ok (userData : υ) {bytes : List Byte} {k : ℕ}
    (h : (run (receiveStep P crc cbs) (ymodemReceive userData).next
      (bytes.map .ok ++ List.replicate k .timeout)).next = .done .ok) : HoldsBatchEnd crc bytes := by
  rcases done_cases h with hstart | ⟨bs, b, post, s, rfl, hbs, hlast⟩ | ⟨s, hlast⟩
  · cases hstart
  · obtain ⟨buf, ⟨hphase, hi, lo, hsite, hlo, hcrc⟩, hname⟩ := done_ok_site P crc cbs hlast
    cases hlo
    obtain ⟨pre, rs, hreads, htrail, -, -⟩ := received_trail userData (bs.map .ok) hbs
    rw [hsite] at htrail
    obtain ⟨hd, inv, hann, rfl⟩ := htrail
    obtain ⟨init, mid, rfl, -, hmid⟩ := List.map_eq_append_iff.mp hreads
    have hmid' : mid = hd :: 0 :: inv :: (buf ++ [hi]) :=
      List.map_injective_iff.mpr (fun a b hab => ReadResult.ok.inj hab) hmid
    refine ⟨init, ⟨hd, 0, inv, buf, [hi, b]⟩, post, ⟨announces_framed hann rfl, ?_, rfl, ?_⟩, ?_⟩
    · obtain ⟨rfl, rfl⟩ := (be16_eq_iff hi b _).mp hcrc.symm
      rfl
    · apply parseBlock0_empty P ?_ hname
      rintro rfl
      rcases hann with ⟨-, hlen⟩ | ⟨-, hlen⟩ <;> cases hlen
    · rw [hmid']
      simp [RawPacket.bytes]
  · obtain ⟨buf, ⟨-, hi, lo, -, hlo, -⟩, -⟩ := done_ok_site P crc cbs hlast
    cases hlo

end DeadLine

end ZephyrModem.Ymodem
