import ZephyrModem.Zmodem.Model
import ZephyrModem.Zmodem.Subpackets

/-!
# The sizes of what the ZMODEM receiver hands on

A subpacket is read into 1024 bytes, whatever comes in.
-/

namespace ZephyrModem.Zmodem
open ZephyrModem.Reactive ZephyrModem.Transfer

section Reader

variable {crc : CrcService}

/-- What a read in the check bytes of a subpacket leads to. -/
theorem readSubpacket_check {maxLen : ℕ} {c : Bool} {buf got : List Byte} {ender : Byte}
    {esc : Bool} {r : Read} {n : Next PacketSite (Option (List Byte × Byte))}
    (hr : readSubpacketRx crc maxLen c (.check buf ender got esc) r = n) :
    (∃ got' esc', n = .wait (.check buf ender got' esc')) ∨ n = .done none ∨
      n = .done (some (buf, ender)) := by
  have hbyte : ∀ b : Byte, (if (got ++ [b]).length < (if c then 4 else 2) then
        .wait (.check buf ender (got ++ [b]) false)
      else if checkSubpacket crc c buf ender (got ++ [b]) then .done (some (buf, ender))
      else .done none) = n →
      (∃ got' esc', n = .wait (.check buf ender got' esc')) ∨ n = .done none ∨
        n = .done (some (buf, ender)) := by
    intro b hn
    by_cases hmore : (got ++ [b]).length < (if c then 4 else 2)
    · rw [if_pos hmore] at hn
      exact .inl ⟨_, _, hn.symm⟩
    · rw [if_neg hmore] at hn
      by_cases hcrc : checkSubpacket crc c buf ender (got ++ [b]) = true
      · rw [if_pos hcrc] at hn
        exact .inr (.inr hn.symm)
      · rw [if_neg hcrc] at hn
        exact .inr (.inl hn.symm)
  unfold readSubpacketRx at hr
  cases hz : readZdleByteRx esc r with
  | wait esc' =>
    simp only [hz] at hr
    exact .inl ⟨_, _, hr.symm⟩
  | done z =>
    simp only [hz] at hr
    cases z with
    | byte b => exact hbyte b hr
    | ender b => exact hbyte b hr
    | error => exact .inr (.inl hr.symm)
    | cancel => exact .inr (.inl hr.symm)

theorem readSubpacket_data {maxLen : ℕ} {c : Bool} {buf : List Byte} {esc : Bool} {r : Read}
    {n : Next PacketSite (Option (List Byte × Byte))}
    (hr : readSubpacketRx crc maxLen c (.data buf esc) r = n) :
    (∃ p, n = .wait p ∧ (p.stored = buf ∨ buf.length < maxLen ∧ ∃ b, p.stored = buf ++ [b])) ∨
      n = .done none := by
  have hbyte : ∀ b : Byte,
      (if buf.length < maxLen then .wait (.data (buf ++ [b]) false) else .done none) = n →
      (∃ p, n = .wait p ∧ (p.stored = buf ∨ buf.length < maxLen ∧ ∃ b, p.stored = buf ++ [b])) ∨
        n = .done none := by
    intro b hn
    by_cases hroom : buf.length < maxLen
    · rw [if_pos hroom] at hn
      exact .inl ⟨_, hn.symm, .inr ⟨hroom, b, rfl⟩⟩
    · rw [if_neg hroom] at hn
      exact .inr hn.symm
  unfold readSubpacketRx at hr
  cases hz : readZdleByteRx esc r with
  | wait esc' =>
    simp only [hz] at hr
    exact .inl ⟨_, hr.symm, .inl rfl⟩
  | done z =>
    simp only [hz] at hr
    cases z with
    | byte b => exact hbyte b hr
    | ender b => exact .inl ⟨_, hr.symm, .inl rfl⟩
    | error => exact .inr hr.symm
    | cancel => exact .inr hr.symm

theorem stored_readSubpacket {maxLen : ℕ} {c : Bool} {p p' : PacketSite} {r : Read}
    (hr : readSubpacketRx crc maxLen c p r = .wait p') (h : p.stored.length ≤ maxLen) :
    p'.stored.length ≤ maxLen := by
  cases p with
  | data buf esc =>
    rcases readSubpacket_data hr with ⟨q, hq, hsame | ⟨hroom, b, hmore⟩⟩ | hq <;> cases hq
    · rwa [hsame]
    · rw [hmore, List.length_append, List.length_singleton]
      omega
  | check buf ender got esc =>
    rcases readSubpacket_check hr with ⟨got', esc', hq⟩ | hq | hq <;> cases hq
    exact h

theorem done_readSubpacket {maxLen : ℕ} {c : Bool} {p : PacketSite} {r : Read}
    {sub : List Byte} {ender : Byte}
    (hr : readSubpacketRx crc maxLen c p r = .done (some (sub, ender))) : p.stored = sub := by
  cases p with
  | data buf esc => rcases readSubpacket_data hr with ⟨q, hq, -⟩ | hq <;> cases hq
  | check buf ender' got esc =>
    rcases readSubpacket_check hr with ⟨got', esc', hq⟩ | hq | hq <;> cases hq
    rfl

end Reader

section Receive

variable {υ : Type} (P : Platform) (crc : CrcService) (stale : List Byte → List Byte)
  (cbs : RxCallbacks υ)

/-- The buffer of the subpacket that is read. -/
def RxSite.buffer : RxSite → List Byte
  | .header _ | .fileHeader .. => []
  | .fileInfo _ p | .data _ _ p => p.stored

/-- The buffer holds at most 1024 bytes. -/
def Bounded (n : Next (RxState υ) Status) : Prop :=
  ∀ s, n = .wait s → s.site.buffer.length ≤ 1024

theorem bounded_step {s : RxState υ} (h : s.site.buffer.length ≤ 1024) (r : Read) :
    Bounded (receiveStep P crc stale cbs s r).next := by
  intro t ht
  rcases receiveStep_cases P crc stale cbs s r with ⟨site, hnext, he⟩ | ⟨hs, a, -, -, he⟩ |
    ⟨c, p, a, -, -, he⟩ | ⟨f, hs, a, -, -, he⟩ | ⟨f, c, p, a, -, -, he⟩ <;> rw [he] at ht
  · cases ht
    generalize s.site = site' at hnext h
    cases hnext with
    | header hr | fileHeader f hr => exact Nat.zero_le _
    | fileInfo hr | data f hr => exact stored_readSubpacket hr h
  · cases a with
    | none => cases ht
    | some hd =>
      simp only [onHeader] at ht
      split_ifs at ht <;> cases ht <;> exact Nat.zero_le _
  · cases a with
    | none => cases ht
    | some a =>
      rw [onFileInfo_some] at ht
      cases ht
      exact Nat.zero_le _
  · cases a with
    | none => cases ht
    | some hd =>
      simp only [onFileHeader] at ht
      split_ifs at ht <;> cases ht <;> exact Nat.zero_le _
  · cases a with
    | none => cases ht
    | some a =>
      obtain ⟨sub, ender⟩ := a
      rw [onData_some] at ht
      cases ht
      by_cases hend : ender = zcrce ∨ ender = zcrcw
      · rw [if_pos hend]
        exact Nat.zero_le _
      · rw [if_neg hend]
        exact Nat.zero_le _

theorem bounded_run {s : RxState υ} (h : s.site.buffer.length ≤ 1024) (reads : List Read) :
    Bounded (run (receiveStep P crc stale cbs) (.wait s) reads).next := by
  induction reads generalizing s with
  | nil =>
    intro t ht
    rw [run_nil] at ht
    cases ht
    exact h
  | cons r reads ih =>
    rw [run_wait, Out.after_next]
    cases hnext : (receiveStep P crc stale cbs s r).next with
    | done st =>
      intro t ht
      rw [run_done] at ht
      cases ht
    | wait t => exact ih (bounded_step P crc stale cbs h r t hnext)

/-- No callback is given more than 1024 bytes. -/
theorem onData_length (u : υ) {reads : List Read} {buf : List Byte} {len offset : ℕ} {res : ℤ}
    (h : .onData buf len offset res ∈
      (run (receiveStep P crc stale cbs) (zmodemReceive crc u).next reads).events) :
    len = buf.length ∧ buf.length ≤ 1024 := by
  obtain ⟨pre, r, post, s, -, hpre, hin⟩ := exists_of_mem_events _ h
  have hbound : s.site.buffer.length ≤ 1024 :=
    bounded_run P crc stale cbs (s := ⟨.header .pad, u⟩) (Nat.zero_le _) pre s hpre
  rcases mem_receiveStep_events P crc stale cbs hin with ⟨b, he⟩ | ⟨info, st, -, he⟩ |
    ⟨f, hd, -, -, he⟩ | ⟨c, p, a, res', -, -, he⟩ | ⟨f, c, p, sub, ender, g, hsite, hr, -, -, he⟩
  · cases he
  · cases he
  · cases he
  · cases he
  · cases he
    rw [hsite] at hbound
    refine ⟨rfl, ?_⟩
    rwa [← done_readSubpacket hr]

end Receive

end ZephyrModem.Zmodem
