import ZephyrModem.Console.ReadByte
import ZephyrModem.Reactive.Filter

/-!
# The abort monitor in front of a transfer

The transfer commands read through `console_read_byte`. Its counter `g_can_count` is a
static variable and keeps its value from one command to the next, so that a command may
find any value in it.
-/

namespace ZephyrModem.Console
open ZephyrModem.Reactive ZephyrModem.Xmodem

/-- What decides about a byte that arrives: whether a channel is bound, and the settings of
the monitor. -/
structure ConsoleInput where
  channel : Bool
  abort : AbortSettings
  deriving Repr, DecidableEq

/-- What the polling loop finds. -/
def polled : Read → Option Byte
  | .ok b => some b
  | .timeout => none
  | .cancel => none

/-- `console_read_byte` on what the line brings: a bound channel answers for itself. -/
def ConsoleInput.readByte (input : ConsoleInput) : ReadFilter ℕ Byte := fun canCount r =>
  consoleReadByte input.abort canCount (if input.channel then some r else none) (polled r)

/-- None of the bytes can be taken for an abort. -/
def ConsoleInput.Quiet (input : ConsoleInput) (bs : List Byte) : Prop :=
  input.channel = true ∨ input.abort.abortKey = false ∨
    Unsuspicious input.abort.abortKeyChar bs ∧ bs.head? ≠ some can

variable {input : ConsoleInput} {canCount : ℕ} {bs : List Byte}

theorem patient_readByte (input : ConsoleInput) : Patient input.readByte := by
  intro canCount
  unfold ConsoleInput.readByte consoleReadByte polled
  split <;> simp_all

theorem passes_of_channel (h : input.channel = true) : Passes input.readByte canCount bs := by
  have hread : ∀ n r, input.readByte n r = (r, n) := by
    intro n r
    simp [ConsoleInput.readByte, consoleReadByte, h]
  induction bs generalizing canCount with
  | nil => trivial
  | cons b bs ih =>
    refine ⟨?_, ih⟩
    rw [hread]

/-- Without a channel, bytes pass that the monitor lets through. -/
theorem passes_iff_consoleReads (h : input.channel = false) :
    Passes input.readByte canCount bs ↔ consoleReads input.abort canCount bs = bs.map .ok := by
  have hread : ∀ n b, input.readByte n (.ok b) = consoleReadByte input.abort n none (some b) := by
    intro n b
    simp [ConsoleInput.readByte, h, polled]
  induction bs generalizing canCount with
  | nil => exact ⟨fun _ => rfl, fun _ => trivial⟩
  | cons b bs ih =>
    rw [consoleReads_cons, List.map_cons, List.cons.injEq, ← hread]
    exact and_congr_right fun _ => ih

theorem consoleReads_eq_iff {key : Byte} :
    consoleReads ⟨true, key⟩ canCount bs = bs.map .ok ↔
      Unsuspicious key bs ∧ (canCount = 0 ∨ bs.head? ≠ some can) := by
  constructor
  · intro h
    refine ⟨unsuspicious_of_consoleReads h, ?_⟩
    by_contra hbad
    push Not at hbad
    obtain ⟨hcount, hhead⟩ := hbad
    obtain ⟨bs', rfl⟩ : ∃ bs', bs = can :: bs' := by
      cases bs with
      | nil => cases hhead
      | cons b bs' => exact ⟨bs', by rw [Option.some.inj hhead]⟩
    have hkey : ¬ (0x18 : Byte) = key := by
      rintro rfl
      exact (unsuspicious_of_consoleReads h).1 (List.mem_cons_self ..)
    have hfires : (consoleReadByte ⟨true, key⟩ canCount none (some can)).1 = .cancel := by
      have htwo : canCount + 1 ≥ 2 := by omega
      simp [consoleReadByte, can, hkey, htwo]
    rw [consoleReads_cons, hfires] at h
    cases h
  · rintro ⟨hquiet, hhead⟩
    obtain ⟨g', hpass⟩ := consoleReads_unsuspicious [] hquiet hhead
    simpa [consoleReads] using hpass

/-- Quiet bytes are those that pass, whatever value the counter was left with. -/
theorem quiet_iff_passes : input.Quiet bs ↔ ∀ canCount, Passes input.readByte canCount bs := by
  obtain ⟨channel, enabled, key⟩ := input
  cases channel with
  | true => exact ⟨fun _ _ => passes_of_channel rfl, fun _ => .inl rfl⟩
  | false =>
    simp only [passes_iff_consoleReads, ConsoleInput.Quiet, Bool.false_eq_true, false_or]
    cases enabled with
    | false => simp [consoleReads_disabled]
    | true =>
      simp only [consoleReads_eq_iff, Bool.true_eq_false, false_or]
      constructor
      · rintro ⟨hquiet, hhead⟩ canCount
        exact ⟨hquiet, .inr hhead⟩
      · intro h
        exact ⟨(h 0).1, (h 1).2.resolve_left (by decide)⟩

theorem ConsoleInput.Quiet.passes (h : input.Quiet bs) (canCount : ℕ) :
    Passes input.readByte canCount bs := quiet_iff_passes.mp h canCount

/-- Bytes without the abort key and without CAN are quiet. -/
theorem quiet_of_forall (h : ∀ b ∈ bs, b ≠ input.abort.abortKeyChar ∧ b ≠ can) : input.Quiet bs := by
  refine .inr (.inr ⟨⟨fun hin => (h _ hin).1 rfl, ?_⟩, ?_⟩)
  · intro hin
    exact (h can (hin.subset (List.mem_cons_self ..))).2 rfl
  · intro hhead
    exact (h can (List.mem_of_head? hhead)).2 rfl

/-- Any part of the bytes from their beginning on is quiet as well. -/
theorem ConsoleInput.Quiet.of_prefix {as : List Byte} (h : input.Quiet bs) (hpre : as <+: bs) :
    input.Quiet as := by
  obtain ⟨rest, rfl⟩ := hpre
  exact quiet_iff_passes.mpr fun canCount => (h.passes canCount).append_left

end ZephyrModem.Console
