import Mathlib.Data.List.Induction
import ZephyrModem.Reactive.DeadLine
import ZephyrModem.Zmodem.Cancellation
import ZephyrModem.Zmodem.HeaderGrammar

/-!
# The ZMODEM receiver on a dead line

The first time-out ends the session with an error. It ends well only at the last byte of
a ZFIN header, which the line has carried in full.
-/

namespace ZephyrModem.Zmodem
open ZephyrModem.Reactive ZephyrModem.Transfer

section DeadLine

variable {υ : Type} (P : Platform) (crc : CrcService) (stale : List Byte → List Byte)
  (cbs : RxCallbacks υ)

theorem returns_after (userData : υ) (bytes : List Byte) :
    ReturnsAfter (receiveStep P crc stale cbs) (zmodemReceive crc userData).next bytes := by
  rw [returnsAfter_iff]
  cases (feed (receiveStep P crc stale cbs) (zmodemReceive crc userData).next bytes).next with
  | done st => exact returns_done st
  | wait s =>
    obtain ⟨es, st, -, hstep, -⟩ := receiveStep_timeout P crc stale cbs s
    apply (returns_wait_iff s).mpr
    rw [hstep]
    exact returns_done st

/-- The header that is read at a read. -/
def RxSite.headerSite : RxSite → Option HeaderSite
  | .header h | .fileHeader _ h => some h
  | .fileInfo .. | .data .. => none

/-- Where a call of the header reader begins. -/
def Fresh (n : Next (RxState υ) Status) : Prop :=
  ∀ t h, n = .wait t → t.site.headerSite = some h → h = .pad

theorem onHeader_fresh (u : υ) (a : Option Header) : Fresh (onHeader crc u a).next := by
  intro t h ht hh
  cases a with
  | none => cases ht
  | some hd =>
    simp only [onHeader] at ht
    split_ifs at ht <;> cases ht <;> cases hh <;> rfl

theorem onFileInfo_fresh (u : υ) (a : Option (List Byte × Byte)) :
    Fresh (onFileInfo P crc stale cbs u a).next := by
  intro t h ht hh
  cases a with
  | none => cases ht
  | some a =>
    rw [onFileInfo_some] at ht
    cases ht
    cases hh
    rfl

theorem onFileHeader_fresh (f : FileLocals) (u : υ) (a : Option Header) :
    Fresh (onFileHeader crc cbs f u a).next := by
  intro t h ht hh
  cases a with
  | none => cases ht
  | some hd =>
    simp only [onFileHeader] at ht
    split_ifs at ht <;> cases ht <;> cases hh <;> rfl

theorem onData_fresh (f : FileLocals) (c : Bool) (u : υ) (a : Option (List Byte × Byte)) :
    Fresh (onData P cbs f c u a).next := by
  intro t h ht hh
  cases a with
  | none => cases ht
  | some a =>
    obtain ⟨sub, ender⟩ := a
    rw [onData_some] at ht
    cases ht
    simp only at hh
    split at hh <;> cases hh
    rfl

theorem headerSite_step {s t : RxState υ} {r : Read} {h : HeaderSite}
    (ht : (receiveStep P crc stale cbs s r).next = .wait t) (hh : t.site.headerSite = some h) :
    h = .pad ∨ ∃ h', s.site.headerSite = some h' ∧ readHeaderRx crc h' r = .wait h := by
  rcases receiveStep_cases P crc stale cbs s r with ⟨site, hnext, he⟩ | ⟨hs, a, -, -, he⟩ |
    ⟨c, p, a, -, -, he⟩ | ⟨f, hs, a, -, -, he⟩ | ⟨f, c, p, a, -, -, he⟩ <;> rw [he] at ht
  · right
    cases ht
    generalize s.site = site' at hnext
    cases hnext with
    | header hr | fileHeader f hr =>
      cases hh
      exact ⟨_, rfl, hr⟩
    | fileInfo hr | data f hr => cases hh
  · exact .inl (onHeader_fresh crc s.userData a t h ht hh)
  · exact .inl (onFileInfo_fresh P crc stale cbs s.userData a t h ht hh)
  · exact .inl (onFileHeader_fresh crc cbs f s.userData a t h ht hh)
  · exact .inl (onData_fresh P cbs f c s.userData a t h ht hh)

theorem header_trail (userData : υ) (bytes : List Byte) {s : RxState υ} {h : HeaderSite}
    (hs : (feed (receiveStep P crc stale cbs) (zmodemReceive crc userData).next bytes).next = .wait s)
    (hh : s.site.headerSite = some h) :
    ∃ pre mid, bytes = pre ++ mid ∧
      parse (readHeaderRx crc) (.wait .pad) mid = (.wait h, []) := by
  induction bytes using List.reverseRecOn generalizing s h with
  | nil =>
    cases hs
    cases hh
    exact ⟨[], [], rfl, rfl⟩
  | append_singleton bytes b ih =>
    rw [feed_append, Out.after_next] at hs
    cases hprev : (feed (receiveStep P crc stale cbs) (zmodemReceive crc userData).next bytes).next with
    | done st =>
      rw [hprev, feed_done] at hs
      cases hs
    | wait t =>
      rw [hprev, feed_cons, feed_nil] at hs
      rcases headerSite_step P crc stale cbs hs hh with rfl | ⟨h', hh', hr⟩
      · exact ⟨bytes ++ [b], [], (List.append_nil _).symm, rfl⟩
      · obtain ⟨pre, mid, rfl, hmid⟩ := ih hprev hh'
        refine ⟨pre, mid ++ [b], List.append_assoc .., ?_⟩
        rw [parse_append_of_wait hmid, parse_cons, hr, parse_nil]

/-- The bytes contain a ZFIN header. -/
def HoldsZfin (bytes : List Byte) : Prop := ∃ hd, hd.type = zfin ∧ HoldsHeader crc true hd bytes

theorem holdsZfin_of_ok (userData : υ) {bytes : List Byte} {k : ℕ}
    (h : (run (receiveStep P crc stale cbs) (zmodemReceive crc userData).next
      (bytes.map .ok ++ List.replicate k .timeout)).next = .done .ok) :
    HoldsZfin crc bytes := by
  rcases done_cases h with hstart | ⟨bs, b, post, s, rfl, hbs, hlast⟩ | ⟨s, hlast⟩
  · cases hstart
  · obtain ⟨h, hd, hsite, hr, htype⟩ := done_ok_site P crc stale cbs hlast
    have hh : s.site.headerSite = some h := by
      rcases hsite with hsite | ⟨f, hsite⟩ <;> rw [hsite] <;> rfl
    obtain ⟨pre, mid, rfl, hmid⟩ := header_trail P crc stale cbs userData bs hbs hh
    have hcall : call (readHeaderRx crc) .pad (mid ++ [b]) = (.done (some hd), []) := by
      apply call_of_done
      rw [parse_append_of_wait hmid, parse_cons, hr, parse_done]
    obtain ⟨noise, pads, frame, hpads, hframe, hbytes⟩ := call_some crc true hcall
    refine ⟨hd, htype, pre ++ noise, pads, frame, post, hpads, hframe, ?_⟩
    rw [List.append_nil] at hbytes
    have hsplit : pre ++ mid ++ b :: post = pre ++ (mid ++ [b]) ++ post := by simp
    rw [hsplit, hbytes, List.append_assoc pre noise]
  · obtain ⟨h, hd, -, hr, -⟩ := done_ok_site P crc stale cbs hlast
    rw [readHeaderRx, readHeader_timeout] at hr
    cases hr

end DeadLine

end ZephyrModem.Zmodem
