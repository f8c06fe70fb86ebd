import Mathlib.Logic.Function.Basic
import ZephyrModem.Transport.NfcCalls

/-!
# Two NFC adapters facing each other

What one adapter publishes comes in at the other. Each direction of the link is a relay:
the transmit ring, the records on the air, the receive ring.
-/

namespace ZephyrModem.Transport

open Memory

/-- The adapters, the records on their way to each side, what the accepted writes of each
side brought, what its reads returned, the bytes written that found its ring full, and
those that its flushes took without making a record. -/
structure NfcLink where
  node : Bool → Nfc
  air : Bool → List (List UInt8)
  written : Bool → List UInt8
  read : Bool → List UInt8
  dropped : Bool → List UInt8
  taken : Bool → List UInt8

namespace NfcLink

open Nfc Function

/-- Both adapters initialised, the field there, nothing on the air. -/
structure Ready (l : NfcLink) : Prop where
  node : ∀ b, ∃ config, Nfc.Ready config (l.node b)
  air : ∀ b, l.air b = []
  written : ∀ b, l.written b = []
  read : ∀ b, l.read b = []
  dropped : ∀ b, l.dropped b = []
  taken : ∀ b, l.taken b = []

/-- The bytes that left the transmit ring in a flush, if it stored no record. -/
def takenBy (s : Nfc) (record : Option (List UInt8)) (s' : Nfc) : List UInt8 :=
  if record = none then s.tx.contents.take (s.tx.contents.length - s'.tx.contents.length) else []

section Calls

variable (P : Platform)

def write (l : NfcLink) (b : Bool) (buf : Option (List UInt8)) : NfcLink :=
  let result := writeBytes P (l.node b) buf
  { l with
    node := update l.node b result.2.2
    air := update l.air (!b) (l.air (!b) ++ result.2.1.toList)
    written := update l.written b (l.written b ++ if result.1 = 0 then buf.getD [] else [])
    dropped := update l.dropped b (l.dropped b ++
      if result.1 = 0 then (buf.getD []).drop (nfcRingBufSize - (l.node b).tx.contents.length)
      else []) }

/-- The record that a flush stores goes on the air. -/
def flush (l : NfcLink) (b outBuf : Bool) (outCapacity : ℕ) (outLen : Bool) : NfcLink :=
  let result := (l.node b).flushTxNdef outBuf outCapacity outLen
  { l with
    node := update l.node b result.2.2
    air := update l.air (!b) (l.air (!b) ++ result.2.1.toList)
    taken := update l.taken b (l.taken b ++ takenBy (l.node b) result.2.1 result.2.2) }

/-- A read, with the records that are left on the air after it. -/
def readByte (l : NfcLink) (b byte : Bool) (timeoutMs : UInt32) (start : ℤ) (rounds : List Round)
    (air : List (List UInt8)) : NfcLink :=
  let result := Nfc.readByte P (l.node b) byte timeoutMs start rounds
  { l with
    node := update l.node b result.2
    air := update l.air b air
    read := update l.read b (l.read b ++ (result.1.bind Prod.snd).toList) }

end Calls

/-- Any call on either side. Records come in one at a time and in order, also while a read
waits. The buffer of a flush has at least `cap` bytes. -/
inductive Step (P : Platform) (cap : ℕ) : NfcLink → NfcLink → Prop where
  | write (l : NfcLink) (b : Bool) (buf : Option (List UInt8)) : Step P cap l (l.write P b buf)
  | flush (l : NfcLink) (b outBuf : Bool) {outCapacity : ℕ} (outLen : Bool) (h : cap ≤ outCapacity) :
    Step P cap l (l.flush b outBuf outCapacity outLen)
  | deliver (l : NfcLink) (b : Bool) {record : List UInt8} {air : List (List UInt8)} {s : Nfc}
    (hair : l.air b = record :: air) (h : Receives P record (l.node b) s) :
    Step P cap l { l with node := update l.node b s, air := update l.air b air }
  | readByte (l : NfcLink) (b byte : Bool) (timeoutMs : UInt32) (start : ℤ) (rounds : List Round)
    {came air : List (List UInt8)} (hair : l.air b = came ++ air)
    (h : heard P (l.node b) byte timeoutMs start rounds = came.map some) :
    Step P cap l (l.readByte P b byte timeoutMs start rounds air)
  | field (l : NfcLink) (b : Bool) {s : Nfc} (h : FieldChange P (l.node b) s) :
    Step P cap l { l with node := update l.node b s }

abbrev Run (P : Platform) (cap : ℕ) : NfcLink → NfcLink → Prop :=
  Relation.ReflTransGen (Step P cap)

/-! ### One direction as a relay -/

/-- The relay that one direction of the link is, and what the statistics say about it. -/
structure Tracks (P : Platform) (cap : ℕ) (src dst : Nfc) (air : List (List UInt8))
    (written read dropped taken : List UInt8) (r : Relay UInt8) : Prop where
  out : src.tx.contents = r.out
  air : air = r.air.map ndefRecord
  sizes : ∀ payload ∈ r.air, 1 ≤ payload.length ∧ payload.length ≤ 255
  inn : dst.rx.contents = r.inn
  written : written = r.written
  read : read = r.read
  sent : ∃ n, Sent P n src ∧ r.written.length = n + r.dropped
  counted : Counted P (r.read.length + r.inn.length) r.overflowed dst
  dropped : dropped.length = r.dropped
  taken : taken.length = r.spilled
  spilled : 3 + nfcMimeTypeLen + tempPayloadSize ≤ cap → r.spilled = 0

namespace Tracks

variable {P : Platform} {cap : ℕ} {src src' dst dst' : Nfc} {air : List (List UInt8)}
  {written read dropped taken : List UInt8} {r : Relay UInt8}

theorem same (h : Tracks P cap src dst air written read dropped taken r) (htx : SameTx src src')
    (hrx : SameRx dst dst') : Tracks P cap src' dst' air written read dropped taken r where
  out := by rw [htx.tx, h.out]
  air := h.air
  sizes := h.sizes
  inn := by rw [hrx.rx, h.inn]
  written := h.written
  read := h.read
  sent := by
    obtain ⟨n, hsent, hlen⟩ := h.sent
    exact ⟨n, htx.txBytes.trans hsent, hlen⟩
  counted := ⟨hrx.rxBytes.trans h.counted.rxBytes, hrx.overflowCount.trans h.counted.overflowCount⟩
  dropped := h.dropped
  taken := h.taken
  spilled := h.spilled

theorem flush (h : Tracks P cap src dst air written read dropped taken r) {outCapacity : ℕ}
    (hcap : outCapacity < 3 + nfcMimeTypeLen + tempPayloadSize →
      cap < 3 + nfcMimeTypeLen + tempPayloadSize)
    {code : ℤ} {record : Option (List UInt8)} (hflush : Flushes src outCapacity code record src') :
    ∃ r', Relay.Run nfcRingBufSize nfcRingBufSize r r' ∧
      Tracks P cap src' dst (air ++ record.toList) written read dropped
        (taken ++ takenBy src record src') r' := by
  cases hflush with
  | early =>
    refine ⟨r, .refl, ?_⟩
    rw [Option.toList_none, List.append_nil, takenBy, if_pos rfl, Nat.sub_self, List.take_zero,
      List.append_nil]
    exact h
  | spilled hsmall hrx htxBytes htx =>
    have hstep : Relay.Step nfcRingBufSize nfcRingBufSize r _ := .spill r tempPayloadSize
    refine ⟨_, .single hstep, ?_⟩
    rw [Option.toList_none, List.append_nil]
    exact
      { h with
        out := by rw [htx, h.out]
        sent := by
          obtain ⟨n, hsent, hlen⟩ := h.sent
          exact ⟨n, htxBytes.trans hsent, hlen⟩
        taken := by
          rw [takenBy, if_pos rfl, htx, h.out, List.length_append, h.taken]
          simp only [List.length_take, List.length_drop]
          omega
        spilled := fun hroom => absurd (hcap hsmall) (Nat.not_lt.mpr hroom) }
  | published hne hrx htxBytes htx =>
    have hstep : Relay.Step nfcRingBufSize nfcRingBufSize r _ := .send r tempPayloadSize
    refine ⟨_, .single hstep, ?_⟩
    rw [h.out] at hne
    rw [h.out, Option.toList_some]
    exact
      { h with
        out := by rw [htx, h.out]
        air := by rw [h.air, List.map_append, List.map_singleton]
        sizes := by
          intro payload hmem
          rw [List.mem_append, List.mem_singleton] at hmem
          rcases hmem with hmem | rfl
          · exact h.sizes payload hmem
          · have hpos := List.length_pos_iff.mpr hne
            rw [List.length_take, tempPayloadSize]
            omega
        taken := by
          rw [takenBy, if_neg (Option.some_ne_none _), List.append_nil]
          exact h.taken
        sent := by
          obtain ⟨n, hsent, hlen⟩ := h.sent
          exact ⟨n, htxBytes.trans hsent, hlen⟩ }

theorem queue (h : Tracks P cap src dst air written read dropped taken r) {bs : List UInt8}
    (hqueues : Queues P bs src src') :
    ∃ r', Relay.Run nfcRingBufSize nfcRingBufSize r r' ∧
      Tracks P cap src' dst air (written ++ bs) read
        (dropped ++ bs.drop (nfcRingBufSize - src.tx.contents.length)) taken r' := by
  have hstep : Relay.Step nfcRingBufSize nfcRingBufSize r _ := .write r bs
  refine ⟨_, .single hstep, ?_⟩
  exact
    { h with
      out := by rw [hqueues.contents, h.out]
      written := by rw [h.written]
      sent := by
        obtain ⟨n, hsent, hlen⟩ := h.sent
        refine ⟨_, hqueues.sent n hsent, ?_⟩
        have hcut := congrArg List.length
          (List.take_append_drop (nfcRingBufSize - r.out.length) bs)
        rw [h.out]
        simp only [List.length_append] at hcut ⊢
        omega
      dropped := by rw [List.length_append, h.dropped, h.out] }

/-- The flush behind a write has a buffer for every record. -/
theorem takenBy_write (s : Nfc) {code : ℤ} {record : Option (List UInt8)} {s' : Nfc}
    (h : Flushes s nfcTransportNdefMaxSize code record s') : takenBy s record s' = [] := by
  cases h with
  | early => rw [takenBy, if_pos rfl, Nat.sub_self, List.take_zero]
  | spilled hsmall => exact absurd hsmall (by decide)
  | published => exact if_neg (Option.some_ne_none _)

theorem write (h : Tracks P cap src dst air written read dropped taken r) {code : ℤ} {bs : List UInt8}
    {record : Option (List UInt8)} (hwrites : Writes P src code bs record src') :
    ∃ r', Relay.Run nfcRingBufSize nfcRingBufSize r r' ∧
      Tracks P cap src' dst (air ++ record.toList) (written ++ if code = 0 then bs else []) read
        (dropped ++ if code = 0 then bs.drop (nfcRingBufSize - src.tx.contents.length) else [])
        taken r' := by
  cases hwrites with
  | refused _ hcode =>
    refine ⟨r, .refl, ?_⟩
    rw [if_neg hcode, if_neg hcode, List.append_nil, List.append_nil, Option.toList_none,
      List.append_nil]
    exact h
  | queued hqueues =>
    rw [if_pos rfl, if_pos rfl, Option.toList_none, List.append_nil]
    exact h.queue hqueues
  | flushed hqueues hflush =>
    obtain ⟨r', hrun, h'⟩ := h.queue hqueues
    obtain ⟨r'', hrun', h''⟩ := h'.flush (fun hsmall => absurd hsmall (by decide)) hflush
    rw [takenBy_write _ hflush, List.append_nil] at h''
    rw [if_pos rfl, if_pos rfl]
    exact ⟨r'', hrun.trans hrun', h''⟩

/-- Records that come in, singly or during a read. -/
theorem acts (h : Tracks P cap src dst air written read dropped taken r) {acts : List (Fifo.Act UInt8)}
    (hdoes : Does (P := P) acts dst dst') {came rest : List (List UInt8)}
    (hair : air = came ++ rest)
    (hpackets : Relay.packets acts = (came.map some).map rxPayload) :
    ∃ r', Relay.Run nfcRingBufSize nfcRingBufSize r r' ∧
      Tracks P cap src dst' rest written (read ++ Fifo.polled acts) dropped taken r' := by
  obtain ⟨payloads, payloads', hcut, hcame, hrest⟩ := List.append_eq_map_iff.mp
    (hair.symm.trans h.air)
  have hknown : Relay.packets acts = payloads := by
    rw [hpackets, ← hcame, List.map_map, List.map_map]
    refine (List.map_congr_left fun payload hmem => ?_).trans (List.map_id _)
    have hsize := h.sizes payload (by rw [hcut]; exact List.mem_append_left _ hmem)
    show (ndefPayload (ndefRecord payload)).getD (ndefRecord payload) = payload
    rw [ndefPayload_ndefRecord hsize.1 hsize.2]
    rfl
  have hrun := hdoes.run
  rw [h.inn] at hrun
  have hfront : r.air = Relay.packets acts ++ payloads' := by rw [hcut, hknown]
  refine ⟨_, Relay.run_acts hrun r rfl hfront, ?_⟩
  exact
    { h with
      air := hrest.symm
      sizes := fun payload hmem => h.sizes payload (by rw [hcut]; exact List.mem_append_right _ hmem)
      inn := rfl
      read := by rw [h.read]
      counted := by
        have hcounted := hdoes.counted _ _ h.counted
        have hconserved := congrArg List.length hrun.conserved
        rw [h.inn] at hcounted
        simp only [List.length_append] at hconserved ⊢
        have hlen : r.read.length + (Fifo.polled acts).length + dst'.rx.contents.length =
            r.read.length + r.inn.length +
              (Fifo.enqueued nfcRingBufSize r.inn acts).length := by omega
        rw [hlen]
        exact hcounted }

end Tracks

variable {P : Platform} {cap : ℕ} {l l' : NfcLink}

/-- The direction towards side `b` is the relay `r`. -/
def Toward (P : Platform) (cap : ℕ) (l : NfcLink) (b : Bool) (r : Relay UInt8) : Prop :=
  Tracks P cap (l.node (!b)) (l.node b) (l.air b) (l.written (!b)) (l.read b) (l.dropped (!b))
    (l.taken (!b)) r

theorem eq_or_eq_not (b d : Bool) : d = b ∨ d = !b := by cases b <;> cases d <;> simp

theorem ne_not (b : Bool) : b ≠ !b := by cases b <;> decide

theorem not_ne (b : Bool) : (!b) ≠ b := (ne_not b).symm

/-- Every step of the link is a run of the relay in each direction. -/
theorem Step.toward (h : Step P cap l l') {d : Bool} {r : Relay UInt8} (hr : Toward P cap l d r) :
    ∃ r', Relay.Run nfcRingBufSize nfcRingBufSize r r' ∧ Toward P cap l' d r' := by
  cases h with
  | write b buf =>
    have hwrites := writes_writeBytes (P := P) (l.node b) buf
    rcases eq_or_eq_not b d with rfl | rfl
    · simp only [Toward, NfcLink.write, update_self, update_of_ne (ne_not d), update_of_ne (not_ne d)]
        at hr ⊢
      exact ⟨r, .refl, hr.same (.refl _) hwrites.sameRx⟩
    · simp only [Toward, NfcLink.write, Bool.not_not, update_self, update_of_ne (not_ne b)] at hr ⊢
      exact hr.write hwrites
  | @flush b outBuf outCapacity outLen hcap =>
    have hflushes := flushes_flushTxNdef (l.node b) outBuf outCapacity outLen
    rcases eq_or_eq_not b d with rfl | rfl
    · simp only [Toward, NfcLink.flush, update_self, update_of_ne (ne_not d), update_of_ne (not_ne d)]
        at hr ⊢
      exact ⟨r, .refl, hr.same (.refl _) hflushes.sameRx⟩
    · simp only [Toward, NfcLink.flush, Bool.not_not, update_self, update_of_ne (not_ne b)] at hr ⊢
      exact hr.flush (fun hsmall => Nat.lt_of_le_of_lt hcap hsmall) hflushes
  | @deliver b record air s hair h =>
    rcases eq_or_eq_not b d with rfl | rfl
    · simp only [Toward, update_self, update_of_ne (not_ne d)] at hr ⊢
      have hfront : l.air d = [record] ++ air := hair
      obtain ⟨r', hrun, hr'⟩ := hr.acts h.does hfront rfl
      rw [Fifo.polled, Fifo.polled, List.append_nil] at hr'
      exact ⟨r', hrun, hr'⟩
    · simp only [Toward, Bool.not_not, update_self, update_of_ne (not_ne b)] at hr ⊢
      exact ⟨r, .refl, hr.same h.sameTx (.refl _)⟩
  | readByte b byte timeoutMs start rounds hair h =>
    rcases eq_or_eq_not b d with rfl | rfl
    · obtain ⟨acts, hdoes, hpackets, hpolled⟩ := does_readByte (P := P) (l.node d) byte timeoutMs start
        rounds
      rw [h] at hpackets
      simp only [Toward, NfcLink.readByte, update_self, update_of_ne (not_ne d)] at hr ⊢
      rw [← hpolled]
      exact hr.acts hdoes hair hpackets
    · have htx := sameTx_readByte (P := P) (l.node b) byte timeoutMs start rounds
      simp only [Toward, NfcLink.readByte, Bool.not_not, update_self, update_of_ne (not_ne b)] at hr ⊢
      exact ⟨r, .refl, hr.same htx (.refl _)⟩
  | field b h =>
    obtain ⟨htx, hrx⟩ := h.same
    rcases eq_or_eq_not b d with rfl | rfl
    · simp only [Toward, update_self, update_of_ne (not_ne d)] at hr ⊢
      exact ⟨r, .refl, hr.same (.refl _) hrx⟩
    · simp only [Toward, Bool.not_not, update_self, update_of_ne (not_ne b)] at hr ⊢
      exact ⟨r, .refl, hr.same htx (.refl _)⟩

theorem Run.toward (h : Run P cap l l') {d : Bool} {r : Relay UInt8} (hr : Toward P cap l d r) :
    ∃ r', Relay.Run nfcRingBufSize nfcRingBufSize r r' ∧ Toward P cap l' d r' := by
  induction h with
  | refl => exact ⟨r, .refl, hr⟩
  | tail _ hstep ih =>
    obtain ⟨r', hrun, hr'⟩ := ih
    obtain ⟨r'', hrun', hr''⟩ := hstep.toward hr'
    exact ⟨r'', hrun.trans hrun', hr''⟩

theorem Ready.toward (h : Ready l) (d : Bool) : Toward P cap l d .empty := by
  obtain ⟨config, hsrc⟩ := h.node (!d)
  obtain ⟨config', hdst⟩ := h.node d
  exact
    { out := hsrc.contents_tx
      air := h.air d
      sizes := fun payload hmem => nomatch hmem
      inn := hdst.contents_rx
      written := h.written (!d)
      read := h.read d
      sent := ⟨0, sent_ready hsrc, rfl⟩
      counted := counted_ready hdst
      dropped := congrArg List.length (h.dropped (!d))
      taken := congrArg List.length (h.taken (!d))
      spilled := fun _ => rfl }

/-! ### What a run keeps -/

/-- What side `b` has read and what is on the way to it, the oldest first. -/
def held (l : NfcLink) (b : Bool) : List UInt8 :=
  l.read b ++ ((l.node b).rx.contents ++ ((l.air b).flatMap recordPayload ++
    (l.node (!b)).tx.contents))

theorem Toward.held_eq {d : Bool} {r : Relay UInt8} (h : Toward P cap l d r) :
    l.held d = r.held := by
  have hair : (l.air d).flatMap recordPayload = r.air.flatten := by
    rw [h.air, List.flatMap_map, List.flatMap_def]
    refine congrArg List.flatten ((List.map_congr_left fun payload hmem => ?_).trans (List.map_id _))
    exact recordPayload_ndefRecord (h.sizes payload hmem).2
  rw [held, Relay.held, h.out, h.inn, h.read, hair]

theorem Run.relay (hrun : Run P cap l l') (hready : Ready l) (b : Bool) :
    ∃ r, r.Accounted ∧ Toward P cap l' b r := by
  have hstart : Toward P cap l b .empty := hready.toward b
  obtain ⟨r, hrelay, hr⟩ := hrun.toward hstart
  exact ⟨r, Relay.accounted_empty.run hrelay, hr⟩

/-- In any run and each direction, the bytes read and those on the way are the bytes written
with some of them missing: those that found the transmit ring full, which the sender does
not count as sent, those that flushes took, none with large buffers, and those that the
receiver counts as overflow. -/
theorem link_accounts (P : Platform) (cap : ℕ) {l l' : NfcLink} (hready : Ready l)
    (hrun : Run P cap l l') (b : Bool) :
    ∃ overflowed : ℕ, (l'.held b).Sublist (l'.written (!b)) ∧
      (l'.written (!b)).length = (l'.held b).length + (l'.dropped (!b)).length +
        (l'.taken (!b)).length + overflowed ∧
      (l'.node (!b)).stats.txBytes =
        P.toSize ((l'.written (!b)).length - (l'.dropped (!b)).length) ∧
      (l'.node b).stats.rxBytes = P.toSize ((l'.read b).length + (l'.node b).rx.count) ∧
      (l'.node b).stats.overflowCount = UInt32.ofNat overflowed ∧
      (3 + nfcMimeTypeLen + tempPayloadSize ≤ cap → l'.taken (!b) = []) := by
  obtain ⟨r, haccounted, hr⟩ := hrun.relay hready b
  obtain ⟨n, hsent, hlen⟩ := hr.sent
  refine ⟨r.overflowed, ?_, ?_, ?_, ?_, hr.counted.overflowCount, ?_⟩
  · rw [hr.held_eq, hr.written]
    exact haccounted.sublist
  · rw [hr.held_eq, hr.written, hr.dropped, hr.taken]
    exact haccounted.length
  · rw [hr.written, hr.dropped, hlen, Nat.add_sub_cancel]
    exact hsent
  · rw [hr.read, ← Ring.length_contents, hr.inn]
    exact hr.counted.rxBytes
  · intro hroom
    exact List.length_eq_zero_iff.mp (hr.taken.trans (hr.spilled hroom))

/-- Two adapters that publish what is flushed. -/
def facing : NfcLink where
  node _ := (boot.init none).2.start.2
  air _ := []
  written _ := []
  read _ := []
  dropped _ := []
  taken _ := []

theorem ready_facing : Ready facing where
  node _ := ⟨_, .started boot⟩
  air _ := rfl
  written _ := rfl
  read _ := rfl
  dropped _ := rfl
  taken _ := rfl

/-- Three bytes are written and flushed into a buffer of 24 bytes. -/
def spilling (l : NfcLink) : NfcLink :=
  (l.write platform32 false (some [1, 2, 3])).flush false true 24 true

/-- Two bytes are written and flushed. -/
def sending (l : NfcLink) : NfcLink :=
  (l.write platform32 false (some [4, 5])).flush false true 277 true

/-- They come in on the other side, where one of them is read. -/
def receiving (l : NfcLink) : NfcLink :=
  ({ l with
    node := update l.node true (rxCallback platform32 (l.node true) (some (ndefRecord [4, 5])))
    air := update l.air true [] }).readByte platform32 true true 5 0 [⟨0, []⟩] []

theorem run_receiving {cap : ℕ} (hcap : cap ≤ 277) {l : NfcLink}
    (hair : (sending l).air true = [ndefRecord [4, 5]])
    (hheard : heard platform32
      (rxCallback platform32 ((sending l).node true) (some (ndefRecord [4, 5]))) true 5 0 [⟨0, []⟩] =
        []) : Run platform32 cap l (receiving (sending l)) := by
  have hwrite : Step platform32 cap l _ := .write l false (some [4, 5])
  have hflush : Step platform32 cap (l.write platform32 false (some [4, 5])) (sending l) :=
    .flush _ false true true hcap
  have hdeliver : Step platform32 cap (sending l) _ := .deliver (sending l) true hair (.callback _)
  refine (((Relation.ReflTransGen.single hwrite).tail hflush).tail hdeliver).tail ?_
  exact .readByte _ true true 5 0 [⟨0, []⟩] (List.nil_append []).symm hheard

/-- The flush into the small buffer fails and takes its bytes; the next record comes in. -/
theorem link_accounts_lost_record :
    (receiving (sending (spilling facing))).read true = [4] ∧
    (receiving (sending (spilling facing))).held true = [4, 5] ∧
    (receiving (sending (spilling facing))).written false = [1, 2, 3, 4, 5] ∧
    (receiving (sending (spilling facing))).taken false = [1, 2, 3] ∧
    ((receiving (sending (spilling facing))).held true).Sublist
      ((receiving (sending (spilling facing))).written false) ∧
    ((receiving (sending (spilling facing))).node false).stats.txBytes = 5 ∧
    ((receiving (sending (spilling facing))).node true).stats.rxBytes = 2 ∧
    ((receiving (sending (spilling facing))).node true).stats.overflowCount = 0 := by
  have hwrite : Step platform32 24 facing _ := .write facing false (some [1, 2, 3])
  have hflush : Step platform32 24 (facing.write platform32 false (some [1, 2, 3])) (spilling facing) :=
    .flush _ false true true (Nat.le_refl 24)
  have hrun := ((Relation.ReflTransGen.single hwrite).tail hflush).trans
    (run_receiving (l := spilling facing) (by decide) (by decide) (by decide))
  obtain ⟨overflowed, hsublist, hlen, htx, hrx, hcount, -⟩ :=
    link_accounts platform32 24 ready_facing hrun true
  have hheld : (receiving (sending (spilling facing))).held true = [4, 5] := by decide
  have htaken : (receiving (sending (spilling facing))).taken false = [1, 2, 3] := by decide
  have hwritten : (receiving (sending (spilling facing))).written false = [1, 2, 3, 4, 5] := by decide
  refine ⟨by decide, hheld, hwritten, htaken, hsublist, htx.trans (by decide), hrx.trans (by decide),
    ?_⟩
  -- the three bytes of the failed flush are all that is missing
  have hnone : overflowed = 0 := by
    rw [Bool.not_true, hheld, htaken, hwritten] at hlen
    simp only [List.length_cons, List.length_nil] at hlen
    omega
  rw [hcount, hnone]
  rfl

/-- The statistics of the two adapters tell whether every byte written has been read or is
on the way, as long as they do not wrap. -/
theorem link_lossless_iff (P : Platform) {cap : ℕ} {l l' : NfcLink} (hready : Ready l)
    (hrun : Run P cap l l') (b : Bool) (hcap : 3 + nfcMimeTypeLen + tempPayloadSize ≤ cap)
    (hsize : (l'.written (!b)).length < P.sizeMod) (hwrap : (l'.written (!b)).length < 2 ^ 32) :
    l'.held b = l'.written (!b) ↔
      (l'.node (!b)).stats.txBytes = (l'.written (!b)).length ∧
        (l'.node b).stats.overflowCount = 0 := by
  obtain ⟨r, haccounted, hr⟩ := hrun.relay hready b
  obtain ⟨n, hsent, hlen⟩ := hr.sent
  have htotal := haccounted.length
  have hspilled := hr.spilled hcap
  rw [hr.written] at hsize hwrap
  have htx : (l'.node (!b)).stats.txBytes = n := by
    rw [hsent]
    exact P.toSize_of_lt (by omega)
  have hoverflow : (l'.node b).stats.overflowCount = 0 ↔ r.overflowed = 0 := by
    rw [hr.counted.overflowCount, ← UInt32.toNat_inj, UInt32.toNat_ofNat',
      Nat.mod_eq_of_lt (by omega)]
    rfl
  rw [hr.held_eq, hr.written, haccounted.held_eq_iff, htx, hoverflow]
  omega

/-- A record is sent, delivered and read without a loss; of 1030 bytes written then, the
ring has no room for six. -/
theorem link_lossless_exchange :
    (receiving (sending facing)).held true = [4, 5] ∧
    ((receiving (sending facing)).write platform32 false (some (List.replicate 1030 6))).held true ≠
      ((receiving (sending facing)).write platform32 false
        (some (List.replicate 1030 6))).written false := by
  have hrun : Run platform32 277 facing (receiving (sending facing)) :=
    run_receiving (Nat.le_refl 277) (by decide) (by decide)
  have hstep : Step platform32 277 (receiving (sending facing)) _ :=
    .write _ false (some (List.replicate 1030 6))
  have hcode : (writeBytes platform32 ((receiving (sending facing)).node false)
      (some (List.replicate 1030 6))).1 = 0 :=
    writeBytes_accepted (List.cons_ne_nil _ _) (by decide)
  have htwo : Sent platform32 2 ((receiving (sending facing)).node false) := by
    unfold Sent
    decide
  have hsent := (writes_writeBytes (P := platform32) ((receiving (sending facing)).node false)
    (some (List.replicate 1030 6))).sent hcode htwo
  have hempty : ((receiving (sending facing)).node false).tx.contents = [] := by decide
  have hwritten : ((receiving (sending facing)).write platform32 false
      (some (List.replicate 1030 6))).written false = [4, 5] ++ List.replicate 1030 6 := by
    simp only [NfcLink.write, update_self, hcode, if_true, Option.getD_some]
    rfl
  refine ⟨?_, ?_⟩
  · exact (link_lossless_iff platform32 ready_facing hrun true (by decide) (by decide)
      (by decide)).mpr ⟨by decide, by decide⟩
  · intro hheld
    have hlen : (((receiving (sending facing)).write platform32 false
        (some (List.replicate 1030 6))).written (!true)).length = 1032 := by
      rw [Bool.not_true, hwritten, List.length_append, List.length_replicate]
      rfl
    obtain ⟨hcounted, -⟩ := (link_lossless_iff platform32 ready_facing (hrun.tail hstep) true
      (by decide) (by rw [hlen]; decide) (by rw [hlen]; decide)).mp hheld
    rw [hlen] at hcounted
    rw [hempty, Option.getD_some, List.length_take, List.length_replicate] at hsent
    have hstats : ((receiving (sending facing)).write platform32 false
        (some (List.replicate 1030 6))).node false = (writeBytes platform32
          ((receiving (sending facing)).node false) (some (List.replicate 1030 6))).2.2 := by
      simp only [NfcLink.write, update_self]
    rw [Bool.not_true, hstats, hsent] at hcounted
    exact absurd hcounted (by decide)

end NfcLink

end ZephyrModem.Transport
