import Mathlib.Data.Int.Notation
import Mathlib.Data.List.Basic
import Mathlib.Data.List.Nodup
import Mathlib.Tactic.Ring

/-!
# The session dispatcher

`src/session_dispatcher.c`: four sessions, each of them created and closed any number of
times. The functions are named without their prefix `session_dispatcher_`.
-/

namespace ZephyrModem.Transport

inductive ChannelType where
  | uart
  | usbCdcAcm
  | bleNus
  | socket
  | nfc
  deriving Repr, DecidableEq

structure Session where
  sessionId : ℤ
  channelType : ChannelType
  active : Bool
  bytesTransferred : ℕ
  deriving Repr, DecidableEq

def maxDispatchSessions : ℕ := 4

/-- The loop of `session_dispatcher_create`: the first session that is not active. -/
def createIn (type : ChannelType) : List Session → ℤ × List Session
  | [] => (-1, [])
  | s :: rest =>
    if s.active = false then
      (s.sessionId, { s with active := true, channelType := type, bytesTransferred := 0 } :: rest)
    else ((createIn type rest).1, s :: (createIn type rest).2)

theorem ids_createIn (type : ChannelType) (l : List Session) :
    (createIn type l).2.map Session.sessionId = l.map Session.sessionId := by
  induction l with
  | nil => rfl
  | cons s rest ih =>
    unfold createIn
    split
    · rfl
    · rw [List.map_cons, ih, List.map_cons]

def closeAt (l : List Session) (i : ℕ) (h : i < l.length) : List Session :=
  l.set i { l[i] with active := false }

theorem ids_closeAt (l : List Session) (i : ℕ) (h : i < l.length) :
    (closeAt l i h).map Session.sessionId = l.map Session.sessionId := by
  have hi : i < (l.map Session.sessionId).length := by rwa [List.length_map]
  have hid : (l.map Session.sessionId)[i] = l[i].sessionId := List.getElem_map _
  rw [closeAt, List.map_set]
  show (l.map Session.sessionId).set i l[i].sessionId = _
  rw [← hid]
  exact List.set_getElem_self hi

/-- The sessions, in the order of their ids. -/
structure Dispatcher where
  sessions : List Session
  ids : sessions.map Session.sessionId = [0, 1, 2, 3]

namespace Dispatcher

theorem length_sessions (d : Dispatcher) : d.sessions.length = maxDispatchSessions := by
  rw [← List.length_map (f := Session.sessionId), d.ids]
  rfl

def init : Dispatcher where
  sessions := [⟨0, .uart, false, 0⟩, ⟨1, .uart, false, 0⟩, ⟨2, .uart, false, 0⟩,
    ⟨3, .uart, false, 0⟩]
  ids := rfl

def create (d : Dispatcher) (type : ChannelType) : ℤ × Dispatcher :=
  ((createIn type d.sessions).1,
    ⟨(createIn type d.sessions).2, (ids_createIn type d.sessions).trans d.ids⟩)

theorem index_lt (d : Dispatcher) {id : ℤ} (h : ¬ (id < 0 ∨ id ≥ maxDispatchSessions)) :
    id.toNat < d.sessions.length := by
  rw [d.length_sessions]
  omega

def close (d : Dispatcher) (id : ℤ) : ℤ × Dispatcher :=
  if h : id < 0 ∨ id ≥ maxDispatchSessions then (-1, d)
  else (0, ⟨closeAt d.sessions id.toNat (d.index_lt h), (ids_closeAt _ _ _).trans d.ids⟩)

def getActiveCount (d : Dispatcher) : ℕ := d.sessions.countP Session.active

/-- The ids of the sessions that are active. -/
def liveIds (d : Dispatcher) : List ℤ := (d.sessions.filter Session.active).map Session.sessionId

/-! ### Single calls -/

theorem liveIds_sublist (d : Dispatcher) : d.liveIds.Sublist [0, 1, 2, 3] := by
  rw [← d.ids]
  exact List.filter_sublist.map Session.sessionId

theorem liveIds_nodup (d : Dispatcher) : d.liveIds.Nodup :=
  d.liveIds_sublist.nodup (by decide)

theorem liveIds_range (d : Dispatcher) {id : ℤ} (h : id ∈ d.liveIds) :
    0 ≤ id ∧ id < maxDispatchSessions := by
  have hmem := d.liveIds_sublist.subset h
  revert hmem
  unfold maxDispatchSessions
  simp only [List.mem_cons, List.not_mem_nil, or_false]
  omega

theorem createIn_spec (type : ChannelType) (l : List Session) (hids : ∀ s ∈ l, 0 ≤ s.sessionId) :
    if l.countP Session.active = l.length then createIn type l = (-1, l)
    else 0 ≤ (createIn type l).1 ∧
      (createIn type l).2.countP Session.active = l.countP Session.active + 1 := by
  induction l with
  | nil => rfl
  | cons s rest ih =>
    have hrest := ih (fun t ht => hids t (List.mem_cons_of_mem s ht))
    have hle := List.countP_le_length (p := Session.active) (l := rest)
    cases hactive : s.active with
    | false =>
      have hcount : (s :: rest).countP Session.active = rest.countP Session.active := by
        rw [List.countP_cons_of_neg]
        rw [hactive]
        decide
      rw [hcount, List.length_cons, if_neg (by omega), createIn, if_pos hactive]
      exact ⟨hids s (List.mem_cons_self ..), List.countP_cons_of_pos rfl⟩
    | true =>
      have hcreate : createIn type (s :: rest) =
          ((createIn type rest).1, s :: (createIn type rest).2) := by
        rw [createIn, if_neg]
        rw [hactive]
        decide
      rw [List.countP_cons_of_pos hactive, List.length_cons, hcreate]
      by_cases hfull : rest.countP Session.active = rest.length
      · rw [if_pos hfull] at hrest
        rw [if_pos (congrArg (· + 1) hfull), hrest]
      · rw [if_neg hfull] at hrest
        rw [if_neg (fun h => hfull (Nat.succ.inj h)), List.countP_cons_of_pos hactive, hrest.2]
        exact ⟨hrest.1, rfl⟩

theorem ids_nonneg (d : Dispatcher) : ∀ s ∈ d.sessions, 0 ≤ s.sessionId := by
  intro s hs
  have hmem : s.sessionId ∈ d.sessions.map Session.sessionId := List.mem_map_of_mem hs
  rw [d.ids] at hmem
  simp only [List.mem_cons, List.not_mem_nil, or_false] at hmem
  omega

theorem create_spec (d : Dispatcher) (type : ChannelType) :
    if d.getActiveCount = maxDispatchSessions then (d.create type).1 < 0 ∧
        (d.create type).2.getActiveCount = d.getActiveCount
    else 0 ≤ (d.create type).1 ∧
      (d.create type).2.getActiveCount = d.getActiveCount + 1 := by
  have h := createIn_spec type d.sessions d.ids_nonneg
  rw [d.length_sessions] at h
  unfold getActiveCount create
  by_cases hfull : d.sessions.countP Session.active = maxDispatchSessions
  · rw [if_pos hfull] at h
    rw [if_pos hfull]
    show (createIn type d.sessions).1 < 0 ∧ (createIn type d.sessions).2.countP _ = _
    rw [h]
    exact ⟨show (-1 : ℤ) < 0 by decide, rfl⟩
  · rw [if_neg hfull] at h
    rw [if_neg hfull]
    exact h

/-- `id` is in range and its session is active. -/
def Live (d : Dispatcher) (id : ℤ) : Prop := id ∈ d.liveIds

instance (d : Dispatcher) (id : ℤ) : Decidable (d.Live id) :=
  inferInstanceAs (Decidable (id ∈ d.liveIds))

theorem sessionId_getElem (d : Dispatcher) (i : ℕ) (h : i < d.sessions.length) :
    d.sessions[i].sessionId = i := by
  have hlt : i < 4 := by
    rw [d.length_sessions] at h
    exact h
  have hget : ([0, 1, 2, 3] : List ℤ)[i]? = some d.sessions[i].sessionId := by
    rw [← d.ids, List.getElem?_map, List.getElem?_eq_getElem h]
    rfl
  have hids : ∀ j : ℕ, j < 4 → ([0, 1, 2, 3] : List ℤ)[j]? = some (j : ℤ) := by decide
  exact Option.some.inj (hget.symm.trans (hids i hlt))

theorem live_iff (d : Dispatcher) {id : ℤ} (h : ¬ (id < 0 ∨ id ≥ maxDispatchSessions))
    (hi : id.toNat < d.sessions.length) :
    d.Live id ↔ d.sessions[id.toNat].active = true := by
  have hid := d.sessionId_getElem id.toNat hi
  unfold Live liveIds
  rw [List.mem_map]
  constructor
  · intro hmem
    obtain ⟨s, hs, heq⟩ := hmem
    obtain ⟨hs, hactive⟩ := List.mem_filter.mp hs
    obtain ⟨j, hj, hget⟩ := List.getElem_of_mem hs
    have hjd := d.sessionId_getElem j hj
    rw [hget, heq] at hjd
    have hji : id.toNat = j := by omega
    simp only [hji, hget, hactive]
  · intro hactive
    refine ⟨_, List.mem_filter.mpr ⟨List.getElem_mem hi, hactive⟩, ?_⟩
    omega

theorem close_spec (d : Dispatcher) (id : ℤ) :
    if id < 0 ∨ id ≥ maxDispatchSessions then d.close id = (-1, d)
    else (d.close id).1 = 0 ∧
      d.getActiveCount = (d.close id).2.getActiveCount + (if d.Live id then 1 else 0) := by
  by_cases h : id < 0 ∨ id ≥ maxDispatchSessions
  · rw [if_pos h, close, dif_pos h]
  · have hi := d.index_lt h
    have hlive := d.live_iff h hi
    rw [if_neg h, close, dif_neg h]
    refine ⟨rfl, ?_⟩
    unfold getActiveCount closeAt
    rw [List.countP_set hi]
    by_cases hactive : d.Live id
    · have hpos := List.countP_pos_iff.mpr ⟨_, List.getElem_mem hi, hlive.mp hactive⟩
      simp only [hlive.mp hactive, if_pos hactive, if_true, Bool.false_eq_true, if_false]
      omega
    · rw [if_neg hactive, if_neg (fun ht => hactive (hlive.mpr ht))]
      rfl

/-! ### Histories -/

inductive Op where
  | create (type : ChannelType)
  | close (id : ℤ)
  deriving Repr, DecidableEq

def step (d : Dispatcher) : Op → Dispatcher
  | .create type => (d.create type).2
  | .close id => (d.close id).2

def after (d : Dispatcher) (ops : List Op) : Dispatcher := ops.foldl step d

def created : Dispatcher → List Op → ℕ
  | _, [] => 0
  | d, .create type :: ops =>
    (if 0 ≤ (d.create type).1 then 1 else 0) + created (d.create type).2 ops
  | d, .close id :: ops => created (d.close id).2 ops

def closed : Dispatcher → List Op → ℕ
  | _, [] => 0
  | d, .create type :: ops => closed (d.create type).2 ops
  | d, .close id :: ops => (if (d.close id).1 = 0 then 1 else 0) + closed (d.close id).2 ops

/-- No call closes a session that is in range and not live. -/
def ClosesLive : Dispatcher → List Op → Prop
  | _, [] => True
  | d, .create type :: ops => ClosesLive (d.create type).2 ops
  | d, .close id :: ops =>
    (0 ≤ id ∧ id < maxDispatchSessions → d.Live id) ∧ ClosesLive (d.close id).2 ops

/-- The calls that close a session in range that is not live. -/
def deadCloses : Dispatcher → List Op → ℕ
  | _, [] => 0
  | d, .create type :: ops => deadCloses (d.create type).2 ops
  | d, .close id :: ops =>
    (if 0 ≤ id ∧ id < maxDispatchSessions ∧ ¬ d.Live id then 1 else 0) +
      deadCloses (d.close id).2 ops

theorem deadCloses_eq_zero_iff (d : Dispatcher) (ops : List Op) :
    deadCloses d ops = 0 ↔ ClosesLive d ops := by
  induction ops generalizing d with
  | nil => exact ⟨fun _ => trivial, fun _ => rfl⟩
  | cons op ops ih =>
    cases op with
    | create type => exact ih (d.create type).2
    | close id =>
      rw [deadCloses, ClosesLive, Nat.add_eq_zero_iff, ih]
      apply and_congr_left'
      split
      · tauto
      · tauto

/-- The active sessions are those created less those closed, but for the calls that closed
nothing. -/
theorem getActiveCount_after (d : Dispatcher) (ops : List Op) :
    (after d ops).getActiveCount + closed d ops =
      d.getActiveCount + created d ops + deadCloses d ops := by
  induction ops generalizing d with
  | nil => rfl
  | cons op ops ih =>
    cases op with
    | create type =>
      have hspec := d.create_spec type
      have hrest := ih (d.create type).2
      show (after (d.create type).2 ops).getActiveCount + closed (d.create type).2 ops = _
      rw [hrest, created, deadCloses]
      by_cases hfull : d.getActiveCount = maxDispatchSessions
      · rw [if_pos hfull] at hspec
        rw [hspec.2, if_neg (by omega)]
        omega
      · rw [if_neg hfull] at hspec
        rw [hspec.2, if_pos hspec.1]
        omega
    | close id =>
      have hspec := d.close_spec id
      have hrest := ih (d.close id).2
      show (after (d.close id).2 ops).getActiveCount +
        ((if (d.close id).1 = 0 then 1 else 0) + closed (d.close id).2 ops) = _
      rw [created, deadCloses]
      by_cases hrange : id < 0 ∨ id ≥ maxDispatchSessions
      · rw [if_pos hrange] at hspec
        have hfails : (d.close id).1 = -1 := by rw [hspec]
        have hsame : (d.close id).2 = d := by rw [hspec]
        rw [hsame] at hrest ⊢
        rw [hfails, if_neg (by decide), if_neg (by omega)]
        omega
      · rw [if_neg hrange] at hspec
        rw [if_pos hspec.1, hspec.2]
        by_cases hlive : d.Live id
        · rw [if_pos hlive, if_neg (fun h => h.2.2 hlive)]
          omega
        · rw [if_neg hlive, if_pos ⟨by omega, by omega, hlive⟩]
          omega

structure Accounted (ops : List Op) : Prop where
  distinct : (after init ops).liveIds.Nodup
  inRange : ∀ id ∈ (after init ops).liveIds, 0 ≤ id ∧ id < maxDispatchSessions
  createFails : ∀ type, ((after init ops).create type).1 < 0 ↔
    ∀ s ∈ (after init ops).sessions, s.active = true
  count : ((after init ops).getActiveCount : ℤ) = created init ops - closed init ops

theorem create_fails_iff (d : Dispatcher) (type : ChannelType) :
    (d.create type).1 < 0 ↔ ∀ s ∈ d.sessions, s.active = true := by
  have hspec := d.create_spec type
  rw [← List.countP_eq_length, d.length_sessions]
  show _ ↔ d.getActiveCount = maxDispatchSessions
  split at hspec
  · tauto
  · constructor
    · intro hneg
      omega
    · intro hfull
      contradiction

theorem accounted_iff (ops : List Op) : Accounted ops ↔ deadCloses init ops = 0 := by
  have hcount := getActiveCount_after init ops
  have hzero : init.getActiveCount = 0 := rfl
  constructor
  · intro h
    have := h.count
    omega
  · intro h
    exact ⟨liveIds_nodup _, fun id hid => liveIds_range _ hid, create_fails_iff _, by omega⟩

theorem ClosesLive.of_prefix {d : Dispatcher} {pre ops : List Op} (h : ClosesLive d ops)
    (hpre : pre <+: ops) : ClosesLive d pre := by
  induction pre generalizing d ops with
  | nil => trivial
  | cons op pre ih =>
    obtain ⟨rest, hrest⟩ := hpre
    subst hrest
    cases op with
    | create type => exact ih (d := (d.create type).2) h (List.prefix_append pre rest)
    | close id => exact ⟨h.1, ih h.2 (List.prefix_append pre rest)⟩

/-- The accounts are right after every call exactly when no call closes a session that is
in range and not live. -/
theorem sessions_accounted_iff (ops : List Op) :
    (∀ pre, pre <+: ops → Accounted pre) ↔ ClosesLive init ops := by
  constructor
  · intro h
    rw [← deadCloses_eq_zero_iff, ← accounted_iff]
    exact h ops (List.prefix_refl ops)
  · intro h pre hpre
    rw [accounted_iff, deadCloses_eq_zero_iff]
    exact h.of_prefix hpre

theorem not_sessions_accounted_close_unused :
    ¬ ∀ pre, pre <+: [Op.close 0] → Accounted pre := by
  intro h
  have hcount := (h [.close 0] (List.prefix_refl _)).count
  revert hcount
  decide

end Dispatcher

end ZephyrModem.Transport
