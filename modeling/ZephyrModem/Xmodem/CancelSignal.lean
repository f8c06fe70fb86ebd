import ZephyrModem.Xmodem.Safety

/-!
# The cancel signal of `xmodem_receive`

Two CAN bytes in a row abort a transfer. `xmodem_receive` reads the second one and
looks at it, but both branches return `XMODEM_ERROR_CANCEL`.
-/

namespace ZephyrModem.Xmodem
open ZephyrModem.Reactive

variable {υ : Type} (P : Platform) (crc : CrcService) (cbs : RxCallbacks υ) (cfg : Config)

/-- After `reads` the session that stood at a packet boundary in `v`, after `pre`, goes
on with what it had, and stores every block that is then sent to it. -/
structure GoesOn (userData : υ) (pre reads : List Read) (v : RxLocals υ) : Prop where
  waits : ∃ s, (receive P crc cbs cfg userData reads).next = .wait s ∧
    s.locals.expectedBlock = v.expectedBlock ∧ s.locals.totalBytes = v.totalBytes ∧
    s.locals.userData = v.userData
  prefix_kept : delivered (receive P crc cbs cfg userData reads).events =
    delivered (receive P crc cbs cfg userData pre).events
  delivers : ∀ more w payload,
    (receive P crc cbs cfg userData (reads ++ more)).next = .wait ⟨.header, w⟩ →
    payload.length = blockSize128 ∨ payload.length = blockSize1024 →
    delivered (receive P crc cbs cfg userData (reads ++ more ++
        (packet crc w.crcMode w.expectedBlock payload).map .ok)).events =
      delivered (receive P crc cbs cfg userData (reads ++ more)).events ++ [payload]

/-- Two CANs in a row cancel, the first of them at a packet boundary, and nothing less. -/
structure CancelRule (userData : υ) (reads : List Read) : Prop where
  twice : ∀ t, (receive P crc cbs cfg userData reads).next = .done ⟨.errorCancel, t⟩ →
    ∃ pre v post, reads = pre ++ .ok can :: .ok can :: post ∧
      (receive P crc cbs cfg userData pre).next = .wait ⟨.header, v⟩
  survives : ∀ pre v r post, reads = pre ++ .ok can :: r :: post →
    (receive P crc cbs cfg userData pre).next = .wait ⟨.header, v⟩ → r ≠ .ok can →
    GoesOn P crc cbs cfg userData pre (pre ++ [.ok can, r]) v

/-- A CAN at a packet boundary comes with a second one. -/
def PairedCans (userData : υ) (reads : List Read) : Prop :=
  ∀ pre v r post, reads = pre ++ .ok can :: r :: post →
    (receive P crc cbs cfg userData pre).next = .wait ⟨.header, v⟩ → r = .ok can

/-! ### Where a session is cancelled -/

variable {P crc cbs cfg}

theorem secondCan_reached {s : RxState υ} {r : Read} {w : RxLocals υ}
    (h : (receiveStep P crc cbs cfg s r).next = .wait ⟨.secondCan, w⟩) :
    s = ⟨.header, w⟩ ∧ r = .ok can := by
  obtain ⟨site, v⟩ := s
  rcases receiveStep_wait P crc cbs cfg h with hsite | ⟨hnext, hv⟩
  · cases hsite
  · obtain rfl : w = v := hv
    generalize hsite : RxSite.secondCan = site' at hnext
    cases hnext with
    | second => exact ⟨rfl, rfl⟩
    | _ => cases hsite

/-- Cancellation comes from a read of -2, kept for a moment or not, or at the second CAN. -/
theorem cancel_site {s : RxState υ} {r : Read} {t : Option ℕ}
    (h : (receiveStep P crc cbs cfg s r).next = .done ⟨.errorCancel, t⟩) : s.site.Cancels r := by
  rcases receiveStep_done P crc cbs cfg h with ⟨hcancels, -⟩ | he | ⟨-, hst⟩
  · exact hcancels
  · rw [he] at h
    cases h
  · exact absurd rfl hst

theorem receive_secondCan {userData : υ} {reads : List Read} {w : RxLocals υ}
    (h : (receive P crc cbs cfg userData reads).next = .wait ⟨.secondCan, w⟩) :
    ∃ pre, reads = pre ++ [.ok can] ∧
      (receive P crc cbs cfg userData pre).next = .wait ⟨.header, w⟩ := by
  rcases List.eq_nil_or_concat reads with rfl | ⟨pre, r, rfl⟩
  · cases h
  · rw [List.concat_eq_append] at h ⊢
    cases hpre : (receive P crc cbs cfg userData pre).next with
    | done res =>
      rw [receive_snoc_done hpre] at h
      cases h
    | wait s =>
      rw [receive_snoc hpre, Out.after_next] at h
      obtain ⟨rfl, rfl⟩ := secondCan_reached h
      exact ⟨pre, rfl, hpre⟩

/-- Without a cancelled read, a cancelled session has just read the byte after a CAN. -/
theorem receive_cancelled {userData : υ} {reads : List Read} {t : Option ℕ}
    (hreads : .cancel ∉ reads)
    (h : (receive P crc cbs cfg userData reads).next = .done ⟨.errorCancel, t⟩) :
    ∃ pre v r post, reads = pre ++ .ok can :: r :: post ∧
      (receive P crc cbs cfg userData pre).next = .wait ⟨.header, v⟩ := by
  rcases exists_of_run_done _ h with hstart | ⟨pre, r, post, s, rfl, hpre, hstep⟩
  · cases hstart
  · obtain ⟨mid, rs, hmid, htrail, -⟩ := (receive_traced userData pre hpre).trail
    have hkept : .cancel ∉ rs := by
      intro hmem
      apply hreads
      rw [hmid]
      simp [hmem]
    obtain ⟨site, v⟩ := s
    rcases cancel_site hstep with hs | rfl | ⟨len, hs⟩ | ⟨n, buf, hs⟩
    · change site = _ at hs
      subst hs
      obtain ⟨pre', rfl, hpre'⟩ := receive_secondCan hpre
      exact ⟨pre', v, r, post, by simp, hpre'⟩
    · exact absurd (List.mem_append_right _ (List.mem_cons_self ..)) hreads
    · change site = _ at hs
      subst hs
      obtain ⟨header, -, rfl⟩ := htrail
      exact absurd (List.mem_cons_of_mem _ (List.mem_cons_self ..)) hkept
    · change site = _ at hs
      subst hs
      obtain ⟨-, header, inv, -, -, rfl⟩ := htrail
      exact absurd (List.mem_append_right _ (List.mem_singleton_self _)) hkept

/-- Whatever the second byte is, the session ends there. -/
theorem receive_after_can {userData : υ} {pre : List Read} {v : RxLocals υ}
    (h : (receive P crc cbs cfg userData pre).next = .wait ⟨.header, v⟩) (r : Read) :
    (receive P crc cbs cfg userData (pre ++ [.ok can, r])).next = .done ⟨.errorCancel, none⟩ := by
  have hcan : (receive P crc cbs cfg userData (pre ++ [.ok can])).next = .wait ⟨.secondCan, v⟩ := by
    rw [receive_snoc h]
    rfl
  have hreads : pre ++ [.ok can, r] = (pre ++ [.ok can]) ++ [r] := by simp
  rw [hreads, receive_snoc hcan]
  rfl

/-- The rule is kept on the lines whose CANs at packet boundaries come in pairs. -/
theorem cancelRule_iff {υ : Type} (P : Platform) (crc : CrcService) (cbs : RxCallbacks υ)
    (cfg : Config) (userData : υ) (reads : List Read) (hreads : .cancel ∉ reads) :
    CancelRule P crc cbs cfg userData reads ↔ PairedCans P crc cbs cfg userData reads := by
  constructor
  · intro h pre v r post hsplit hpre
    by_contra hne
    obtain ⟨s, hs, -⟩ := (h.survives pre v r post hsplit hpre hne).waits
    rw [receive_after_can hpre r] at hs
    cases hs
  · intro h
    constructor
    · intro t ht
      obtain ⟨pre, v, r, post, hsplit, hpre⟩ := receive_cancelled hreads ht
      obtain rfl := h pre v r post hsplit hpre
      exact ⟨pre, v, post, hsplit, hpre⟩
    · intro pre v r post hsplit hpre hne
      exact absurd (h pre v r post hsplit hpre) hne

theorem cancelRule_two_cans :
    CancelRule platform32 referenceCrc acceptingStorage configInit () [.ok can, .ok can] := by
  refine (cancelRule_iff platform32 referenceCrc acceptingStorage configInit () _ (by decide)).mpr ?_
  intro pre v r post hsplit _
  cases pre with
  | nil =>
    cases hsplit
    rfl
  | cons i pre =>
    have hlen := congrArg List.length hsplit
    simp only [List.cons_append, List.length_cons, List.length_nil, List.length_append] at hlen
    omega

/-- A single CAN before the first packet, which begins with the next byte. -/
theorem not_cancelRule_one_can :
    ¬ CancelRule platform32 referenceCrc acceptingStorage configInit () [.ok can, .ok soh] := by
  intro h
  obtain ⟨pre, v, post, hsplit, -⟩ := h.twice none rfl
  have hmem : ReadResult.ok can ∈ [ReadResult.ok soh] := by
    cases pre with
    | nil =>
      cases hsplit
    | cons i pre =>
      rw [(List.cons.inj hsplit).2]
      simp
  exact absurd hmem (by decide)

end ZephyrModem.Xmodem
