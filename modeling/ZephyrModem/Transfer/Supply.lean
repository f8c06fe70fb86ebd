import ZephyrModem.Transfer.Callbacks

/-!
# File bytes sent and file bytes read

A transmitter reads into a buffer and sends the buffer. Its log is cut at the
calls, each with the bytes written behind it; what a peer takes out of the bytes
behind a `read_data` should be what that call reported.
-/

namespace ZephyrModem.Transfer

variable {κ : Type}

/-- The bytes at the front of a log. -/
def written : List (Event κ) → List UInt8
  | .write b :: log => b :: written log
  | _ => []

/-- The calls of a log, with the bytes written before the next call. -/
def segments : List (Event κ) → List (Event κ × List UInt8)
  | [] => []
  | .write _ :: log => segments log
  | e :: log => (e, written log) :: segments log

/-- The bytes that a peer takes for the file, as `payloads` reads them, carry what
the call of `read_data` before them reported. -/
def Supplied (payloads : List UInt8 → List (List UInt8)) (log : List (Event κ)) : Prop :=
  ∀ fileIdx offset (len : ℕ) data (res : ℤ) sent,
    (.readData fileIdx offset len data res, sent) ∈ segments log →
    ∀ payload ∈ payloads sent, ∀ (i : ℕ) b, i < len → payload[i]? = some b →
      i < res.toNat ∧ data[i]? = some b

/-- Every `read_data` returned as much as it was asked for; a negative result is no byte. -/
def ReadsWhole (log : List (Event κ)) : Prop :=
  ∀ fileIdx offset (len : ℕ) data (res : ℤ),
    .readData fileIdx offset len data res ∈ log → res.toNat = len

/-- The buffer `buf` is what a call of `read_data` has filled. -/
structure Filled (len : ℕ) (data : List UInt8) (res : ℤ) (buf : List UInt8) : Prop where
  len_le : len ≤ buf.length
  filled : data <+: buf
  length_le : data.length ≤ len
  res_le : res ≤ data.length

@[simp] theorem written_nil : written ([] : List (Event κ)) = [] := rfl

@[simp] theorem segments_nil : segments ([] : List (Event κ)) = [] := rfl

@[simp] theorem segments_write (b : UInt8) (log : List (Event κ)) :
    segments (.write b :: log) = segments log := rfl

theorem written_writeBytes (bs : List UInt8) (log : List (Event κ)) :
    written (writeBytes bs ++ log) = bs ++ written log := by
  induction bs with
  | nil => rfl
  | cons b bs ih => exact congrArg (b :: ·) ih

theorem segments_writeBytes (bs : List UInt8) (log : List (Event κ)) :
    segments (writeBytes bs ++ log) = segments log := by
  induction bs with
  | nil => rfl
  | cons b bs ih => exact ih

/-- Not a byte for the line. -/
def Event.IsCall (e : Event κ) : Prop := ∀ b, e ≠ .write b

theorem isCall_readData (fileIdx offset len : ℕ) (data : List UInt8) (res : ℤ) :
    (Event.readData fileIdx offset len data res : Event κ).IsCall := by
  intro b h
  cases h

theorem isCall_getFileInfo (fileIdx : ℕ) : (Event.getFileInfo fileIdx : Event κ).IsCall := by
  intro b h
  cases h

theorem Event.isCall_or_write (e : Event κ) : e.IsCall ∨ ∃ b, e = .write b := by
  by_cases h : ∃ b, e = .write b
  · exact .inr h
  · exact .inl fun b hb => h ⟨b, hb⟩

theorem segments_call {e : Event κ} (he : e.IsCall) (log : List (Event κ)) :
    segments (e :: log) = (e, written log) :: segments log := by
  cases e with
  | write b => exact absurd rfl (he b)
  | onFileStart _ _ | onData _ _ _ _ | onFileEnd _ _ | getFileInfo _ | readData _ _ _ _ _ => rfl

theorem written_call {e : Event κ} (he : e.IsCall) (log : List (Event κ)) :
    written (e :: log) = [] := by
  cases e with
  | write b => exact absurd rfl (he b)
  | onFileStart _ _ | onData _ _ _ _ | onFileEnd _ _ | getFileInfo _ | readData _ _ _ _ _ => rfl

theorem mem_segments {e : Event κ} {log : List (Event κ)} (he : e.IsCall) (h : e ∈ log) :
    ∃ sent, (e, sent) ∈ segments log := by
  induction log with
  | nil => cases h
  | cons x log ih =>
    rcases x.isCall_or_write with hx | ⟨b, rfl⟩
    · rw [segments_call hx]
      rcases List.mem_cons.mp h with rfl | h
      · exact ⟨_, List.mem_cons_self ..⟩
      · obtain ⟨sent, hsent⟩ := ih h
        exact ⟨sent, List.mem_cons_of_mem _ hsent⟩
    · rcases List.mem_cons.mp h with rfl | h
      · exact absurd rfl (he b)
      · exact ih h

theorem mem_of_mem_segments {e : Event κ} {sent : List UInt8} {log : List (Event κ)}
    (h : (e, sent) ∈ segments log) : e ∈ log := by
  induction log with
  | nil => cases h
  | cons x log ih =>
    rcases x.isCall_or_write with hx | ⟨b, rfl⟩
    · rw [segments_call hx] at h
      rcases List.mem_cons.mp h with h | h
      · cases h
        exact List.mem_cons_self ..
      · exact List.mem_cons_of_mem _ (ih h)
    · exact List.mem_cons_of_mem _ (ih h)

/-! ### A log that grows -/

theorem written_append {log : List (Event κ)} (h : segments log ≠ []) (more : List (Event κ)) :
    written (log ++ more) = written log := by
  induction log with
  | nil => exact absurd rfl h
  | cons x log ih =>
    rcases x.isCall_or_write with hx | ⟨b, rfl⟩
    · rw [List.cons_append, written_call hx, written_call hx]
    · exact congrArg (b :: ·) (ih h)

theorem written_append_call (log : List (Event κ)) {e : Event κ} (he : e.IsCall)
    (more : List (Event κ)) : written (log ++ e :: more) = written log := by
  induction log with
  | nil => exact written_call he more
  | cons x log ih =>
    rcases x.isCall_or_write with hx | ⟨b, rfl⟩
    · rw [List.cons_append, written_call hx, written_call hx]
    · exact congrArg (b :: ·) ih

theorem segments_append_ne_nil {log : List (Event κ)} (h : segments log ≠ [])
    (more : List (Event κ)) : segments (log ++ more) ≠ [] := by
  induction log with
  | nil => exact absurd rfl h
  | cons x log ih =>
    rcases x.isCall_or_write with hx | ⟨b, rfl⟩
    · rw [List.cons_append, segments_call hx]
      exact List.cons_ne_nil _ _
    · exact ih h

theorem segments_append_call (log : List (Event κ)) {e : Event κ} (he : e.IsCall)
    (more : List (Event κ)) :
    segments (log ++ e :: more) = segments log ++ (e, written more) :: segments more := by
  induction log with
  | nil => exact segments_call he more
  | cons x log ih =>
    rcases x.isCall_or_write with hx | ⟨b, rfl⟩
    · rw [List.cons_append, segments_call hx, segments_call hx, written_append_call log he, ih]
      rfl
    · exact ih

theorem append_writes_of_segments_nil {log : List (Event κ)} (h : segments log = [])
    (bs : List UInt8) : written (log ++ writeBytes bs) = written log ++ bs ∧
      segments (log ++ writeBytes bs) = [] := by
  induction log with
  | nil =>
    have hw := written_writeBytes bs ([] : List (Event κ))
    have hs := segments_writeBytes bs ([] : List (Event κ))
    rw [List.append_nil] at hw hs
    rw [written_nil, List.append_nil] at hw
    exact ⟨hw, hs⟩
  | cons x log ih =>
    rcases x.isCall_or_write with hx | ⟨b, rfl⟩
    · rw [segments_call hx] at h
      cases h
    · obtain ⟨hw, hs⟩ := ih h
      exact ⟨congrArg (b :: ·) hw, hs⟩

theorem segments_append_writes {log : List (Event κ)} {gs : List (Event κ × List UInt8)}
    {e : Event κ} {sent : List UInt8} (h : segments log = gs ++ [(e, sent)]) (bs : List UInt8) :
    segments (log ++ writeBytes bs) = gs ++ [(e, sent ++ bs)] := by
  induction log generalizing gs with
  | nil => exact absurd h (by simp)
  | cons x log ih =>
    rcases x.isCall_or_write with hx | ⟨b, rfl⟩
    · rw [segments_call hx] at h
      rw [List.cons_append, segments_call hx]
      cases gs with
      | nil =>
        obtain ⟨hhead, htail⟩ := List.cons.inj h
        obtain ⟨hw, hs⟩ := append_writes_of_segments_nil htail bs
        cases hhead
        rw [hw, hs]
        rfl
      | cons g gs =>
        obtain ⟨rfl, htail⟩ := List.cons.inj h
        have hne : segments log ≠ [] := by
          rw [htail]
          exact List.concat_ne_nil _ gs
        rw [written_append hne, ih htail]
        rfl
    · exact ih h

theorem forall_segments_append_writes {Q : Event κ × List UInt8 → Prop} {log : List (Event κ)}
    {bs : List UInt8} (hQ : ∀ e sent, Q (e, sent) → Q (e, sent ++ bs))
    (h : ∀ seg ∈ segments log, Q seg) : ∀ seg ∈ segments (log ++ writeBytes bs), Q seg := by
  intro seg hseg
  rcases List.eq_nil_or_concat (segments log) with hnil | ⟨gs, ⟨e, sent⟩, hlast⟩
  · rw [(append_writes_of_segments_nil hnil bs).2] at hseg
    cases hseg
  · rw [List.concat_eq_append] at hlast
    rw [segments_append_writes hlast] at hseg
    rw [hlast] at h
    rcases List.mem_append.mp hseg with hseg | hseg
    · exact h seg (List.mem_append_left _ hseg)
    · rw [List.mem_singleton.mp hseg]
      exact hQ _ _ (h (e, sent) (List.mem_append_right _ (List.mem_singleton_self _)))

theorem forall_segments_append_call {Q : Event κ × List UInt8 → Prop} {log : List (Event κ)}
    {e : Event κ} {bs : List UInt8} (he : e.IsCall) (hQ : Q (e, bs))
    (h : ∀ seg ∈ segments log, Q seg) :
    ∀ seg ∈ segments (log ++ e :: writeBytes bs), Q seg := by
  have hw := written_writeBytes bs ([] : List (Event κ))
  have hs := segments_writeBytes bs ([] : List (Event κ))
  rw [List.append_nil] at hw hs
  rw [written_nil, List.append_nil] at hw
  intro seg hseg
  rw [segments_append_call log he, hw, hs, segments_nil] at hseg
  rcases List.mem_append.mp hseg with hseg | hseg
  · exact h seg hseg
  · rw [List.mem_singleton.mp hseg]
    exact hQ

/-- Where the buffer is all that is sent behind a `read_data`, what is sent was read
exactly when the calls returned as much as they were asked for. -/
theorem supplied_iff_readsWhole_of_filled {payloads : List UInt8 → List (List UInt8)}
    {log : List (Event κ)}
    (h : ∀ fileIdx offset len data res sent,
      (.readData fileIdx offset len data res, sent) ∈ segments log → ∃ buf, Filled len data res buf ∧
        buf ∈ payloads sent ∧ ∀ payload ∈ payloads sent, payload = buf) :
    Supplied payloads log ↔ ReadsWhole log := by
  constructor
  · intro hsupplied fileIdx offset len data res hin
    obtain ⟨sent, hseg⟩ := mem_segments (isCall_readData _ _ _ _ _) hin
    obtain ⟨buf, hfilled, hbuf, -⟩ := h _ _ _ _ _ _ hseg
    have hsize := hfilled.len_le
    have hdata := hfilled.length_le
    have hres := hfilled.res_le
    by_contra hshort
    -- the first position that was not reported
    have hi : res.toNat < len := by omega
    have hlt := (hsupplied _ _ _ _ _ sent hseg buf hbuf res.toNat _ hi
      (List.getElem?_eq_getElem (by omega))).1
    omega
  · intro hreads fileIdx offset len data res sent hseg payload hpayload i b hi hb
    obtain ⟨buf, hfilled, -, hall⟩ := h _ _ _ _ _ _ hseg
    have hres := hreads _ _ _ _ _ (mem_of_mem_segments hseg)
    have hle := hfilled.res_le
    have hdata : i < data.length := by omega
    obtain ⟨pad, hpad⟩ := hfilled.filled
    rw [hall payload hpayload, ← hpad, List.getElem?_append_left hdata] at hb
    exact ⟨by omega, hb⟩

end ZephyrModem.Transfer
