import ZephyrModem.Transfer.Supply
import ZephyrModem.Ymodem.Model

/-!
# The file bytes that `ymodem_transmit` sends

The result of `read_data` is not looked at: a block is sent with the padding, or
with whatever a failed call left, in the place of what could not be read.
-/

namespace ZephyrModem.Ymodem
open ZephyrModem.Reactive ZephyrModem.Transfer
open ZephyrModem.Xmodem (Byte Read soh stx eot ack nak can charC)

/-- What a peer takes out of the packets at the front of the line. -/
def payloads : List Byte → List (List Byte)
  | header :: _ :: _ :: rest =>
    if header = soh then rest.take 128 :: payloads (rest.drop 130)
    else if header = stx then rest.take 1024 :: payloads (rest.drop 1026)
    else []
  | _ => []
termination_by bytes => bytes.length
decreasing_by
  all_goals simp only [List.length_drop, List.length_cons]; omega

def copies (crc : CrcService) (num : Byte) (payload : List Byte) (n : ℕ) : List Byte :=
  (List.replicate n (packet crc num payload)).flatten

section Packets

variable (crc : CrcService)

theorem payloads_packet (num : Byte) {payload : List Byte}
    (h : payload.length = 128 ∨ payload.length = 1024) (rest : List Byte) :
    payloads (packet crc num payload ++ rest) = payload :: payloads rest := by
  have hne : stx ≠ soh := by decide
  rcases h with h | h
  · have hheader : ¬ payload.length = 1024 := by omega
    simp only [packet, if_neg hheader, List.cons_append]
    rw [payloads, if_pos rfl, List.append_assoc, List.take_left' h]
    have hdrop : (payload ++ ([crcHi (modemCrc16 crc payload), crcLo (modemCrc16 crc payload)] ++
        rest)).drop 130 = rest := by
      rw [← List.append_assoc]
      exact List.drop_left' (by simp [h])
    rw [hdrop]
  · simp only [packet, if_pos h, List.cons_append]
    rw [payloads, if_neg hne, if_pos rfl, List.append_assoc, List.take_left' h]
    have hdrop : (payload ++ ([crcHi (modemCrc16 crc payload), crcLo (modemCrc16 crc payload)] ++
        rest)).drop 1026 = rest := by
      rw [← List.append_assoc]
      exact List.drop_left' (by simp [h])
    rw [hdrop]

theorem payloads_eot (m : ℕ) : payloads (List.replicate m eot) = [] := by
  have hsoh : eot ≠ soh := by decide
  have hstx : eot ≠ stx := by decide
  unfold payloads
  split
  · rename_i header a b rest h
    have hheader : header = eot := List.eq_of_mem_replicate (h ▸ List.mem_cons_self ..)
    rw [hheader, if_neg hsoh, if_neg hstx]
  · rfl

theorem copies_succ (num : Byte) (payload : List Byte) (n : ℕ) :
    copies crc num payload n ++ packet crc num payload = copies crc num payload (n + 1) := by
  rw [copies, copies, List.replicate_succ', List.flatten_append]
  simp

theorem payloads_copies (num : Byte) {payload : List Byte}
    (h : payload.length = 128 ∨ payload.length = 1024) (n m : ℕ) :
    payloads (copies crc num payload n ++ List.replicate m eot) = List.replicate n payload := by
  induction n with
  | zero => exact payloads_eot m
  | succ n ih =>
    rw [copies, List.replicate_succ, List.flatten_cons, List.append_assoc,
      payloads_packet crc num h, ← copies, ih, List.replicate_succ]

end Packets

/-! ### What is sent behind a read -/

section Transmit

variable {υ : Type} (P : Platform) (crc : CrcService) (cbs : TxCallbacks υ)

/-- The log of a transmission and where it stands. -/
def transmitted (userData : υ) (reads : List Read) : TxOut υ :=
  (run (transmitStep P crc cbs) (ymodemTransmit cbs userData).next reads).after
    (ymodemTransmit cbs userData).events

/-- The buffer of the block loop, a whole block. -/
structure FilledBlock (len : ℕ) (data : List Byte) (res : ℤ) (payload : List Byte) : Prop
    extends Filled len data res payload where
  size : payload.length = 128 ∨ payload.length = 1024

/-- Behind a `read_data` the buffer is sent, once or more, and then EOTs. -/
def SendsBuffer : Event × List Byte → Prop
  | (.readData _ _ len data res, sent) => ∃ num payload n m,
    FilledBlock len data res payload ∧ sent = copies crc num payload (n + 1) ++ List.replicate m eot
  | _ => True

def Segmented (log : List Event) : Next (TxSite υ) Status → Prop
  | .wait (.startC ..) | .wait (.ackBlock0 _) | .wait (.secondC _) =>
    ∃ gs idx sent, segments log = gs ++ [(.getFileInfo idx, sent)]
  | .wait (.reply v b _) => ∃ gs data res n, FilledBlock b.readBytes data res b.payload ∧
    segments log = gs ++ [(.readData v.fileIdx b.fileOffset b.readBytes data res,
      copies crc b.blockNum b.payload (n + 1))]
  | .wait (.eotReply _) | .wait (.secondEotReply _) => segments log ≠ []
  | .done _ => True

/-- The log of a transmission at each read. -/
structure Transmitting (log : List Event) (n : Next (TxSite υ) Status) : Prop where
  sends : ∀ seg ∈ segments log, SendsBuffer crc seg
  segmented : Segmented crc log n

theorem filled_block (v : TxLocals υ) (fileOffset len remaining : ℕ)
    (hlen : len ≤ txBlockSize remaining) :
    FilledBlock len (cbs.readData v.fileIdx fileOffset len v.userData).2.1
      (cbs.readData v.fileIdx fileOffset len v.userData).1
      ((cbs.readData v.fileIdx fileOffset len v.userData).2.1 ++
        (List.replicate (txBlockSize remaining) 0x1A).drop
          (cbs.readData v.fileIdx fileOffset len v.userData).2.1.length) := by
  have hle := cbs.readData_length v.fileIdx fileOffset len v.userData
  have hsize : ((cbs.readData v.fileIdx fileOffset len v.userData).2.1 ++
      (List.replicate (txBlockSize remaining) (0x1A : Byte)).drop
        (cbs.readData v.fileIdx fileOffset len v.userData).2.1.length).length =
      txBlockSize remaining := by
    rw [List.length_append, List.length_drop, List.length_replicate]
    omega
  have hcases : txBlockSize remaining = 128 ∨ txBlockSize remaining = 1024 := by
    unfold txBlockSize
    split
    · exact .inr rfl
    · exact .inl rfl
  refine ⟨⟨?_, List.prefix_append _ _, hle, ?_⟩, ?_⟩
  · rw [hsize]
    exact hlen
  · exact cbs.readData_result v.fileIdx fileOffset len v.userData
  · rw [hsize]
    exact hcases

variable {P crc cbs}

theorem nextFile_transmitting {log : List Event} (h : ∀ seg ∈ segments log, SendsBuffer crc seg)
    (idx : ℕ) (u : υ) :
    Transmitting crc (log ++ (nextFile cbs idx u).events) (nextFile cbs idx u).next := by
  have hseg : segments (log ++ (nextFile cbs idx u).events) =
      segments log ++ [(.getFileInfo idx, [])] :=
    segments_append_call log (isCall_getFileInfo idx) []
  constructor
  · intro seg hin
    rw [hseg] at hin
    rcases List.mem_append.mp hin with hin | hin
    · exact h seg hin
    · rw [List.mem_singleton.mp hin]
      trivial
  · exact ⟨_, _, _, hseg⟩

theorem sendsBuffer_eot {seg : Event × List Byte} (h : SendsBuffer crc seg) :
    SendsBuffer crc (seg.1, seg.2 ++ [eot]) := by
  obtain ⟨e, sent⟩ := seg
  cases e with
  | readData fileIdx offset len data res =>
    obtain ⟨num, payload, n, m, hfilled, rfl⟩ := h
    refine ⟨num, payload, n, m + 1, hfilled, ?_⟩
    rw [List.append_assoc, List.replicate_succ']
  | write _ | onFileStart _ _ | onData _ _ _ _ | onFileEnd _ _ | getFileInfo _ => trivial

theorem sends_eot {log : List Event} (h : ∀ seg ∈ segments log, SendsBuffer crc seg) :
    ∀ seg ∈ segments (log ++ sendByte eot), SendsBuffer crc seg :=
  forall_segments_append_writes (fun _ _ h => sendsBuffer_eot h) h

theorem nextBlock_inside (P : Platform) (crc : CrcService) (cbs : TxCallbacks υ) {v : TxLocals υ}
    {fileOffset : ℕ} (num : Byte) (hlt : fileOffset < v.info.size) :
    ∃ len data res payload u, FilledBlock len data res payload ∧
      nextBlock P crc cbs v fileOffset num =
        ⟨.readData v.fileIdx fileOffset len data res :: writeBytes (packet crc num payload),
          .wait (.reply { v with userData := u } ⟨fileOffset, num, len, payload⟩ 0)⟩ := by
  have hfirst : (0 : Byte) < maxRetries := by decide
  have hlen : (if P.subSize v.info.size fileOffset > txBlockSize (P.subSize v.info.size fileOffset)
      then txBlockSize (P.subSize v.info.size fileOffset) else P.subSize v.info.size fileOffset) ≤
      txBlockSize (P.subSize v.info.size fileOffset) := by
    split <;> omega
  generalize hreadBytes : (if P.subSize v.info.size fileOffset >
    txBlockSize (P.subSize v.info.size fileOffset) then txBlockSize (P.subSize v.info.size fileOffset)
      else P.subSize v.info.size fileOffset) = len at hlen
  refine ⟨len, _, _, _, (cbs.readData v.fileIdx fileOffset len v.userData).2.2,
    filled_block cbs v fileOffset len _ hlen, ?_⟩
  unfold nextBlock
  rw [if_pos hlt]
  simp only [sendBlock, if_pos hfirst, hreadBytes]
  rfl

theorem nextBlock_transmitting {log : List Event} (hne : segments log ≠ [])
    (h : ∀ seg ∈ segments log, SendsBuffer crc seg) (v : TxLocals υ) (fileOffset : ℕ) (num : Byte) :
    Transmitting crc (log ++ (nextBlock P crc cbs v fileOffset num).events)
      (nextBlock P crc cbs v fileOffset num).next := by
  by_cases hlt : fileOffset < v.info.size
  · obtain ⟨len, data, res, payload, u, hfilled, hnext⟩ :=
      nextBlock_inside P crc cbs num hlt
    have hseg : segments (log ++ .readData v.fileIdx fileOffset len data res ::
        writeBytes (packet crc num payload)) = segments log ++
          [(.readData v.fileIdx fileOffset len data res, copies crc num payload 1)] := by
      have hw := written_writeBytes (κ := Status) (packet crc num payload) []
      have hs := segments_writeBytes (κ := Status) (packet crc num payload) []
      rw [List.append_nil] at hw hs
      rw [written_nil, List.append_nil] at hw
      rw [segments_append_call log (isCall_readData _ _ _ _ _), hw, hs, segments_nil, copies,
        List.replicate_one, List.flatten_singleton]
    rw [hnext]
    constructor
    · intro seg hin
      rw [hseg] at hin
      rcases List.mem_append.mp hin with hin | hin
      · exact h seg hin
      · rw [List.mem_singleton.mp hin]
        exact ⟨num, payload, 0, 0, hfilled, (List.append_nil _).symm⟩
    · exact ⟨_, data, res, 0, hfilled, hseg⟩
  · have hnext : nextBlock P crc cbs v fileOffset num = ⟨sendByte eot, .wait (.eotReply v)⟩ := by
      unfold nextBlock
      exact if_neg hlt
    rw [hnext]
    exact ⟨sends_eot h, segments_append_ne_nil hne _⟩

theorem sendBlock_transmitting {log : List Event} {v : TxLocals υ} {b : TxBlock} {retries : Byte}
    (h : Transmitting crc log (.wait (.reply v b retries))) (retries' : Byte) :
    Transmitting crc (log ++ (sendBlock crc v b retries').events) (sendBlock crc v b retries').next := by
  obtain ⟨gs, data, res, n, hfilled, hlog⟩ := h.segmented
  unfold sendBlock
  split
  · have hseg := segments_append_writes hlog (packet crc b.blockNum b.payload)
    rw [copies_succ] at hseg
    constructor
    · intro seg hin
      rw [hseg] at hin
      rcases List.mem_append.mp hin with hin | hin
      · exact h.sends seg (by rw [hlog]; exact List.mem_append_left _ hin)
      · rw [List.mem_singleton.mp hin]
        exact ⟨b.blockNum, b.payload, n + 1, 0, hfilled, (List.append_nil _).symm⟩
    · exact ⟨gs, data, res, n + 1, hfilled, hseg⟩
  · rw [List.append_nil]
    exact ⟨h.sends, trivial⟩

theorem transmitStep_transmitting (log : List Event) (s : TxSite υ) (r : Read)
    (h : Transmitting crc log (.wait s)) :
    Transmitting crc (log ++ (transmitStep P crc cbs s r).events) (transmitStep P crc cbs s r).next := by
  have hends : ∀ st : Status, Transmitting crc (log ++ []) (.done st : Next (TxSite υ) Status) := by
    intro st
    rw [List.append_nil]
    exact ⟨h.sends, trivial⟩
  cases s with
  | startC v retries =>
    obtain ⟨gs, idx, sent, hlog⟩ := h.segmented
    unfold transmitStep
    simp only
    split
    · have hseg := segments_append_writes hlog (packet crc 0 v.block0)
      constructor
      · intro seg hin
        rw [hseg] at hin
        rcases List.mem_append.mp hin with hin | hin
        · exact h.sends seg (by rw [hlog]; exact List.mem_append_left _ hin)
        · rw [List.mem_singleton.mp hin]
          trivial
      · exact ⟨gs, idx, _, hseg⟩
    · split
      · exact hends _
      · split
        · rw [List.append_nil]
          exact ⟨h.sends, gs, idx, sent, hlog⟩
        · exact hends _
  | ackBlock0 v =>
    unfold transmitStep
    simp only
    split
    · exact hends _
    · split
      · rw [List.append_nil]
        exact ⟨h.sends, h.segmented⟩
      · exact hends _
  | secondC v =>
    obtain ⟨gs, idx, sent, hlog⟩ := h.segmented
    unfold transmitStep
    simp only
    split
    · exact hends _
    · exact nextBlock_transmitting (by rw [hlog]; exact List.concat_ne_nil _ gs) h.sends v 0 1
  | reply v b retries =>
    obtain ⟨gs, data, res, n, hfilled, hlog⟩ := h.segmented
    unfold transmitStep
    simp only
    split
    · exact nextBlock_transmitting (by rw [hlog]; exact List.concat_ne_nil _ gs) h.sends v _ _
    · split
      · exact hends _
      · exact sendBlock_transmitting h _
  | eotReply v =>
    unfold transmitStep
    simp only
    split
    · exact ⟨sends_eot h.sends, segments_append_ne_nil h.segmented _⟩
    · exact nextFile_transmitting h.sends _ _
  | secondEotReply v => exact nextFile_transmitting h.sends _ _

variable (P crc cbs)

theorem transmitted_sends (userData : υ) (reads : List Read) :
    ∀ seg ∈ segments (transmitted P crc cbs userData reads).events, SendsBuffer crc seg := by
  have hinit : Transmitting crc ([] ++ (ymodemTransmit cbs userData).events)
      (ymodemTransmit cbs userData).next :=
    nextFile_transmitting (List.forall_mem_nil _) 0 userData
  have hrun := trace_invariant (transmitStep P crc cbs) (Transmitting crc) (fun _ _ => True)
    (fun log s r _ => transmitStep_transmitting log s r) _ reads _ (fun _ _ => trivial) hinit
  exact hrun.sends

/-- What is sent for the file was read exactly when every `read_data` returned as
much as it was asked for. -/
theorem supplied_iff_readsWhole (userData : υ) (reads : List Read) :
    Supplied payloads (transmitted P crc cbs userData reads).events ↔
      ReadsWhole (transmitted P crc cbs userData reads).events := by
  apply supplied_iff_readsWhole_of_filled
  intro fileIdx offset len data res sent hseg
  obtain ⟨num, payload, n, m, hfilled, hsent⟩ := transmitted_sends P crc cbs userData reads _ hseg
  rw [hsent, payloads_copies crc num hfilled.size]
  exact ⟨payload, hfilled.toFilled, List.mem_replicate.mpr ⟨by omega, rfl⟩,
    fun _ h => List.eq_of_mem_replicate h⟩

end Transmit

end ZephyrModem.Ymodem
