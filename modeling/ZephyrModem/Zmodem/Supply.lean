import ZephyrModem.Transfer.Supply
import ZephyrModem.Zmodem.Frames
import ZephyrModem.Zmodem.Model

/-!
# The file bytes that `zmodem_transmit` sends

As in YMODEM the result of `read_data` is not looked at. The buffer is not filled
beforehand: what a short read leaves in it is from an earlier chunk or was never
written.
-/

namespace ZephyrModem.Zmodem
open ZephyrModem.Reactive ZephyrModem.Transfer

section Transmit

variable {υ : Type} (P : Platform) (crc : CrcService) (uninit : ℕ → Byte) (cbs : TxCallbacks υ)

/-- The subpacket that a peer reads at the front of the line. -/
def payloads (sent : List Byte) : List (List Byte) :=
  match (parse (readSubpacketRx crc 1024 false) (.wait (.data [] false)) sent).1 with
  | .done (some (buf, _)) => [buf]
  | _ => []

/-- The log of a transmission and where it stands. -/
def transmitted (userData : υ) (reads : List Read) : TxOut υ :=
  (run (transmitStep P crc uninit cbs) (zmodemTransmit crc userData).next reads).after
    (zmodemTransmit crc userData).events

/-- Behind a `read_data` the buffer is sent in a subpacket. -/
def SendsBuffer : Event Status × List Byte → Prop
  | (.readData _ _ len data res, sent) => ∃ buf ender rest,
    Filled len data res buf ∧ buf.length ≤ 1024 ∧ IsEnder ender ∧ sent = subpacket crc buf ender ++ rest
  | _ => True

theorem filled_chunk (v : TxLocals υ) {dataBuf : List Byte} (hbuf : dataBuf.length = 1024)
    (fileOffset : ℕ) {len : ℕ} (hlen : len ≤ 1024) :
    ∃ buf dataBuf', Filled len (cbs.readData v.fileIdx fileOffset len v.userData).2.1
        (cbs.readData v.fileIdx fileOffset len v.userData).1 buf ∧ buf.length ≤ 1024 ∧
      dataBuf'.length = 1024 ∧ dataBuf'.take len = buf ∧
      dataBuf' = (cbs.readData v.fileIdx fileOffset len v.userData).2.1 ++
        dataBuf.drop (cbs.readData v.fileIdx fileOffset len v.userData).2.1.length := by
  have hle := cbs.readData_length v.fileIdx fileOffset len v.userData
  generalize hread : cbs.readData v.fileIdx fileOffset len v.userData = read at hle
  have hfull : (read.2.1 ++ dataBuf.drop read.2.1.length).length = 1024 := by
    rw [List.length_append, List.length_drop]
    omega
  have htake : ((read.2.1 ++ dataBuf.drop read.2.1.length).take len).length = len := by
    rw [List.length_take]
    omega
  refine ⟨_, _, ⟨?_, ?_, hle, ?_⟩, ?_, hfull, rfl, rfl⟩
  · rw [htake]
  · exact List.prefix_take_iff.mpr ⟨List.prefix_append _ _, hle⟩
  · rw [← hread]
    exact cbs.readData_result v.fileIdx fileOffset len v.userData
  · rw [htake]
    exact hlen

variable {crc}

theorem sendsBuffer_append (e : Event Status) (sent bs : List Byte) (h : SendsBuffer crc (e, sent)) :
    SendsBuffer crc (e, sent ++ bs) := by
  cases e with
  | readData fileIdx offset len data res =>
    obtain ⟨buf, ender, rest, hfilled, hbuf, hender, rfl⟩ := h
    exact ⟨buf, ender, rest ++ bs, hfilled, hbuf, hender, List.append_assoc ..⟩
  | write _ | onFileStart _ _ | onData _ _ _ _ | onFileEnd _ _ | getFileInfo _ => trivial

theorem sends_writes {log : List (Event Status)} (h : ∀ seg ∈ segments log, SendsBuffer crc seg)
    (bs : List Byte) : ∀ seg ∈ segments (log ++ writeBytes bs), SendsBuffer crc seg :=
  forall_segments_append_writes (fun e sent => sendsBuffer_append e sent bs) h

variable {cbs}

theorem sendChunks_inside (crc : CrcService) (cbs : TxCallbacks υ) {v : TxLocals υ}
    {dataBuf : List Byte} {fileOffset : ℕ} (hbuf : dataBuf.length = 1024) (hlt : fileOffset < v.info.size) :
    ∃ len data res buf ender dataBuf' u, 0 < len ∧ Filled len data res buf ∧ buf.length ≤ 1024 ∧
      IsEnder ender ∧ dataBuf'.length = 1024 ∧
      (sendChunks crc cbs v dataBuf fileOffset).1 =
        .readData v.fileIdx fileOffset len data res :: writeBytes (subpacket crc buf ender) ++
          (sendChunks crc cbs { v with userData := u } dataBuf' (fileOffset + len)).1 := by
  have hlen : (if v.info.size - fileOffset > 1024 then 1024 else v.info.size - fileOffset) ≤ 1024 ∧
      0 < (if v.info.size - fileOffset > 1024 then 1024 else v.info.size - fileOffset) := by
    split <;> omega
  rw [sendChunks, if_pos hlt]
  simp only
  generalize (if v.info.size - fileOffset > 1024 then 1024 else v.info.size - fileOffset) = len at hlen
  obtain ⟨buf, dataBuf', hfilled, hbuf, hbuf', htake, rfl⟩ :=
    filled_chunk cbs v hbuf fileOffset hlen.1
  rw [htake]
  have hender : IsEnder (if fileOffset + len ≥ v.info.size then zcrcw else zcrcg) := by
    split
    · exact .inr rfl
    · exact .inl rfl
  exact ⟨len, _, _, buf, _, _, _, hlen.2, hfilled, hbuf, hender, hbuf', rfl⟩

theorem sendChunks_sends (cbs : TxCallbacks υ) (v : TxLocals υ) (dataBuf : List Byte) (fileOffset : ℕ)
    (hbuf : dataBuf.length = 1024) {log : List (Event Status)}
    (h : ∀ seg ∈ segments log, SendsBuffer crc seg) :
    ∀ seg ∈ segments (log ++ (sendChunks crc cbs v dataBuf fileOffset).1), SendsBuffer crc seg := by
  -- on the bytes left
  induction hleft : v.info.size - fileOffset using Nat.strongRecOn
    generalizing v dataBuf fileOffset log with
  | ind left ih =>
    by_cases hlt : fileOffset < v.info.size
    · obtain ⟨len, data, res, buf, ender, dataBuf', u, hpos, hfilled, hsize, hender, hbuf',
          hsend⟩ :=
        sendChunks_inside crc cbs hbuf hlt
      have hsubpacket : SendsBuffer crc
          (.readData v.fileIdx fileOffset len data res, subpacket crc buf ender) :=
        ⟨buf, ender, [], hfilled, hsize, hender, (List.append_nil _).symm⟩
      have hlog := forall_segments_append_call (isCall_readData _ _ _ _ _) hsubpacket h
      rw [hsend, ← List.append_assoc]
      exact ih (v.info.size - (fileOffset + len)) (by omega) { v with userData := u } dataBuf'
        (fileOffset + len) hbuf' hlog rfl
    · rw [sendChunks, if_neg hlt, List.append_nil]
      exact h

/-- `sendFile` from the position on. -/
def sendFrom {υ : Type} (crc : CrcService) (uninit : ℕ → Byte) (cbs : TxCallbacks υ) (v : TxLocals υ)
    (fileOffset : ℕ) : TxOut υ :=
  let (sent, userData) := sendChunks crc cbs v ((List.range 1024).map uninit) fileOffset
  ⟨writeBytes (binaryHeader crc zdata (posFlags fileOffset)) ++ sent ++
      sendHexHeaderTx crc zeof (posFlags v.info.size),
    .wait (.nextZrinit { v with userData } .pad)⟩

-- the position as `flagsPos` computes it must not be evaluated
theorem sendFile_eq_sendFrom (v : TxLocals υ) (flags : List Byte) :
    sendFile P crc uninit cbs v flags = sendFrom crc uninit cbs v (flagsPos P flags) := rfl

theorem sendFrom_sends (v : TxLocals υ) (pos : ℕ) {log : List (Event Status)}
    (h : ∀ seg ∈ segments log, SendsBuffer crc seg) :
    ∀ seg ∈ segments (log ++ (sendFrom crc uninit cbs v pos).events), SendsBuffer crc seg := by
  have hbuf : ((List.range 1024).map uninit).length = 1024 := by
    rw [List.length_map, List.length_range]
  have hheader := sends_writes h (binaryHeader crc zdata (posFlags pos))
  have hchunks := sendChunks_sends cbs v _ pos hbuf hheader
  have hend := sends_writes hchunks (hexHeader crc zeof (posFlags v.info.size))
  rw [List.append_assoc, List.append_assoc, ← List.append_assoc (writeBytes _)] at hend
  exact hend

theorem nextFile_sends (idx : ℕ) (u : υ) {log : List (Event Status)}
    (h : ∀ seg ∈ segments log, SendsBuffer crc seg) :
    ∀ seg ∈ segments (log ++ (nextFile crc cbs idx u).events), SendsBuffer crc seg := by
  have hcall : ∀ bs : List Byte, ∀ seg ∈ segments (log ++ .getFileInfo idx :: writeBytes bs),
      SendsBuffer crc seg := by
    intro bs
    exact forall_segments_append_call (isCall_getFileInfo idx) trivial h
  unfold nextFile
  simp only
  split
  · exact hcall _
  · exact hcall _

theorem transmitStep_sends (log : List (Event Status)) (s : TxSite υ) (r : Read)
    (h : ∀ seg ∈ segments log, SendsBuffer crc seg) :
    ∀ seg ∈ segments (log ++ (transmitStep P crc uninit cbs s r).events), SendsBuffer crc seg := by
  have hquiet : ∀ seg ∈ segments (log ++ []), SendsBuffer crc seg := by
    rwa [List.append_nil]
  cases s with
  | zrinit hs u =>
    unfold transmitStep txContinueAt
    simp only
    split
    · exact hquiet
    · split
      · exact nextFile_sends 0 u h
      · exact hquiet
  | zfin hs =>
    unfold transmitStep txContinueAt
    simp only
    split
    · exact hquiet
    · split
      · exact sends_writes h [0x4F, 0x4F]
      · exact hquiet
  | zrpos v hs =>
    unfold transmitStep txContinueAt
    simp only
    split
    · exact hquiet
    · split
      · split
        · rw [sendFile_eq_sendFrom]
          exact sendFrom_sends uninit v _ h
        · exact hquiet
      · exact hquiet
  | nextZrinit v hs =>
    unfold transmitStep txContinueAt
    simp only
    split
    · exact hquiet
    · split
      · exact nextFile_sends _ _ h
      · exact hquiet

variable (crc cbs)

theorem transmitted_sends (userData : υ) (reads : List Read) :
    ∀ seg ∈ segments (transmitted P crc uninit cbs userData reads).events, SendsBuffer crc seg := by
  have hinit : ∀ seg ∈ segments (zmodemTransmit crc userData).events, SendsBuffer crc seg := by
    intro seg hseg
    have hnone := (append_writes_of_segments_nil (κ := Status) segments_nil
      (hexHeader crc zrqinit zeroFlags)).2
    rw [List.nil_append] at hnone
    rw [zmodemTransmit, sendHexHeaderTx, hnone] at hseg
    cases hseg
  exact trace_invariant (transmitStep P crc uninit cbs)
    (fun log _ => ∀ seg ∈ segments log, SendsBuffer crc seg) (fun _ _ => True)
    (fun log s r _ => transmitStep_sends P uninit log s r) _ reads _ (fun _ _ => trivial) hinit

/-- What is sent for the file was read exactly when every `read_data` returned as
much as it was asked for. -/
theorem supplied_iff_readsWhole (userData : υ) (reads : List Read) :
    Supplied (payloads crc) (transmitted P crc uninit cbs userData reads).events ↔
      ReadsWhole (transmitted P crc uninit cbs userData reads).events := by
  apply supplied_iff_readsWhole_of_filled
  intro fileIdx offset len data res sent hseg
  obtain ⟨buf, ender, rest, hfilled, hbuf, hender, hsent⟩ :=
    transmitted_sends P crc uninit cbs userData reads _ hseg
  have hpayloads : payloads crc sent = [buf] := by
    rw [hsent, payloads, parse_subpacket crc 1024 buf rest ender hender hbuf]
  rw [hpayloads]
  exact ⟨buf, hfilled, List.mem_singleton_self _, fun _ h => List.mem_singleton.mp h⟩

end Transmit

end ZephyrModem.Zmodem
