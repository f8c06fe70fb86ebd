import ZephyrModem.Xmodem.Model

/-!
# The receiver on one packet

What `xmodem_receive` does with the bytes of a packet, from one packet boundary
to the next: it is silent until the last byte, and then either hands the
payload to step 2h or rejects the packet and drains the line.
-/

namespace ZephyrModem.Xmodem
open ZephyrModem.Reactive

/-- The bytes of a packet as they come off the line, damaged or not. -/
structure RawPacket where
  header : Byte
  blkNum : Byte
  blkNumInv : Byte
  payload : List Byte
  check : List Byte
  deriving Repr, DecidableEq

namespace RawPacket

def bytes (p : RawPacket) : List Byte :=
  p.header :: p.blkNum :: p.blkNumInv :: (p.payload ++ p.check)

/-- Payload length announced by the header byte. -/
def blockLen (p : RawPacket) : ℕ := if p.header = soh then blockSize128 else blockSize1024

/-- The packet has the shape its header and the check mode announce. -/
structure Framed (crcMode : Bool) (p : RawPacket) : Prop where
  header : p.header = soh ∨ p.header = stx
  payload : p.payload.length = p.blockLen
  check : p.check.length = if crcMode then 2 else 1

/-- The tests of steps 2e and 2g. -/
def Verified (crc : CrcService) (crcMode : Bool) (p : RawPacket) : Prop :=
  p.blkNum + p.blkNumInv = 0xFF ∧ p.check = checkBytes crc crcMode p.payload

instance (crc : CrcService) (crcMode : Bool) (p : RawPacket) :
    Decidable (p.Verified crc crcMode) := inferInstanceAs (Decidable (_ ∧ _))

theorem bytes_length (p : RawPacket) : p.bytes.length = 3 + p.payload.length + p.check.length := by
  simp only [bytes, List.length_cons, List.length_append]
  omega

theorem blockLen_pos (p : RawPacket) : 0 < p.blockLen := by
  unfold blockLen
  split <;> decide

theorem Framed.payload_ne_nil {crcMode : Bool} {p : RawPacket} (hp : p.Framed crcMode) :
    p.payload ≠ [] := by
  intro h
  have hlen := hp.payload
  have hpos := p.blockLen_pos
  rw [h, List.length_nil] at hlen
  omega

end RawPacket

/-- The reads between the header and the end of a packet. -/
def RxSite.InPacket : RxSite → Prop
  | .blkNum _ | .blkNumInv _ _ | .payload _ _ _ | .crcHi _ _ | .crcLo _ _ _ | .cksum _ _ => True
  | .header | .secondCan | .purge _ => False

/-- The first check read after a complete payload. -/
def checkSite (crcMode : Bool) (blkNum : Byte) (buf : List Byte) : RxSite :=
  if crcMode then .crcHi blkNum buf else .cksum blkNum buf

theorem checkSite_inPacket (crcMode : Bool) (blkNum : Byte) (buf : List Byte) :
    (checkSite crcMode blkNum buf).InPacket := by
  cases crcMode <;> trivial

variable {υ : Type} (P : Platform) (crc : CrcService) (cbs : RxCallbacks υ) (cfg : Config)

theorem feed_rxAt (s : RxState υ) (b : Byte) (site : RxSite) (v : RxLocals υ)
    (h : receiveStep P crc cbs cfg s (.ok b) = rxAt site v) (bs : List Byte) :
    feed (receiveStep P crc cbs cfg) (.wait s) (b :: bs) = feed (receiveStep P crc cbs cfg) (.wait ⟨site, v⟩) bs := by
  rw [feed_cons, h]
  rfl

theorem feed_purge (bad : Bool) (v : RxLocals υ) (bs : List Byte) :
    feed (receiveStep P crc cbs cfg) (.wait ⟨.purge bad, v⟩) bs = ⟨[], .wait ⟨.purge bad, v⟩⟩ := by
  induction bs with
  | nil => exact feed_nil (receiveStep P crc cbs cfg) _
  | cons b bs ih =>
    rw [feed_rxAt P crc cbs cfg ⟨.purge bad, v⟩ b (.purge bad) v rfl]
    exact ih

theorem feed_header (v : RxLocals υ) (p : RawPacket) (hp : p.header = soh ∨ p.header = stx)
    (bs : List Byte) :
    feed (receiveStep P crc cbs cfg) (.wait ⟨.header, v⟩) (p.header :: bs) =
      feed (receiveStep P crc cbs cfg) (.wait ⟨.blkNum p.blockLen, v⟩) bs := by
  have hstep : receiveStep P crc cbs cfg ⟨.header, v⟩ (.ok p.header) = rxAt (.blkNum p.blockLen) v := by
    rcases hp with h | h <;> simp [receiveStep, headerByte, RawPacket.blockLen, h, soh, stx, eot, can]
  exact feed_rxAt P crc cbs cfg _ _ _ _ hstep bs

theorem feed_numbers (v : RxLocals υ) (len : ℕ) (n inv : Byte) (bs : List Byte) :
    feed (receiveStep P crc cbs cfg) (.wait ⟨.blkNum len, v⟩) (n :: inv :: bs) =
      if n + inv = 0xFF then feed (receiveStep P crc cbs cfg) (.wait ⟨.payload len n [], v⟩) bs
      else ⟨[], .wait ⟨.purge false, v⟩⟩ := by
  rw [feed_rxAt P crc cbs cfg ⟨.blkNum len, v⟩ n (.blkNumInv len (.ok n)) v rfl]
  by_cases h : n + inv = 0xFF
  · rw [if_pos h]
    refine feed_rxAt P crc cbs cfg _ _ _ _ ?_ bs
    simp [receiveStep, checkNumbers, h]
  · rw [if_neg h, feed_rxAt P crc cbs cfg ⟨.blkNumInv len (.ok n), v⟩ inv (.purge false) v]
    · exact feed_purge P crc cbs cfg false v bs
    · simp [receiveStep, checkNumbers, h, rejectPacket]

theorem feed_payload_part (v : RxLocals υ) (len : ℕ) (n : Byte) (buf bs : List Byte)
    (h : buf.length + bs.length < len) :
    feed (receiveStep P crc cbs cfg) (.wait ⟨.payload len n buf, v⟩) bs =
      ⟨[], .wait ⟨.payload len n (buf ++ bs), v⟩⟩ := by
  induction bs generalizing buf with
  | nil => rw [List.append_nil, feed_nil]
  | cons b bs ih =>
    have hlt : (buf ++ [b]).length < len := by
      simp only [List.length_append, List.length_cons, List.length_nil] at h ⊢
      omega
    rw [feed_rxAt P crc cbs cfg ⟨.payload len n buf, v⟩ b (.payload len n (buf ++ [b])) v]
    · rw [ih (buf ++ [b]) (by simp only [List.length_append, List.length_cons, List.length_nil] at h ⊢; omega)]
      simp
    · simp only [receiveStep, payloadByte, hlt, if_true]

theorem feed_payload (v : RxLocals υ) (len : ℕ) (n : Byte) (buf bs rest : List Byte)
    (h : buf.length + bs.length = len) (hne : bs ≠ []) :
    feed (receiveStep P crc cbs cfg) (.wait ⟨.payload len n buf, v⟩) (bs ++ rest) =
      feed (receiveStep P crc cbs cfg) (.wait ⟨checkSite v.crcMode n (buf ++ bs), v⟩) rest := by
  obtain ⟨init, b, rfl⟩ : ∃ init b, bs = init ++ [b] :=
    ⟨bs.dropLast, bs.getLast hne, (List.dropLast_append_getLast hne).symm⟩
  rw [List.length_append, List.length_singleton] at h
  rw [List.append_assoc, feed_append, feed_payload_part P crc cbs cfg v len n buf init (by omega)]
  rw [List.singleton_append, Out.after_nil]
  refine feed_rxAt P crc cbs cfg _ _ _ _ ?_ rest
  have hlen : ¬ (buf ++ init ++ [b]).length < len := by
    simp only [List.length_append, List.length_singleton]
    omega
  simp only [receiveStep, payloadByte, hlen, if_false, checkSite]
  rw [← List.append_assoc]
  cases v.crcMode <;> rfl

theorem feed_check (v : RxLocals υ) (n : Byte) (buf chk : List Byte)
    (h : chk.length = if v.crcMode then 2 else 1) :
    feed (receiveStep P crc cbs cfg) (.wait ⟨checkSite v.crcMode n buf, v⟩) chk =
      if chk = checkBytes crc v.crcMode buf then acceptPacket P cbs v n buf
      else ⟨[], .wait ⟨.purge false, v⟩⟩ := by
  cases hm : v.crcMode with
  | true =>
    rw [hm] at h
    obtain ⟨hi, lo, rfl⟩ := List.length_eq_two.mp h
    have hiff : be16 hi lo = modemCrc16 crc buf ↔ [hi, lo] = checkBytes crc true buf := by
      simp [checkBytes, be16_eq_iff]
    simp only [checkSite, if_true]
    rw [feed_rxAt P crc cbs cfg ⟨.crcHi n buf, v⟩ hi (.crcLo n buf (.ok hi)) v rfl,
      feed_cons, feed_nil]
    by_cases hc : be16 hi lo = modemCrc16 crc buf
    · simp [receiveStep, checkCrc, hc, ← hiff, Out.after]
    · simp [receiveStep, checkCrc, hc, ← hiff, Out.after, rejectPacket, rxAt]
  | false =>
    rw [hm] at h
    obtain ⟨c, rfl⟩ := List.length_eq_one_iff.mp h
    simp only [checkSite, Bool.false_eq_true, if_false]
    rw [feed_cons, feed_nil]
    by_cases hc : c = modemChecksum8 buf
    · simp [receiveStep, checkCksum, hc, checkBytes, Out.after]
    · simp [receiveStep, checkCksum, hc, checkBytes, Out.after, rejectPacket, rxAt]

/-- Up to the check, a packet is read alike in both modes. -/
theorem feed_toCheck (v : RxLocals υ) {p : RawPacket} {c : Bool} (hp : p.Framed c)
    (hn : p.blkNum + p.blkNumInv = 0xFF) :
    feed (receiveStep P crc cbs cfg) (.wait ⟨.header, v⟩)
        (p.header :: p.blkNum :: p.blkNumInv :: p.payload) =
      ⟨[], .wait ⟨checkSite v.crcMode p.blkNum p.payload, v⟩⟩ := by
  rw [feed_header P crc cbs cfg v p hp.header, feed_numbers, if_pos hn]
  have hfeed := feed_payload P crc cbs cfg v p.blockLen p.blkNum [] p.payload []
    (by simpa using hp.payload) hp.payload_ne_nil
  rw [List.append_nil, List.nil_append] at hfeed
  rw [hfeed, feed_nil]

/-- A whole packet: step 2h if it passes every test, else the line is drained. -/
theorem feed_packet (v : RxLocals υ) (p : RawPacket) (hp : p.Framed v.crcMode) :
    feed (receiveStep P crc cbs cfg) (.wait ⟨.header, v⟩) p.bytes =
      if p.Verified crc v.crcMode then acceptPacket P cbs v p.blkNum p.payload
      else ⟨[], .wait ⟨.purge false, v⟩⟩ := by
  have hne : p.payload ≠ [] := hp.payload_ne_nil
  rw [RawPacket.bytes, feed_header P crc cbs cfg v p hp.header, feed_numbers]
  by_cases hn : p.blkNum + p.blkNumInv = 0xFF
  · rw [if_pos hn, feed_payload P crc cbs cfg v p.blockLen p.blkNum [] p.payload p.check
      (by simpa using hp.payload) hne]
    rw [List.nil_append, feed_check P crc cbs cfg v p.blkNum p.payload p.check hp.check]
    simp only [RawPacket.Verified, hn, true_and]
  · rw [if_neg hn, if_neg (fun h => hn h.1)]

theorem feed_packet_take (v : RxLocals υ) (p : RawPacket) (hp : p.Framed v.crcMode)
    (hn : p.blkNum + p.blkNumInv = 0xFF) (k : ℕ) (hk : k < p.bytes.length) (hpos : 0 < k) :
    ∃ site : RxSite, site.InPacket ∧
      feed (receiveStep P crc cbs cfg) (.wait ⟨.header, v⟩) (p.bytes.take k) = ⟨[], .wait ⟨site, v⟩⟩ := by
  have hne : p.payload ≠ [] := hp.payload_ne_nil
  rw [RawPacket.bytes_length] at hk
  obtain ⟨k, rfl⟩ : ∃ j, k = j + 1 := ⟨k - 1, by omega⟩
  rw [RawPacket.bytes, List.take_succ_cons, feed_header P crc cbs cfg v p hp.header]
  match k with
  | 0 => exact ⟨.blkNum p.blockLen, trivial, feed_nil (receiveStep P crc cbs cfg) _⟩
  | 1 =>
    refine ⟨.blkNumInv p.blockLen (.ok p.blkNum), trivial, ?_⟩
    rw [List.take_succ_cons, List.take_zero, feed_rxAt P crc cbs cfg
      ⟨.blkNum p.blockLen, v⟩ p.blkNum (.blkNumInv p.blockLen (.ok p.blkNum)) v rfl,
      feed_nil]
  | k + 2 =>
    rw [List.take_succ_cons, List.take_succ_cons, feed_numbers, if_pos hn]
    by_cases hlt : k < p.payload.length
    · rw [List.take_append_of_le_length (by omega)]
      refine ⟨.payload p.blockLen p.blkNum ([] ++ p.payload.take k), trivial, ?_⟩
      refine feed_payload_part P crc cbs cfg v p.blockLen p.blkNum [] (p.payload.take k) ?_
      have := hp.payload
      simp only [List.length_nil, List.length_take]
      omega
    · obtain ⟨j, rfl⟩ : ∃ j, k = p.payload.length + j := ⟨k - p.payload.length, by omega⟩
      rw [List.take_length_add_append, feed_payload P crc cbs cfg v p.blockLen p.blkNum [] p.payload _
        (by simpa using hp.payload) hne, List.nil_append]
      have hc := hp.check
      match j with
      | 0 =>
        rw [List.take_zero, feed_nil]
        exact ⟨_, checkSite_inPacket v.crcMode p.blkNum p.payload, rfl⟩
      | 1 =>
        cases hm : v.crcMode with
        | false =>
          rw [hm] at hc
          simp at hc
          omega
        | true =>
          rw [hm] at hc
          obtain ⟨hi, lo, hchk⟩ := List.length_eq_two.mp hc
          refine ⟨.crcLo p.blkNum p.payload (.ok hi), trivial, ?_⟩
          simp only [checkSite, if_true, hchk, List.take_succ_cons, List.take_zero]
          rw [feed_rxAt P crc cbs cfg ⟨.crcHi p.blkNum p.payload, v⟩ hi
            (.crcLo p.blkNum p.payload (.ok hi)) v rfl, feed_nil]
      | j + 2 =>
        exfalso
        split at hc <;> omega

/-- The next byte of a packet of which `j` bytes have been read: either more of
the packet follows, or it is complete and the tests decide. -/
theorem receiveStep_packet {v : RxLocals υ} {p : RawPacket} {j : ℕ} {x : RxState υ} {b : Byte}
    {rest q : List Byte} (hp : p.Framed v.crcMode) (hn : p.blkNum + p.blkNumInv = 0xFF)
    (hj : j < p.bytes.length)
    (hx : feed (receiveStep P crc cbs cfg) (.wait ⟨.header, v⟩) (p.bytes.take j) = ⟨[], .wait x⟩)
    (hq : p.bytes.drop j ++ rest = b :: q) :
    q = p.bytes.drop (j + 1) ++ rest ∧
    ((j + 1 < p.bytes.length ∧ ∃ site, receiveStep P crc cbs cfg x (.ok b) = rxAt site v ∧
        feed (receiveStep P crc cbs cfg) (.wait ⟨.header, v⟩) (p.bytes.take (j + 1)) = ⟨[], .wait ⟨site, v⟩⟩) ∨
      (j + 1 = p.bytes.length ∧ receiveStep P crc cbs cfg x (.ok b) =
        if p.Verified crc v.crcMode then acceptPacket P cbs v p.blkNum p.payload
        else ⟨[], .wait ⟨.purge false, v⟩⟩)) := by
  rw [List.drop_eq_getElem_cons hj, List.cons_append, List.cons.injEq] at hq
  obtain ⟨rfl, rfl⟩ := hq
  have hsnoc := feed_snoc (receiveStep P crc cbs cfg) hx p.bytes[j]
  rw [List.take_append_getElem hj] at hsnoc
  refine ⟨rfl, ?_⟩
  by_cases hlast : j + 1 < p.bytes.length
  · obtain ⟨site, -, hsite⟩ := feed_packet_take P crc cbs cfg v p hp hn (j + 1) hlast (by omega)
    exact .inl ⟨hlast, site, by rw [← hsnoc, hsite, rxAt], hsite⟩
  · have hfull : j + 1 = p.bytes.length := by omega
    refine .inr ⟨hfull, ?_⟩
    rw [← hsnoc, hfull, List.take_length, feed_packet P crc cbs cfg v p hp]

/-- The packet that `xmodem_transmit` sends, as the receiver sees it undamaged. -/
def sentPacket (crcMode : Bool) (blockNum : Byte) (payload : List Byte) : RawPacket where
  header := if payload.length = blockSize1024 then stx else soh
  blkNum := blockNum
  blkNumInv := ~~~blockNum
  payload := payload
  check := checkBytes crc crcMode payload

theorem sentPacket_bytes (crcMode : Bool) (blockNum : Byte) (payload : List Byte) :
    (sentPacket crc crcMode blockNum payload).bytes = packet crc crcMode blockNum payload := rfl

theorem checkBytes_length (crcMode : Bool) (payload : List Byte) :
    (checkBytes crc crcMode payload).length = if crcMode then 2 else 1 := by
  cases crcMode <;> rfl

theorem sentPacket_framed (crcMode : Bool) (blockNum : Byte) (payload : List Byte)
    (h : payload.length = blockSize128 ∨ payload.length = blockSize1024) :
    (sentPacket crc crcMode blockNum payload).Framed crcMode where
  header := by
    rcases h with h | h <;> simp [sentPacket, h, blockSize128, blockSize1024]
  payload := by
    rcases h with h | h <;>
      simp [sentPacket, RawPacket.blockLen, h, blockSize128, blockSize1024, soh, stx]
  check := checkBytes_length crc crcMode payload

theorem add_complement (n : Byte) : n + ~~~n = 0xFF := by
  apply UInt8.toNat_inj.mp
  have hn : n.toNat < 256 := n.toNat_lt
  simp
  omega

theorem sentPacket_verified (crcMode : Bool) (blockNum : Byte) (payload : List Byte) :
    (sentPacket crc crcMode blockNum payload).Verified crc crcMode :=
  ⟨add_complement blockNum, rfl⟩

end ZephyrModem.Xmodem
