import ZephyrModem.Xmodem.Line

/-!
# End-to-end agreement

The invariant of careful runs follows the frames in flight and the blocks that
will have been stored once they are read. Two scripted runs show what happens
to runs that are not careful.
-/

namespace ZephyrModem.Xmodem
open ZephyrModem.Reactive

/-! ### Frames in flight -/

section Frames

variable {υ : Type} (P : Platform) (crc : CrcService) (cbs : RxCallbacks υ)
  (tcfg rcfg : Config) (file : List Byte)

/-- The packets of the blocks `ks`, then `m` EOTs. -/
def frames (c : Bool) (m : ℕ) (ks : List ℕ) : List Byte :=
  ks.flatMap (filePacket crc tcfg file c) ++ List.replicate m eot

/-- Number of blocks stored once the packets of the blocks `ks` are read with `d`
blocks stored: each packet brings the next block or repeats the last one. -/
def absorb : ℕ → List ℕ → Option ℕ
  | d, [] => some d
  | d, k :: ks => if k = d then absorb (d + 1) ks else if k + 1 = d then absorb d ks else none

theorem absorb_snoc (d k : ℕ) (ks : List ℕ) :
    absorb d (ks ++ [k]) = (absorb d ks).bind fun e => absorb e [k] := by
  induction ks generalizing d with
  | nil => rfl
  | cons i ks ih =>
    rw [List.cons_append, absorb, absorb]
    split_ifs
    · exact ih (d + 1)
    · exact ih d
    · rfl

theorem absorb_le {d e : ℕ} {ks : List ℕ} (h : absorb d ks = some e) : d ≤ e := by
  induction ks generalizing d with
  | nil => simp_all [absorb]
  | cons k ks ih =>
    simp only [absorb] at h
    split_ifs at h
    · have := ih h
      omega
    · exact ih h

/-- The packet of block `k`, as the receiver sees it. -/
def blockPacket (c : Bool) (k : ℕ) : RawPacket :=
  sentPacket crc c (UInt8.ofNat (k + 1)) (fileBlock (txBlockSize tcfg) file k)

theorem blockPacket_bytes (c : Bool) (k : ℕ) :
    (blockPacket crc tcfg file c k).bytes = filePacket crc tcfg file c k := rfl

theorem blockPacket_framed (c : Bool) (k : ℕ) : (blockPacket crc tcfg file c k).Framed c := by
  refine sentPacket_framed crc c _ _ ?_
  rw [fileBlock_length]
  exact txBlockSize_cases tcfg

theorem blockPacket_verified (c : Bool) (k : ℕ) : (blockPacket crc tcfg file c k).Verified crc c :=
  sentPacket_verified crc c _ _

theorem blockPacket_length (c : Bool) (k : ℕ) :
    (blockPacket crc tcfg file c k).bytes.length = 3 + txBlockSize tcfg + if c then 2 else 1 := by
  rw [RawPacket.bytes_length, (blockPacket_framed crc tcfg file c k).check]
  simp [blockPacket, sentPacket]

/-- The receiver, with locals `v` at the last packet boundary, has part of the
first frame behind it; the rest of the frames is still in the stream. -/
def InFlight (c : Bool) (v : RxLocals υ) (m : ℕ) (rx : Next (RxState υ) RxResult)
    (toRx : List Byte) : List ℕ → Prop
  | [] => rx = .wait ⟨.header, v⟩ ∧ toRx = List.replicate m eot
  | k :: ks => ∃ j < (blockPacket crc tcfg file c k).bytes.length,
      feed (receiveStep P crc cbs rcfg) (.wait ⟨.header, v⟩) ((blockPacket crc tcfg file c k).bytes.take j) =
        ⟨[], rx⟩ ∧
      toRx = (blockPacket crc tcfg file c k).bytes.drop j ++ frames crc tcfg file c m ks

variable {P crc cbs tcfg rcfg file}
variable {c : Bool} {v : RxLocals υ} {m : ℕ} {rx : Next (RxState υ) RxResult} {toRx : List Byte}
  {ks : List ℕ}

theorem InFlight.boundary :
    InFlight P crc cbs tcfg rcfg file c v m (.wait ⟨.header, v⟩) (frames crc tcfg file c m ks) ks := by
  cases ks with
  | nil => exact ⟨rfl, by simp [frames]⟩
  | cons k ks =>
    refine ⟨0, ?_, by rw [List.take_zero, feed_nil], ?_⟩
    · rw [blockPacket_length]
      omega
    · simp [frames, blockPacket_bytes]

theorem InFlight.send_packet (h : InFlight P crc cbs tcfg rcfg file c v 0 rx toRx ks) (k : ℕ) :
    InFlight P crc cbs tcfg rcfg file c v 0 rx (toRx ++ filePacket crc tcfg file c k) (ks ++ [k]) := by
  cases ks with
  | nil =>
    obtain ⟨rfl, rfl⟩ := h
    have hfirst : InFlight P crc cbs tcfg rcfg file c v 0 (.wait ⟨.header, v⟩)
        (frames crc tcfg file c 0 [k]) [k] := InFlight.boundary
    simpa [frames] using hfirst
  | cons i ks =>
    obtain ⟨j, hj, hfeed, rfl⟩ := h
    exact ⟨j, hj, hfeed, by simp [frames]⟩

theorem InFlight.send_eot (h : InFlight P crc cbs tcfg rcfg file c v m rx toRx ks) :
    InFlight P crc cbs tcfg rcfg file c v (m + 1) rx (toRx ++ [eot]) ks := by
  cases ks with
  | nil =>
    obtain ⟨rfl, rfl⟩ := h
    exact ⟨rfl, by rw [List.replicate_succ']⟩
  | cons i ks =>
    obtain ⟨j, hj, hfeed, rfl⟩ := h
    exact ⟨j, hj, hfeed, by simp [frames, List.replicate_succ']⟩

theorem receiving_of_inPacket {site : RxSite} (h : site.InPacket) :
    Receiving (.wait ⟨site, v⟩ : Next (RxState υ) RxResult) := by
  cases site <;> simp_all [RxSite.InPacket, Receiving]

theorem receiving_of_take {p : RawPacket} {j : ℕ} (hp : p.Framed v.crcMode)
    (hn : p.blkNum + p.blkNumInv = 0xFF) (hj : j < p.bytes.length) (hpos : 0 < j)
    (hfeed : feed (receiveStep P crc cbs rcfg) (.wait ⟨.header, v⟩) (p.bytes.take j) = ⟨[], rx⟩) :
    Receiving rx := by
  obtain ⟨site, hsite, hf⟩ := feed_packet_take P crc cbs rcfg v p hp hn j hj hpos
  rw [hf, Out.mk.injEq] at hfeed
  rw [← hfeed.2]
  exact receiving_of_inPacket hsite

/-- A read that times out with an idle line happens at a packet boundary. -/
theorem InFlight.header_of_timeout (h : InFlight P crc cbs tcfg rcfg file c v m rx toRx ks)
    (hc : v.crcMode = c) (hidle : Receiving rx → toRx = []) :
    rx = .wait ⟨.header, v⟩ ∧ toRx = frames crc tcfg file c m ks := by
  cases ks with
  | nil => exact ⟨h.1, by simp [frames, h.2]⟩
  | cons k ks =>
    subst hc
    obtain ⟨j, hj, hfeed, rfl⟩ := h
    rcases Nat.eq_zero_or_pos j with rfl | hpos
    · rw [List.take_zero, feed_nil, Out.mk.injEq] at hfeed
      exact ⟨hfeed.2.symm, by simp [frames, blockPacket_bytes]⟩
    · have hrec := receiving_of_take (blockPacket_framed crc tcfg file v.crcMode k)
        (blockPacket_verified crc tcfg file v.crcMode k).1 hj hpos hfeed
      have := congrArg List.length (hidle hrec)
      simp only [List.length_append, List.length_drop, List.length_nil] at this
      omega

theorem InFlight.waits (h : InFlight P crc cbs tcfg rcfg file c v m rx toRx ks)
    (hc : v.crcMode = c) : ∃ x, rx = .wait x := by
  cases ks with
  | nil => exact ⟨_, h.1⟩
  | cons k ks =>
    subst hc
    obtain ⟨j, hj, hfeed, -⟩ := h
    rcases Nat.eq_zero_or_pos j with rfl | hpos
    · rw [List.take_zero, feed_nil, Out.mk.injEq] at hfeed
      exact ⟨_, hfeed.2.symm⟩
    · obtain ⟨site, -, hf⟩ := feed_packet_take P crc cbs rcfg v _
        (blockPacket_framed crc tcfg file v.crcMode k)
        (blockPacket_verified crc tcfg file v.crcMode k).1 j hj hpos
      rw [hf, Out.mk.injEq] at hfeed
      exact ⟨_, hfeed.2.symm⟩

/-- One byte read: EOT at the end of the stream, part of a packet, or its last byte. -/
theorem InFlight.read {x : RxState υ} {b : Byte} {q : List Byte}
    (h : InFlight P crc cbs tcfg rcfg file c v m (.wait x) (b :: q) ks) (hc : v.crcMode = c) :
    (ks = [] ∧ receiveStep P crc cbs rcfg x (.ok b) =
      ⟨sendByte ack, .done ⟨.ok, some v.totalBytes⟩⟩) ∨
    (∃ site, receiveStep P crc cbs rcfg x (.ok b) = rxAt site v ∧
      InFlight P crc cbs tcfg rcfg file c v m (.wait ⟨site, v⟩) q ks) ∨
    ∃ k ks', ks = k :: ks' ∧ q = frames crc tcfg file c m ks' ∧
      receiveStep P crc cbs rcfg x (.ok b) =
        acceptPacket P cbs v (UInt8.ofNat (k + 1)) (fileBlock (txBlockSize tcfg) file k) := by
  subst hc
  cases ks with
  | nil =>
    obtain ⟨hx, hq⟩ := h
    rw [Next.wait.injEq] at hx
    subst hx
    have hb : b = eot := List.eq_of_mem_replicate (hq ▸ List.mem_cons_self ..)
    exact .inl ⟨rfl, by simp [receiveStep, headerByte, hb]⟩
  | cons k ks =>
    obtain ⟨j, hj, hfeed, hq⟩ := h
    obtain ⟨rfl, ⟨hlt, site, hstep, hsite⟩ | ⟨hlast, hstep⟩⟩ := receiveStep_packet P crc cbs rcfg
      (blockPacket_framed crc tcfg file v.crcMode k) (blockPacket_verified crc tcfg file v.crcMode k).1
      hj hfeed hq.symm
    · exact .inr (.inl ⟨site, hstep, j + 1, hlt, hsite, rfl⟩)
    · refine .inr (.inr ⟨k, ks, rfl, by simp [hlast], ?_⟩)
      rw [hstep, if_pos (blockPacket_verified crc tcfg file v.crcMode k)]
      rfl

end Frames

/-! ### The invariant -/

section Invariant

variable {υ : Type} (P : Platform) (crc : CrcService) (cbs : RxCallbacks υ)
  (tcfg rcfg : Config) (file : List Byte)

/-- The receiver has stored the first `d` blocks; `v` are its locals. -/
structure Holds (c : Bool) (d : ℕ) (v : RxLocals υ) (stored : List (List Byte)) : Prop where
  stored : stored = (List.range d).map (fileBlock (txBlockSize tcfg) file)
  expected : v.expectedBlock = UInt8.ofNat (d + 1)
  total : v.totalBytes = d * txBlockSize tcfg
  req : d = 0 → v.req ≠ ack
  check : v.crcMode = c

/-- What careful runs keep. `d` blocks are stored, and `e` will be once the
stream is read; the transmitter waits for the reply to block `n`. -/
inductive Inv : View υ → Prop
  | failedTx {w : View υ} {st : Status} : w.tx = .done st → st ≠ .ok → Inv w
  | failedRx {w : View υ} {r : RxResult} : w.rx = .done r → r.status ≠ .ok → Inv w
  | complete {w : View υ} {r : RxResult} : w.rx = .done r →
      w.stored = fileBlocks (txBlockSize tcfg) file → Inv w
  /-- The transmitter waits for the start byte. -/
  | waiting {w : View υ} {v : RxLocals υ} {r : Byte} : w.tx = .wait (.start r 0) →
      w.rx = .wait ⟨.header, v⟩ → w.toRx = [] → ack ∉ w.toTx →
      Holds tcfg file v.crcMode 0 v w.stored → Inv w
  /-- Only whole undamaged packets are in flight. No ACK is, if block `n` has
  been lost or nothing has been stored. -/
  | sending {w : View υ} {v : RxLocals υ} {c : Bool} {d e n : ℕ} {ks : List ℕ} {r : Byte} :
      w.tx = .wait (txReply tcfg file c n r) → n < blockCount (txBlockSize tcfg) file →
      Holds tcfg file c d v w.stored → InFlight P crc cbs tcfg rcfg file c v 0 w.rx w.toRx ks →
      absorb d ks = some e → (e = n + 1 ∨ e = n ∧ ks = [] ∧ ack ∉ w.toTx) →
      (0 < d ∨ n = 0 ∧ ack ∉ w.toTx) → Inv w
  /-- All blocks are acknowledged. -/
  | ending {w : View υ} {v : RxLocals υ} {c : Bool} {d m : ℕ} {ks : List ℕ} :
      ((∃ r, w.tx = .wait (.eotReply r)) ∨ w.tx = .done .ok) → Holds tcfg file c d v w.stored →
      InFlight P crc cbs tcfg rcfg file c v m w.rx w.toRx ks →
      absorb d ks = some (blockCount (txBlockSize tcfg) file) → 0 < d → Inv w
  /-- A damaged packet of block `n` is in flight, and no ACK. -/
  | rejecting {w : View υ} {v : RxLocals υ} {c : Bool} {d n i j : ℕ} {bad : RawPacket}
      {rest : List Byte} {r : Byte} :
      w.tx = .wait (txReply tcfg file c n r) → n < blockCount (txBlockSize tcfg) file →
      Holds tcfg file c d v w.stored → (d = n ∨ d = n + 1) → ack ∉ w.toTx →
      Damaged crc c (blockPacket crc tcfg file c n) bad → j < bad.bytes.length →
      feed (receiveStep P crc cbs rcfg) (.wait ⟨.header, v⟩) (bad.bytes.take j) = ⟨[], w.rx⟩ →
      w.toRx = bad.bytes.drop j ++ rest → rest.length = i * bad.bytes.length → Inv w
  /-- The receiver drains the line after a damaged packet. -/
  | purging {w : View υ} {v : RxLocals υ} {c : Bool} {d n : ℕ} {r : Byte} :
      w.tx = .wait (txReply tcfg file c n r) → n < blockCount (txBlockSize tcfg) file →
      Holds tcfg file c d v w.stored → (d = n ∨ d = n + 1) → ack ∉ w.toTx →
      w.rx = .wait ⟨.purge false, v⟩ → Inv w

variable {P crc cbs tcfg rcfg file}

/-- A time-out at a packet boundary changes only how the receiver asks. -/
theorem Holds.timeout (rcfg : Config) {c : Bool} {d : ℕ} {v : RxLocals υ} {stored : List (List Byte)}
    (h : Holds tcfg file c d v stored) :
    (∃ es st, st ≠ .ok ∧ headerTimeout rcfg v = rxFail es st) ∨
    ∃ b v', b ≠ ack ∧ headerTimeout rcfg v = ⟨sendByte b, .wait ⟨.header, v'⟩⟩ ∧
      Holds tcfg file v'.crcMode d v' stored ∧ (0 < d → v'.crcMode = c) := by
  have hbs := txBlockSize_pos tcfg
  rcases headerTimeout_cases rcfg v with he | ⟨c', q, hcq, he⟩
  · exact .inl ⟨_, .errorTimeout, by decide, he⟩
  · have htot : d ≠ 0 → v.totalBytes ≠ 0 := by
      intro hd
      rw [h.total]
      exact Nat.mul_ne_zero hd (by omega)
    have hq : d = 0 → q ≠ ack := by
      intro hd
      rcases hcq with ⟨-, rfl⟩ | ⟨-, rfl, -⟩
      · exact h.req hd
      · decide
    refine .inr ⟨_, _, ?_, he, ⟨h.stored, h.expected, h.total, hq, rfl⟩, ?_⟩
    · split
      · rename_i h0
        exact hq (by
          by_contra hd
          exact htot hd h0)
      · decide
    · intro hd
      rcases hcq with ⟨rfl, -⟩ | ⟨-, -, h0⟩
      · exact h.check
      · exact absurd h0 (htot (by omega))

/-- Step 2h on the first packet of the stream stores its block, acknowledges a
repetition, or fails; what the stream will bring is unchanged. -/
theorem Holds.accept (cbs : RxCallbacks υ) {c : Bool} {d e k : ℕ} {ks : List ℕ} {v : RxLocals υ}
    {stored : List (List Byte)} (h : Holds tcfg file c d v stored)
    (ha : absorb d (k :: ks) = some e) (he : e * txBlockSize tcfg < P.sizeMod) :
    let o := acceptPacket P cbs v (UInt8.ofNat (k + 1)) (fileBlock (txBlockSize tcfg) file k)
    (∃ es st, st ≠ .ok ∧ o = rxFail es st) ∨
    ∃ d' v', 0 < d' ∧ o.next = .wait ⟨.header, v'⟩ ∧ o.events.filterMap Event.wire = [ack] ∧
      Holds tcfg file c d' v' (stored ++ delivered o.events) ∧ absorb d' ks = some e := by
  intro o
  have hne : UInt8.ofNat (d + 1) ≠ UInt8.ofNat d := by simp
  rw [absorb] at ha
  rcases acceptPacket_cases P cbs v (UInt8.ofNat (k + 1)) (fileBlock (txBlockSize tcfg) file k)
    with ⟨hn, -, hacc⟩ | ⟨hn, -, hacc⟩ | ⟨es, st, hst, hacc⟩
  · right
    rw [h.expected] at hn
    split_ifs at ha with hk hk
    · subst hk
      have hle : (k + 1) * txBlockSize tcfg ≤ e * txBlockSize tcfg :=
        Nat.mul_le_mul_right _ (absorb_le ha)
      simp only [o, hacc]
      refine ⟨k + 1, _, by omega, rfl, rfl, ⟨?_, ?_, ?_, by simp, h.check⟩, ha⟩
      · simp [h.stored, List.range_succ]
      · simp only [h.expected]
        rw [UInt8.ofNat_add (k + 1) 1]
        rfl
      · simp only [h.total, fileBlock_length, ← Nat.succ_mul]
        exact P.toSize_of_lt (Nat.lt_of_le_of_lt hle he)
    · subst hk
      exact absurd hn.symm hne
  · right
    rw [h.expected] at hn
    split_ifs at ha with hk hk
    · subst hk
      exact absurd rfl hn
    · subst hk
      simp only [o, hacc]
      exact ⟨k + 1, v, by omega, rfl, rfl, by simpa using h, ha⟩
  · refine .inl ⟨es, st, ?_, hacc⟩
    rcases hst with rfl | rfl <;> decide

/-! ### The transmitter reacts -/

theorem Inv.tx_waiting {w : View υ} {v : RxLocals υ} {r : Byte} (i : Read) {q : List Byte}
    (hrx : w.rx = .wait ⟨.header, v⟩) (hrest : w.toRx = []) (hno : ack ∉ q)
    (hd : Holds tcfg file v.crcMode 0 v w.stored) (hfile : 0 < file.length)
    (hsame : ∀ c, (txStep P crc tcfg file (.start r 0) i).next = .wait (txReply tcfg file c 0 0) →
      v.crcMode = c) :
    Inv P crc cbs tcfg rcfg file (w.afterTx (txStep P crc tcfg file (.start r 0) i) q) := by
  rcases txStart_cases P crc tcfg file r i hfile with ⟨c, ho⟩ | ho | ⟨es, st, hst, ho⟩
  · obtain rfl : v.crcMode = c := hsame c (by rw [ho])
    have hfly : InFlight P crc cbs tcfg rcfg file v.crcMode v 0 (.wait ⟨.header, v⟩)
        (frames crc tcfg file v.crcMode 0 [0]) [0] := InFlight.boundary
    have hlt : 0 < blockCount (txBlockSize tcfg) file := by
      rw [lt_blockCount_iff (txBlockSize_pos tcfg)]
      omega
    have htoRx : (w.afterTx (txStep P crc tcfg file (.start r 0) i) q).toRx =
        frames crc tcfg file v.crcMode 0 [0] := by
      simp [View.afterTx, ho, hrest, frames, fileCall]
    rw [← htoRx, ← hrx] at hfly
    exact .sending (e := 1) (by rw [View.afterTx, ho]) hlt hd hfly rfl (.inl rfl) (.inr ⟨rfl, hno⟩)
  · exact .waiting (by rw [View.afterTx, ho]) hrx (by simp [View.afterTx, ho, hrest]) hno hd
  · exact .failedTx (by rw [View.afterTx, ho]) hst

/-- An ACK stands for a stored block: the next one is sent, or EOT after the last.
Anything else sends the block again. -/
theorem Inv.tx_sending {w : View υ} {v : RxLocals υ} {c : Bool} {d e n : ℕ} {ks : List ℕ} {r : Byte}
    {i : Read} {q : List Byte} (hn : n < blockCount (txBlockSize tcfg) file)
    (hd : Holds tcfg file c d v w.stored)
    (hfly : InFlight P crc cbs tcfg rcfg file c v 0 w.rx w.toRx ks) (habs : absorb d ks = some e)
    (he : e = n + 1 ∨ e = n ∧ ks = [] ∧ ack ∉ w.toTx) (hd0 : 0 < d ∨ n = 0 ∧ ack ∉ w.toTx)
    (hsub : ack ∈ q → ack ∈ w.toTx) (hi : i = .ok ack → ack ∈ w.toTx)
    (hfit : blockCount (txBlockSize tcfg) file * txBlockSize tcfg < P.sizeMod) :
    Inv P crc cbs tcfg rcfg file
      (w.afterTx (txStep P crc tcfg file (txReply tcfg file c n r) i) q) := by
  rcases txReply_cases P crc tcfg file c n r i hn hfit with ⟨hack, hlt, ho⟩ | ⟨hack, hlast, ho⟩ |
    ⟨-, ho⟩ | ⟨es, st, hst, ho⟩
  · have hin := hi hack
    have he1 : e = n + 1 := by tauto
    have hpos : 0 < d := by tauto
    have habs' : absorb d (ks ++ [n + 1]) = some (n + 2) := by
      rw [absorb_snoc, habs, he1]
      simp [absorb]
    refine .sending (by rw [View.afterTx, ho]) hlt hd ?_ habs' (.inl rfl) (.inl hpos)
    simpa [View.afterTx, ho, fileCall] using hfly.send_packet (n + 1)
  · have hin := hi hack
    have he1 : e = n + 1 := by tauto
    have hpos : 0 < d := by tauto
    rw [he1, hlast] at habs
    refine .ending (m := 1) (.inl ⟨0, by rw [View.afterTx, ho]⟩) hd ?_ habs hpos
    simpa [View.afterTx, ho] using hfly.send_eot
  · have habs' : absorb d (ks ++ [n]) = some (n + 1) := by
      rw [absorb_snoc, habs]
      rcases he with rfl | ⟨rfl, -, -⟩ <;> simp [absorb]
    refine .sending (by rw [View.afterTx, ho]) hn hd ?_ habs' (.inl rfl) ?_
    · simpa [View.afterTx, ho] using hfly.send_packet n
    · exact hd0.imp_right (And.imp_right (mt hsub))
  · exact .failedTx (by rw [View.afterTx, ho]) hst

theorem Inv.tx_ending {w : View υ} {v : RxLocals υ} {c : Bool} {d m : ℕ} {ks : List ℕ} (r : Byte)
    (i : Read) (q : List Byte) (hd : Holds tcfg file c d v w.stored)
    (hfly : InFlight P crc cbs tcfg rcfg file c v m w.rx w.toRx ks)
    (habs : absorb d ks = some (blockCount (txBlockSize tcfg) file)) (hpos : 0 < d) :
    Inv P crc cbs tcfg rcfg file (w.afterTx (txStep P crc tcfg file (.eotReply r) i) q) := by
  rcases txEot_cases P crc tcfg file r i with ho | ho | ho
  · refine .ending (m := m) (.inr (by rw [View.afterTx, ho])) hd ?_ habs hpos
    simpa [View.afterTx, ho] using hfly
  · refine .ending (m := m + 1) (.inl ⟨r + 1, by rw [View.afterTx, ho]⟩) hd ?_ habs hpos
    simpa [View.afterTx, ho] using hfly.send_eot
  · exact .failedTx (by rw [View.afterTx, ho]) (by decide)

/-- Without an ACK the transmitter repeats the block or fails. -/
theorem txReply_unacked (P : Platform) (crc : CrcService) (c : Bool) {n : ℕ} {i : Read} (r : Byte)
    (hi : i ≠ .ok ack) (hn : n < blockCount (txBlockSize tcfg) file)
    (hfit : blockCount (txBlockSize tcfg) file * txBlockSize tcfg < P.sizeMod) :
    txStep P crc tcfg file (txReply tcfg file c n r) i =
        ⟨writeBytes (filePacket crc tcfg file c n), .wait (txReply tcfg file c n (r + 1))⟩ ∨
      ∃ es st, st ≠ .ok ∧ txStep P crc tcfg file (txReply tcfg file c n r) i = ⟨es, .done st⟩ := by
  rcases txReply_cases P crc tcfg file c n r i hn hfit with ⟨hack, -, -⟩ | ⟨hack, -, -⟩ | ⟨-, ho⟩ | ho
  · exact absurd hack hi
  · exact absurd hack hi
  · exact .inl ho
  · exact .inr ho

theorem Inv.tx_rejecting {w : View υ} {v : RxLocals υ} {c : Bool} {d n k j : ℕ} {bad : RawPacket}
    {rest q : List Byte} (r : Byte) {i : Read} (hn : n < blockCount (txBlockSize tcfg) file)
    (hd : Holds tcfg file c d v w.stored) (hdn : d = n ∨ d = n + 1) (hno : ack ∉ q)
    (hbad : Damaged crc c (blockPacket crc tcfg file c n) bad) (hj : j < bad.bytes.length)
    (hfeed : feed (receiveStep P crc cbs rcfg) (.wait ⟨.header, v⟩) (bad.bytes.take j) = ⟨[], w.rx⟩)
    (hrest : w.toRx = bad.bytes.drop j ++ rest) (hlen : rest.length = k * bad.bytes.length)
    (hi : i ≠ .ok ack) (hfit : blockCount (txBlockSize tcfg) file * txBlockSize tcfg < P.sizeMod) :
    Inv P crc cbs tcfg rcfg file
      (w.afterTx (txStep P crc tcfg file (txReply tcfg file c n r) i) q) := by
  rcases txReply_unacked P crc c r hi hn hfit with ho | ⟨es, st, hst, ho⟩
  · have htoRx : (w.afterTx (txStep P crc tcfg file (txReply tcfg file c n r) i) q).toRx =
        bad.bytes.drop j ++ (rest ++ filePacket crc tcfg file c n) := by
      simp [View.afterTx, ho, hrest]
    refine .rejecting (i := k + 1) (by rw [View.afterTx, ho]) hn hd hdn hno hbad hj hfeed htoRx ?_
    rw [List.length_append, hlen, ← blockPacket_bytes, Nat.add_mul, Nat.one_mul,
      RawPacket.bytes_length bad, hbad.payload, hbad.check, ← RawPacket.bytes_length]
  · exact .failedTx (by rw [View.afterTx, ho]) hst

/-- The transmitter's reaction to one read; the stream towards it loses the byte read. -/
theorem Inv.tx {w : View υ} (h : Inv P crc cbs tcfg rcfg file w) {x : TxSite ℕ} {i : Read}
    {q : List Byte} (hx : w.tx = .wait x) (hsub : ack ∈ q → ack ∈ w.toTx)
    (hi : i = .ok ack → ack ∈ w.toTx) (hfile : 0 < file.length)
    (hfit : blockCount (txBlockSize tcfg) file * txBlockSize tcfg < P.sizeMod)
    (hsame : ∀ c n r, (txStep P crc tcfg file x i).next = .wait (txReply tcfg file c n r) →
      ∀ y, w.rx = .wait y → y.locals.crcMode = c) :
    Inv P crc cbs tcfg rcfg file (w.afterTx (txStep P crc tcfg file x i) q) := by
  cases h with
  | failedTx htx =>
    rw [hx] at htx
    cases htx
  | failedRx hrx hst => exact .failedRx hrx hst
  | complete hrx hst => exact .complete hrx hst
  | @waiting v r htx hrx hrest hno hd =>
    rw [hx, Next.wait.injEq] at htx
    subst htx
    exact .tx_waiting i hrx hrest (mt hsub hno) hd hfile fun c ho => hsame c 0 0 ho _ hrx
  | sending htx hn hd hfly habs he hd0 =>
    rw [hx, Next.wait.injEq] at htx
    subst htx
    exact .tx_sending hn hd hfly habs he hd0 hsub hi hfit
  | ending htx hd hfly habs hpos =>
    rcases htx with ⟨r, htx⟩ | htx
    · rw [hx, Next.wait.injEq] at htx
      subst htx
      exact .tx_ending r i q hd hfly habs hpos
    · rw [hx] at htx
      cases htx
  | rejecting htx hn hd hdn hno hbad hj hfeed hrest hlen =>
    rw [hx, Next.wait.injEq] at htx
    subst htx
    exact .tx_rejecting _ hn hd hdn (mt hsub hno) hbad hj hfeed hrest hlen (mt hi hno) hfit
  | @purging v c d n r htx hn hd hdn hno hrx =>
    rw [hx, Next.wait.injEq] at htx
    subst htx
    rcases txReply_unacked P crc c r (mt hi hno) hn hfit with ho | ⟨es, st, hst, ho⟩
    · exact .purging (by rw [View.afterTx, ho]) hn hd hdn (mt hsub hno) hrx
    · exact .failedTx (by rw [View.afterTx, ho]) hst

/-! ### The receiver reads -/

theorem Damaged.framed {c : Bool} {n : ℕ} {bad : RawPacket}
    (h : Damaged crc c (blockPacket crc tcfg file c n) bad) :
    bad.Framed c ∧ bad.blkNum + bad.blkNumInv = 0xFF ∧
      bad.bytes.length = (blockPacket crc tcfg file c n).bytes.length := by
  have hp := blockPacket_framed crc tcfg file c n
  refine ⟨⟨?_, ?_, ?_⟩, ?_, ?_⟩
  · rw [h.header]
    exact hp.header
  · rw [h.payload, hp.payload, RawPacket.blockLen, RawPacket.blockLen, h.header]
  · rw [h.check, hp.check]
  · rw [h.blkNum, h.blkNumInv]
    exact (blockPacket_verified crc tcfg file c n).1
  · rw [RawPacket.bytes_length, RawPacket.bytes_length, h.payload, h.check]

/-- A byte between packets or inside one; the last byte of a packet hands its block over. -/
theorem Inv.rxRead_sending {w : View υ} {v : RxLocals υ} {x : RxState υ} {c : Bool} {d e n : ℕ}
    {ks : List ℕ} {r b : Byte} {q : List Byte} (htx : w.tx = .wait (txReply tcfg file c n r))
    (hn : n < blockCount (txBlockSize tcfg) file) (hd : Holds tcfg file c d v w.stored)
    (hfly : InFlight P crc cbs tcfg rcfg file c v 0 (.wait x) (b :: q) ks) (habs : absorb d ks = some e)
    (he : e = n + 1 ∨ e = n ∧ ks = [] ∧ ack ∉ w.toTx) (hd0 : 0 < d ∨ n = 0 ∧ ack ∉ w.toTx)
    (hfit : blockCount (txBlockSize tcfg) file * txBlockSize tcfg < P.sizeMod) :
    Inv P crc cbs tcfg rcfg file (w.afterRx (receiveStep P crc cbs rcfg x (.ok b)) q) := by
  rcases hfly.read hd.check with ⟨rfl, -⟩ | ⟨site, ho, hfly⟩ | ⟨k, ks', rfl, rfl, ho⟩
  · cases hfly.2
  · rw [ho]
    exact .sending htx hn (by simpa [View.afterRx, rxAt] using hd) hfly habs
      (by simpa [View.afterRx, rxAt] using he) (by simpa [View.afterRx, rxAt] using hd0)
  · have he1 : e = n + 1 := by
      rcases he with he | ⟨-, hks, -⟩
      · exact he
      · cases hks
    have hstored : e * txBlockSize tcfg < P.sizeMod :=
      Nat.lt_of_le_of_lt (Nat.mul_le_mul_right _ (by omega)) hfit
    rw [ho]
    rcases hd.accept cbs habs hstored with ⟨es, st, hst, hacc⟩ |
      ⟨d', v', hpos, hnext, hwire, hd', habs'⟩
    · exact .failedRx (by rw [View.afterRx, hacc]; rfl) hst
    · refine .sending htx hn hd' ?_ habs' (.inl he1) (.inl hpos)
      rw [View.afterRx, hnext]
      exact InFlight.boundary

theorem Inv.rxRead_ending {w : View υ} {v : RxLocals υ} {x : RxState υ} {c : Bool} {d m : ℕ}
    {ks : List ℕ} {b : Byte} {q : List Byte}
    (htx : (∃ r, w.tx = .wait (.eotReply r)) ∨ w.tx = .done .ok) (hd : Holds tcfg file c d v w.stored)
    (hfly : InFlight P crc cbs tcfg rcfg file c v m (.wait x) (b :: q) ks)
    (habs : absorb d ks = some (blockCount (txBlockSize tcfg) file)) (hpos : 0 < d)
    (hfit : blockCount (txBlockSize tcfg) file * txBlockSize tcfg < P.sizeMod) :
    Inv P crc cbs tcfg rcfg file (w.afterRx (receiveStep P crc cbs rcfg x (.ok b)) q) := by
  rcases hfly.read hd.check with ⟨rfl, ho⟩ | ⟨site, ho, hfly⟩ | ⟨k, ks', rfl, rfl, ho⟩
  · rw [absorb, Option.some.injEq] at habs
    refine .complete (by rw [View.afterRx, ho]) ?_
    simp [View.afterRx, ho, hd.stored, habs, fileBlocks]
  · rw [ho]
    exact .ending htx (by simpa [View.afterRx, rxAt] using hd) hfly habs hpos
  · rw [ho]
    rcases hd.accept cbs habs hfit with ⟨es, st, hst, hacc⟩ |
      ⟨d', v', hpos, hnext, hwire, hd', habs'⟩
    · exact .failedRx (by rw [View.afterRx, hacc]; rfl) hst
    · refine .ending (m := m) htx hd' ?_ habs' hpos
      rw [View.afterRx, hnext]
      exact InFlight.boundary

/-- A byte of the damaged packet; behind the last one the receiver drains the line. -/
theorem Inv.rxRead_rejecting {w : View υ} {v : RxLocals υ} {x : RxState υ} {c : Bool} {d n i j : ℕ}
    {bad : RawPacket} {rest q : List Byte} {r b : Byte} (htx : w.tx = .wait (txReply tcfg file c n r))
    (hn : n < blockCount (txBlockSize tcfg) file) (hd : Holds tcfg file c d v w.stored)
    (hdn : d = n ∨ d = n + 1) (hno : ack ∉ w.toTx)
    (hbad : Damaged crc c (blockPacket crc tcfg file c n) bad) (hj : j < bad.bytes.length)
    (hfeed : feed (receiveStep P crc cbs rcfg) (.wait ⟨.header, v⟩) (bad.bytes.take j) =
      ⟨[], .wait x⟩)
    (hrest : bad.bytes.drop j ++ rest = b :: q) (hlen : rest.length = i * bad.bytes.length) :
    Inv P crc cbs tcfg rcfg file (w.afterRx (receiveStep P crc cbs rcfg x (.ok b)) q) := by
  obtain ⟨hframe, hnum, -⟩ := hbad.framed
  obtain rfl := hd.check
  obtain ⟨rfl, ⟨hlt, site, ho, hsite⟩ | ⟨-, ho⟩⟩ := receiveStep_packet P crc cbs rcfg hframe hnum
    hj hfeed hrest
  · rw [ho]
    exact .rejecting htx hn (by simpa [View.afterRx, rxAt] using hd) hdn
      (by simpa [View.afterRx, rxAt] using hno) hbad hlt hsite rfl hlen
  · rw [if_neg hbad.detected] at ho
    rw [ho]
    exact .purging htx hn (by simpa [View.afterRx] using hd) hdn
      (by simpa [View.afterRx] using hno) rfl

theorem Inv.rxRead {w : View υ} (h : Inv P crc cbs tcfg rcfg file w) {x : RxState υ} {b : Byte}
    {q : List Byte} (hx : w.rx = .wait x) (hq : w.toRx = b :: q)
    (hfit : blockCount (txBlockSize tcfg) file * txBlockSize tcfg < P.sizeMod) :
    Inv P crc cbs tcfg rcfg file (w.afterRx (receiveStep P crc cbs rcfg x (.ok b)) q) := by
  cases h with
  | failedTx htx hst => exact .failedTx htx hst
  | failedRx hrx hst =>
    rw [hx] at hrx
    cases hrx
  | complete hrx hst =>
    rw [hx] at hrx
    cases hrx
  | waiting htx hrx hrest =>
    rw [hq] at hrest
    cases hrest
  | sending htx hn hd hfly habs he hd0 =>
    rw [hx, hq] at hfly
    exact .rxRead_sending htx hn hd hfly habs he hd0 hfit
  | ending htx hd hfly habs hpos =>
    rw [hx, hq] at hfly
    exact .rxRead_ending htx hd hfly habs hpos hfit
  | rejecting htx hn hd hdn hno hbad hj hfeed hrest hlen =>
    rw [hx] at hfeed
    exact .rxRead_rejecting htx hn hd hdn hno hbad hj hfeed (hrest.symm.trans hq) hlen
  | purging htx hn hd hdn hno hrx =>
    rw [hx, Next.wait.injEq] at hrx
    subst hrx
    exact .purging htx hn (by simpa [View.afterRx, receiveStep, rxAt] using hd) hdn
      (by simpa [View.afterRx, receiveStep, rxAt] using hno) rfl

/-! ### The receiver's read times out -/

theorem Inv.rxTimeout_waiting {w : View υ} {v : RxLocals υ} {r : Byte} (htx : w.tx = .wait (.start r 0))
    (hrest : w.toRx = []) (hno : ack ∉ w.toTx) (hd : Holds tcfg file v.crcMode 0 v w.stored) :
    Inv P crc cbs tcfg rcfg file (w.afterRx (headerTimeout rcfg v) w.toRx) := by
  rcases hd.timeout rcfg with ⟨es, st, hst, ht⟩ | ⟨b, v', hb, ht, hd', -⟩ <;> rw [ht]
  · exact .failedRx rfl hst
  · exact .waiting htx rfl hrest (by simp [View.afterRx, hno, Ne.symm hb])
      (by simpa [View.afterRx] using hd')

/-- What the receiver asks with at a packet boundary is no ACK of a block. -/
theorem Inv.rxTimeout_sending {w : View υ} {v : RxLocals υ} {c : Bool} {d e n : ℕ} {ks : List ℕ}
    {r : Byte} (htx : w.tx = .wait (txReply tcfg file c n r))
    (hn : n < blockCount (txBlockSize tcfg) file) (hd : Holds tcfg file c d v w.stored)
    (hrest : w.toRx = frames crc tcfg file c 0 ks) (habs : absorb d ks = some e)
    (he : e = n + 1 ∨ e = n ∧ ks = [] ∧ ack ∉ w.toTx) (hd0 : 0 < d ∨ n = 0 ∧ ack ∉ w.toTx)
    (hsame : ∀ y : RxState υ, (headerTimeout rcfg v).next = .wait y → y.locals.crcMode = c) :
    Inv P crc cbs tcfg rcfg file (w.afterRx (headerTimeout rcfg v) w.toRx) := by
  rcases hd.timeout rcfg with ⟨es, st, hst, ht⟩ | ⟨b, v', hb, ht, hd', -⟩ <;> rw [ht] at hsame ⊢
  · exact .failedRx rfl hst
  · have hno : ack ∉ w.toTx → ack ∉ w.toTx ++ [b] := by simp [Ne.symm hb]
    have hc : v'.crcMode = c := hsame ⟨.header, v'⟩ rfl
    rw [hc] at hd'
    refine .sending htx hn (by simpa [View.afterRx] using hd') ?_ habs ?_ ?_
    · rw [View.afterRx, hrest]
      exact InFlight.boundary
    · exact he.imp_right (And.imp_right (And.imp_right hno))
    · exact hd0.imp_right (And.imp_right hno)

theorem Inv.rxTimeout_ending {w : View υ} {v : RxLocals υ} {c : Bool} {d m : ℕ} {ks : List ℕ}
    (htx : (∃ r, w.tx = .wait (.eotReply r)) ∨ w.tx = .done .ok) (hd : Holds tcfg file c d v w.stored)
    (hrest : w.toRx = frames crc tcfg file c m ks)
    (habs : absorb d ks = some (blockCount (txBlockSize tcfg) file)) (hpos : 0 < d) :
    Inv P crc cbs tcfg rcfg file (w.afterRx (headerTimeout rcfg v) w.toRx) := by
  rcases hd.timeout rcfg with ⟨es, st, hst, ht⟩ | ⟨b, v', hb, ht, hd', hc⟩ <;> rw [ht]
  · exact .failedRx rfl hst
  · rw [hc hpos] at hd'
    refine .ending (m := m) htx (by simpa [View.afterRx] using hd') ?_ habs hpos
    rw [View.afterRx, hrest]
    exact InFlight.boundary

/-- On an idle line nothing of the damaged packet has been read. -/
theorem boundary_of_idle {c : Bool} {n j : ℕ} {v : RxLocals υ} {bad : RawPacket}
    {rx : Next (RxState υ) RxResult} {toRx rest : List Byte}
    (hbad : Damaged crc c (blockPacket crc tcfg file c n) bad) (hc : v.crcMode = c)
    (hj : j < bad.bytes.length)
    (hfeed : feed (receiveStep P crc cbs rcfg) (.wait ⟨.header, v⟩) (bad.bytes.take j) = ⟨[], rx⟩)
    (hrest : toRx = bad.bytes.drop j ++ rest) (hidle : Receiving rx → toRx = []) :
    j = 0 ∧ rx = .wait ⟨.header, v⟩ := by
  obtain ⟨hframe, hnum, -⟩ := hbad.framed
  subst hc
  obtain rfl : j = 0 := by
    rcases Nat.eq_zero_or_pos j with hj0 | hpos
    · exact hj0
    · have hempty := congrArg List.length (hidle (receiving_of_take hframe hnum hj hpos hfeed))
      rw [hrest, List.length_append, List.length_drop, List.length_nil] at hempty
      omega
  rw [List.take_zero, feed_nil, Out.mk.injEq] at hfeed
  exact ⟨rfl, hfeed.2.symm⟩

theorem Inv.rxTimeout_rejecting {w : View υ} {v : RxLocals υ} {c : Bool} {d n i : ℕ} {bad : RawPacket}
    {rest : List Byte} {r : Byte} (htx : w.tx = .wait (txReply tcfg file c n r))
    (hn : n < blockCount (txBlockSize tcfg) file) (hd : Holds tcfg file c d v w.stored)
    (hdn : d = n ∨ d = n + 1) (hno : ack ∉ w.toTx)
    (hbad : Damaged crc c (blockPacket crc tcfg file c n) bad) (hlt : 0 < bad.bytes.length)
    (hrest : w.toRx = bad.bytes.drop 0 ++ rest) (hlen : rest.length = i * bad.bytes.length)
    (hsame : ∀ y : RxState υ, (headerTimeout rcfg v).next = .wait y → y.locals.crcMode = c) :
    Inv P crc cbs tcfg rcfg file (w.afterRx (headerTimeout rcfg v) w.toRx) := by
  rcases hd.timeout rcfg with ⟨es, st, hst, ht⟩ | ⟨b, v', hb, ht, hd', -⟩ <;> rw [ht] at hsame ⊢
  · exact .failedRx rfl hst
  · have hc : v'.crcMode = c := hsame ⟨.header, v'⟩ rfl
    rw [hc] at hd'
    exact .rejecting (j := 0) htx hn (by simpa [View.afterRx] using hd') hdn
      (by simp [View.afterRx, hno, Ne.symm hb]) hbad hlt (by rw [List.take_zero, feed_nil]; rfl)
      hrest hlen

/-- The drained line is empty, and the NAK asks for the block again. -/
theorem Inv.rxTimeout_purging {w : View υ} {v : RxLocals υ} {c : Bool} {d n : ℕ} {r : Byte}
    (htx : w.tx = .wait (txReply tcfg file c n r)) (hn : n < blockCount (txBlockSize tcfg) file)
    (hd : Holds tcfg file c d v w.stored) (hdn : d = n ∨ d = n + 1) (hno : ack ∉ w.toTx)
    (hempty : w.toRx = []) :
    Inv P crc cbs tcfg rcfg file (w.afterRx (afterPurge rcfg false v) w.toRx) := by
  rcases afterPurge_cases rcfg false v with ht | ht <;> rw [ht]
  · exact .failedRx rfl (by decide)
  · have hne : ack ≠ nak := by decide
    have hno' : ack ∉ w.toTx ++ [nak] := by simp [hno, hne]
    have habs : absorb d [] = some d := rfl
    have hfly : InFlight P crc cbs tcfg rcfg file c { v with retries := v.retries + 1 } 0
        (.wait ⟨.header, { v with retries := v.retries + 1 }⟩) w.toRx [] := ⟨rfl, hempty⟩
    refine .sending htx hn ?_ hfly habs ?_ ?_
    · exact ⟨by simp [View.afterRx, hd.stored], hd.expected, hd.total, hd.req, hd.check⟩
    · rcases hdn with rfl | rfl
      · exact .inr ⟨rfl, rfl, hno'⟩
      · exact .inl rfl
    · rcases Nat.eq_zero_or_pos d with hd0 | hpos
      · exact .inr ⟨by omega, hno'⟩
      · exact .inl hpos

/-- Inside a packet and while draining, a read times out only after everything
sent has been read. -/
theorem Inv.rxTimeout {w : View υ} (h : Inv P crc cbs tcfg rcfg file w) {x : RxState υ}
    (hx : w.rx = .wait x) (hidle : Receiving w.rx → w.toRx = [])
    (hsame : ∀ c n r, w.tx = .wait (txReply tcfg file c n r) →
      ∀ y, (receiveStep P crc cbs rcfg x .timeout).next = .wait y → y.locals.crcMode = c) :
    Inv P crc cbs tcfg rcfg file
      (w.afterRx (receiveStep P crc cbs rcfg x .timeout) w.toRx) := by
  have hheader : ∀ v, receiveStep P crc cbs rcfg ⟨.header, v⟩ .timeout = headerTimeout rcfg v :=
    fun v => rfl
  cases h with
  | failedTx htx hst => exact .failedTx htx hst
  | failedRx hrx hst =>
    rw [hx] at hrx
    cases hrx
  | complete hrx hst =>
    rw [hx] at hrx
    cases hrx
  | waiting htx hrx hrest hno hd =>
    rw [hx, Next.wait.injEq] at hrx
    subst hrx
    rw [hheader]
    exact .rxTimeout_waiting htx hrest hno hd
  | @sending v c d e n ks r htx hn hd hfly habs he hd0 =>
    obtain ⟨hrx, hrest⟩ := hfly.header_of_timeout hd.check hidle
    rw [hx, Next.wait.injEq] at hrx
    subst hrx
    rw [hheader] at hsame ⊢
    exact .rxTimeout_sending htx hn hd hrest habs he hd0 (hsame c n r htx)
  | ending htx hd hfly habs hpos =>
    obtain ⟨hrx, hrest⟩ := hfly.header_of_timeout hd.check hidle
    rw [hx, Next.wait.injEq] at hrx
    subst hrx
    rw [hheader]
    exact .rxTimeout_ending htx hd hrest habs hpos
  | @rejecting v c d n i j bad rest r htx hn hd hdn hno hbad hj hfeed hrest hlen =>
    obtain ⟨rfl, hrx⟩ := boundary_of_idle hbad hd.check hj hfeed hrest hidle
    rw [hx, Next.wait.injEq] at hrx
    subst hrx
    rw [hheader] at hsame ⊢
    exact .rxTimeout_rejecting htx hn hd hdn hno hbad hj hrest hlen (hsame c n r htx)
  | @purging v c d n r htx hn hd hdn hno hrx =>
    have hempty : w.toRx = [] := hidle (by rw [hrx]; trivial)
    rw [hx, Next.wait.injEq] at hrx
    subst hrx
    have ho : receiveStep P crc cbs rcfg ⟨.purge false, v⟩ .timeout = afterPurge rcfg false v := rfl
    rw [ho]
    exact .rxTimeout_purging htx hn hd hdn hno hempty

/-! ### Damage -/

/-- A single whole packet in flight has not been read at all. -/
theorem InFlight.whole {c : Bool} {v : RxLocals υ} {rx : Next (RxState υ) RxResult}
    {toRx : List Byte} {ks : List ℕ} {n : ℕ}
    (h : InFlight P crc cbs tcfg rcfg file c v 0 rx toRx ks)
    (hlen : toRx.length = (blockPacket crc tcfg file c n).bytes.length) :
    (∃ k, ks = [k]) ∧ rx = .wait ⟨.header, v⟩ := by
  rw [blockPacket_length] at hlen
  cases ks with
  | nil =>
    rw [h.2] at hlen
    simp only [List.replicate_zero, List.length_nil] at hlen
    omega
  | cons k ks =>
    obtain ⟨j, hj, hfeed, hrest⟩ := h
    rw [hrest, List.length_append, List.length_drop, blockPacket_length] at hlen
    rw [blockPacket_length] at hj
    cases ks with
    | nil =>
      obtain rfl : j = 0 := by
        simp only [frames, List.flatMap_nil, List.replicate_zero, List.append_nil,
          List.length_nil] at hlen
        omega
      rw [List.take_zero, feed_nil, Out.mk.injEq] at hfeed
      exact ⟨⟨k, rfl⟩, hfeed.2.symm⟩
    | cons k' ks =>
      simp only [frames, List.flatMap_cons, List.length_append, ← blockPacket_bytes,
        blockPacket_length] at hlen
      omega

/-- Damage strikes the only packet in flight before any of it has been read. -/
theorem Inv.damage_waiting {w : View υ} {v : RxLocals υ} {c : Bool} {d n : ℕ} {r : Byte}
    {bad : RawPacket} (htx : w.tx = .wait (txReply tcfg file c n r))
    (hn : n < blockCount (txBlockSize tcfg) file) (hd : Holds tcfg file c d v w.stored)
    (hdn : d = n ∨ d = n + 1) (hno : ack ∉ w.toTx)
    (hbad : Damaged crc c (blockPacket crc tcfg file c n) bad) (hrx : w.rx = .wait ⟨.header, v⟩) :
    Inv P crc cbs tcfg rcfg file { w with toRx := bad.bytes } := by
  obtain ⟨-, -, hlen⟩ := hbad.framed
  refine .rejecting (j := 0) (i := 0) htx hn hd hdn hno hbad ?_ ?_ (List.append_nil _).symm (by simp)
  · rw [hlen, blockPacket_length]
    omega
  · rw [List.take_zero, feed_nil, hrx]

/-- Damage strikes the only packet in flight, and no reply is in flight. -/
theorem Inv.damage {w : View υ} (h : Inv P crc cbs tcfg rcfg file w) {v : TxLocals ℕ} {r : Byte}
    {payload : List Byte} {bad : RawPacket} (hx : w.tx = .wait (.reply v r payload))
    (hq : w.toRx = packet crc v.crcMode v.blockNum payload) (hr : w.toTx = [])
    (hbad : Damaged crc v.crcMode (sentPacket crc v.crcMode v.blockNum payload) bad) :
    Inv P crc cbs tcfg rcfg file { w with toRx := bad.bytes } := by
  have hno : ack ∉ w.toTx := by simp [hr]
  cases h with
  | failedTx htx => rw [hx] at htx; cases htx
  | failedRx hrx hst => exact .failedRx hrx hst
  | complete hrx hst => exact .complete hrx hst
  | waiting htx => rw [hx] at htx; cases htx
  | @sending v' c d e n ks r' htx hn hd hfly habs he hd0 =>
    obtain ⟨rfl, rfl, rfl⟩ : v = txLocals tcfg file c n ∧ r = r' ∧
        payload = fileBlock (txBlockSize tcfg) file n := by simpa [hx, txReply] using htx
    obtain ⟨⟨k, rfl⟩, hrx⟩ := hfly.whole (congrArg List.length hq)
    have he1 : e = n + 1 := by
      rcases he with he | ⟨-, hks, -⟩
      · exact he
      · cases hks
    have hdn : d = n ∨ d = n + 1 := by
      rw [absorb, absorb, absorb] at habs
      split_ifs at habs with hk hk <;>
      · rw [Option.some.injEq] at habs
        omega
    exact .damage_waiting htx hn hd hdn hno hbad hrx
  | @ending v' c d m ks htx hd hfly habs hpos =>
    rcases htx with ⟨r', htx⟩ | htx <;> rw [hx] at htx <;> cases htx
  | @rejecting v' c d n i j bad' rest r' htx hn hd hdn hno hbad' hj hfeed hrest hlen =>
    obtain ⟨rfl, rfl, rfl⟩ : v = txLocals tcfg file c n ∧ r = r' ∧
        payload = fileBlock (txBlockSize tcfg) file n := by simpa [hx, txReply] using htx
    obtain ⟨-, -, hblen⟩ := hbad'.framed
    have hall : w.toRx.length = (blockPacket crc tcfg file c n).bytes.length := congrArg List.length hq
    rw [hrest, List.length_append, List.length_drop, ← hblen] at hall
    have hi : i = 0 := by
      cases i with
      | zero => rfl
      | succ i =>
        rw [Nat.add_mul, Nat.one_mul] at hlen
        omega
    subst hi
    obtain rfl : j = 0 := by omega
    rw [List.take_zero, feed_nil, Out.mk.injEq] at hfeed
    exact .damage_waiting htx hn hd hdn hno hbad hfeed.2.symm
  | purging htx hn hd hdn hno hrx => exact .purging htx hn hd hdn hno hrx

theorem Inv.step {w w' : View υ} (h : Inv P crc cbs tcfg rcfg file w)
    (hs : View.Step P crc cbs tcfg rcfg file w w')
    (hsame : txCheck w'.tx = none ∨ rxCheck w'.rx = none ∨ rxCheck w'.rx = txCheck w'.tx)
    (hfile : 0 < file.length)
    (hfit : blockCount (txBlockSize tcfg) file * txBlockSize tcfg < P.sizeMod) :
    Inv P crc cbs tcfg rcfg file w' := by
  have hcheck : ∀ c n r, w'.tx = .wait (txReply tcfg file c n r) →
      ∀ y, w'.rx = .wait y → y.locals.crcMode = c := by
    intro c n r htx y hrx
    rw [htx, hrx] at hsame
    simpa [txCheck, rxCheck, txReply, txLocals] using hsame
  cases hs with
  | write => exact h
  | @txRead x b q hx hq =>
    exact h.tx hx (fun hin => hq ▸ List.mem_cons_of_mem b hin)
      (fun hb => by simp_all) hfile hfit hcheck
  | txTimeout hx => exact h.tx hx id (fun hb => by cases hb) hfile hfit hcheck
  | rxRead hx hq => exact h.rxRead hx hq hfit
  | rxTimeout hx hidle => exact h.rxTimeout hx hidle hcheck
  | damage hx hq hr hbad => exact h.damage hx hq hr hbad

theorem inv_start (userData : υ) : Inv P crc cbs tcfg rcfg file
    (view (Duplex.init (xmodemTransmit 0) (xmodemReceive rcfg userData))) := by
  have hreq : (rxInit rcfg userData).req ≠ ack := by
    simp only [rxInit]
    split <;> decide
  refine .waiting (v := rxInit rcfg userData) (r := 0) rfl rfl rfl ?_
    ⟨rfl, rfl, by simp [rxInit], fun _ => hreq, rfl⟩
  simpa [view, Duplex.init, xmodemReceive] using hreq.symm

theorem inv_reachable {userData : υ} {s : System υ} (hfile : 0 < file.length)
    (hfit : blockCount (txBlockSize tcfg) file * txBlockSize tcfg < P.sizeMod)
    (h : Reachable P crc cbs tcfg rcfg file (fun s a => PromptWriter s a ∧ IdleDamage s a)
      userData s) : Inv P crc cbs tcfg rcfg file (view s) := by
  induction h with
  | start => exact inv_start userData
  | step _ hal hs hsame ih =>
    exact ih.step (view_step P crc cbs tcfg rcfg file hs hal.1 hal.2) hsame hfile hfit

/-! ### Files whose padded length is not a `size_t`

There `bytes_sent` wraps to 0 before it reaches the file length, and the
transmitter never leaves its loop. -/

/-- The transmitter has not ended well and is not about to. -/
def Endless (tcfg : Config) : Next (TxSite ℕ) Status → Prop
  | .wait (.start _ _) => True
  | .wait (.reply v _ payload) =>
    txBlockSize tcfg ∣ v.bytesSent ∧ payload.length = txBlockSize tcfg
  | .wait (.eotReply _) => False
  | .done st => st ≠ .ok

theorem nextBlock_endless {v : TxLocals ℕ}
    (hbig : P.sizeMod ≤ blockCount (txBlockSize tcfg) file * txBlockSize tcfg)
    (hv : txBlockSize tcfg ∣ v.bytesSent) (hlt : v.bytesSent < P.sizeMod) :
    Endless tcfg (nextBlock P crc (fileCallbacks file) tcfg file.length v).next := by
  have hbs := txBlockSize_pos tcfg
  have hpad := paddedFile_length hbs file
  have hcount : blockCount (txBlockSize tcfg) file * txBlockSize tcfg <
      file.length + txBlockSize tcfg := by
    have := Nat.div_mul_le_self (file.length + txBlockSize tcfg - 1) (txBlockSize tcfg)
    rw [blockCount]
    omega
  -- the last multiple of the block size below `SIZE_MAX + 1` is inside the file
  have hin : v.bytesSent < file.length := by
    obtain ⟨a, ha⟩ := hv
    obtain ⟨b, hb⟩ := txBlockSize_dvd P tcfg
    rw [ha, hb] at hlt
    have hab : a + 1 ≤ b := Nat.lt_of_mul_lt_mul_left hlt
    have hle : txBlockSize tcfg * (a + 1) ≤ P.sizeMod := by
      rw [hb]
      exact Nat.mul_le_mul_left _ hab
    rw [Nat.mul_add, Nat.mul_one] at hle
    omega
  have hne : file.length ≠ 0 := by omega
  simp only [nextBlock, hin, or_true, if_true, hne, false_and, and_false, if_false, blockSizeAt_eq]
  split
  · simp [Endless]
  · have hpay : ((fileCallbacks file).dataCb v.blockNum
        (List.replicate (txBlockSize tcfg) 0x1A) v.userData).2.1.length = txBlockSize tcfg := by
      rw [(fileCallbacks file).dataCb_length, List.length_replicate]
    simp only [sendPacket]
    split
    · exact ⟨hv, hpay⟩
    · simp [Endless]

theorem txStep_endless
    (hbig : P.sizeMod ≤ blockCount (txBlockSize tcfg) file * txBlockSize tcfg) (x : TxSite ℕ)
    (i : Read) (h : Endless tcfg (.wait x)) :
    Endless tcfg (txStep P crc tcfg file x i).next := by
  have hstart : ∀ c u, Endless tcfg
      (nextBlock P crc (fileCallbacks file) tcfg file.length ⟨c, 1, 0, u⟩).next := fun c u =>
    nextBlock_endless hbig (Nat.dvd_zero _) P.sizeMod_pos
  cases x with
  | start r u =>
    have hagain : Endless tcfg (startAgain tcfg r u).next := by
      simp only [startAgain]
      split <;> simp [Endless]
    cases i with
    | ok b =>
      simp only [txStep, transmitStep]
      split_ifs
      · exact hstart true u
      · exact hstart false u
      · simp [Endless]
      · exact hagain
    | timeout => exact hagain
    | cancel => exact hagain
  | reply v r payload =>
    obtain ⟨hv, hpay⟩ := h
    have hrepeat : ∀ r', Endless tcfg (sendPacket crc tcfg v r' payload).next := by
      intro r'
      simp only [sendPacket]
      split
      · exact ⟨hv, hpay⟩
      · simp [Endless]
    cases i with
    | ok b =>
      simp only [txStep, transmitStep]
      split_ifs
      · refine nextBlock_endless hbig ?_ (P.toSize_lt _)
        rw [hpay]
        exact (Nat.dvd_mod_iff (txBlockSize_dvd P tcfg)).mpr ((Nat.dvd_add_right hv).mpr (Nat.dvd_refl _))
      · simp [Endless]
      · exact hrepeat _
    | timeout => exact hrepeat _
    | cancel => simp [txStep, transmitStep, Endless]
  | eotReply r => exact h.elim

theorem View.Step.endless {w w' : View υ} (hs : View.Step P crc cbs tcfg rcfg file w w')
    (hbig : P.sizeMod ≤ blockCount (txBlockSize tcfg) file * txBlockSize tcfg)
    (h : Endless tcfg w.tx) : Endless tcfg w'.tx := by
  cases hs with
  | txRead hx => exact txStep_endless hbig _ _ (hx ▸ h)
  | txTimeout hx => exact txStep_endless hbig _ _ (hx ▸ h)
  | write => exact h
  | rxRead => exact h
  | rxTimeout => exact h
  | damage => exact h

theorem endless_reachable {userData : υ} {s : System υ}
    (hbig : P.sizeMod ≤ blockCount (txBlockSize tcfg) file * txBlockSize tcfg)
    (h : Reachable P crc cbs tcfg rcfg file (fun s a => PromptWriter s a ∧ IdleDamage s a)
      userData s) : Endless tcfg (view s).tx := by
  induction h with
  | start => trivial
  | step _ hal hs _ ih =>
    exact (view_step P crc cbs tcfg rcfg file hs hal.1 hal.2).endless hbig ih

end Invariant

/-! ### Agreement -/

section Agreement

variable {υ : Type} (P : Platform) (crc : CrcService) (cbs : RxCallbacks υ)
  (tcfg rcfg : Config) (file : List Byte)

/-- Agreement of all careful runs: no time-out inside a packet or while draining
as long as the transmitter writes, and damage only on an idle line. -/
theorem agreement_of_careful (userData : υ) (hfile : 0 < file.length) :
    Agreement P crc cbs tcfg rcfg file (fun s a => PromptWriter s a ∧ IdleDamage s a) userData := by
  intro s t hs hl hr
  have htx : (view s).tx = .done .ok := by rw [view, hl]
  have hrx : (view s).rx = .done ⟨.ok, t⟩ := by rw [view, hr]
  suffices hstored : (view s).stored = fileBlocks (txBlockSize tcfg) file by
    have hlog : delivered s.rightLog = fileBlocks (txBlockSize tcfg) file := by
      simpa [view, hr] using hstored
    exact ⟨hlog, by rw [hlog, fileBlocks_flatten (txBlockSize_pos tcfg)]⟩
  by_cases hfit : blockCount (txBlockSize tcfg) file * txBlockSize tcfg < P.sizeMod
  · cases inv_reachable hfile hfit hs with
    | failedTx h hst =>
      rw [htx, Next.done.injEq] at h
      exact absurd h.symm hst
    | failedRx h hst =>
      rw [hrx, Next.done.injEq] at h
      exact absurd (h ▸ rfl) hst
    | complete _ h => exact h
    | waiting h => rw [htx] at h; cases h
    | sending h => rw [htx] at h; cases h
    | ending _ hd hfly =>
      obtain ⟨x, hx⟩ := hfly.waits hd.check
      rw [hrx] at hx
      cases hx
    | rejecting h => rw [htx] at h; cases h
    | purging h => rw [htx] at h; cases h
  · have hend := endless_reachable (Nat.le_of_not_lt hfit) hs
    rw [htx] at hend
    exact absurd rfl hend

theorem Agreement.mono {P : Platform} {crc : CrcService} {cbs : RxCallbacks υ} {tcfg rcfg : Config}
    {file : List Byte} {allowed allowed' : System υ → Action → Prop} {userData : υ}
    (himp : ∀ s a, allowed s a → allowed' s a)
    (h : Agreement P crc cbs tcfg rcfg file allowed' userData) :
    Agreement P crc cbs tcfg rcfg file allowed userData := by
  intro s t hs
  refine h s t ?_
  induction hs with
  | start => exact .start
  | step _ hal hstep hsame ih => exact ih.step (himp _ _ hal) hstep hsame

end Agreement

/-! ### Scripted runs -/

section Script

variable {υ : Type} (P : Platform) (crc : CrcService) (cbs : RxCallbacks υ)
  (tcfg rcfg : Config) (file : List Byte)

instance (n : Next (RxState υ) RxResult) : Decidable (Receiving n) :=
  match n with
  | .wait ⟨.header, _⟩ | .wait ⟨.secondCan, _⟩ | .done _ => isFalse id
  | .wait ⟨.blkNum .., _⟩ | .wait ⟨.blkNumInv .., _⟩ | .wait ⟨.payload .., _⟩
  | .wait ⟨.crcHi .., _⟩ | .wait ⟨.crcLo .., _⟩ | .wait ⟨.cksum .., _⟩
  | .wait ⟨.purge .., _⟩ => isTrue trivial

instance (s : System υ) : Decidable (SameCheck s) := inferInstanceAs (Decidable (_ ∨ _ ∨ _))

instance (s : System υ) (a : Action) : Decidable (PromptWriter s a) :=
  inferInstanceAs (Decidable (_ → _ → _))

instance (s : System υ) (a : Action) : Decidable (IdleDamage s a) :=
  inferInstanceAs (Decidable (_ → _ ∧ _ ∧ _))

instance (c : Bool) (p bad : RawPacket) : Decidable (Damaged crc c p bad) :=
  decidable_of_iff (bad.header = p.header ∧ bad.blkNum = p.blkNum ∧ bad.blkNumInv = p.blkNumInv ∧
      bad.payload.length = p.payload.length ∧ bad.check.length = p.check.length ∧
      ¬ bad.Verified crc c)
    ⟨fun ⟨h₁, h₂, h₃, h₄, h₅, h₆⟩ => ⟨h₁, h₂, h₃, h₄, h₅, h₆⟩,
      fun ⟨h₁, h₂, h₃, h₄, h₅, h₆⟩ => ⟨h₁, h₂, h₃, h₄, h₅, h₆⟩⟩

/-- An action together with the packet that arrives in place of the one sent. -/
inductive Cue where
  | move (m : Move)
  | damage (bad : RawPacket)

variable (allowed : System υ → Action → Prop) [∀ s a, Decidable (allowed s a)]

/-- One step, if it is allowed. -/
def perform (s : System υ) : Cue → Option (System υ)
  | .move m =>
    if allowed s (.move m) then
      (Duplex.move (transmitter P crc tcfg file) (receiver P crc cbs rcfg) m s).filter
        fun s' => SameCheck s'
    else none
  | .damage bad =>
    match s.left with
    | ⟨es, .wait (.reply v r payload)⟩ =>
      if allowed s .damage ∧ es = writeBytes (packet crc v.crcMode v.blockNum payload) ∧
          Damaged crc v.crcMode (sentPacket crc v.crcMode v.blockNum payload) bad then
        (some { s with left := ⟨writeBytes bad.bytes, .wait (.reply v r payload)⟩ }).filter
          fun s' => SameCheck s'
      else none
    | _ => none

def performAll : List Cue → System υ → Option (System υ)
  | [], s => some s
  | k :: ks, s => (perform P crc cbs tcfg rcfg file allowed s k).bind (performAll ks)

variable {P crc cbs tcfg rcfg file allowed}

theorem perform_reachable {userData : υ} {s s' : System υ} {k : Cue}
    (h : Reachable P crc cbs tcfg rcfg file allowed userData s)
    (hk : perform P crc cbs tcfg rcfg file allowed s k = some s') :
    Reachable P crc cbs tcfg rcfg file allowed userData s' := by
  cases k with
  | move m =>
    simp only [perform] at hk
    split at hk
    · rename_i hal
      rw [Option.filter_eq_some_iff] at hk
      exact h.step hal (.move hk.1) (by simpa using hk.2)
    · cases hk
  | damage bad =>
    simp only [perform] at hk
    split at hk
    · rename_i es v r payload hl
      split at hk
      · rename_i hal
        obtain ⟨hal, rfl, hbad⟩ := hal
        rw [Option.filter_eq_some_iff, Option.some.injEq] at hk
        obtain ⟨rfl, hsame⟩ := hk
        exact h.step hal (.damage hl hbad) (by simpa using hsame)
      · cases hk
    · cases hk

theorem performAll_reachable {userData : υ} {s s' : System υ} {ks : List Cue}
    (h : Reachable P crc cbs tcfg rcfg file allowed userData s)
    (hk : performAll P crc cbs tcfg rcfg file allowed ks s = some s') :
    Reachable P crc cbs tcfg rcfg file allowed userData s' := by
  induction ks generalizing s with
  | nil =>
    cases hk
    exact h
  | cons k ks ih =>
    rw [performAll, Option.bind_eq_some_iff] at hk
    obtain ⟨t, ht, hk⟩ := hk
    exact ih (perform_reachable h ht) hk

end Script

/-! ### Runs of a two-block file

Checksum mode on both sides; a packet is 132 bytes long. -/

def standardConfig : Config := ⟨.standard, 10⟩

/-- A file of two blocks; the second one starts with the byte `b`. -/
def twoBlocks (b : Byte) : List Byte := List.replicate 128 0x41 ++ b :: List.replicate 127 0x42

def moves (n : ℕ) (m : Move) : List Cue := List.replicate n (.move m)

/-- The packet of block `n` with its first payload byte changed to 0. -/
def spoiled (n : ℕ) (file : List Byte) : RawPacket :=
  let p := blockPacket referenceCrc standardConfig file false n
  { p with payload := 0 :: p.payload.tail }

/-- The end of a scripted run: both results and the stored blocks. -/
def endOf (file : List Byte) (allowed : System Unit → Action → Prop)
    [∀ s a, Decidable (allowed s a)] (ks : List Cue) :
    Option (TxOut ℕ × RxOut Unit × List (List Byte)) :=
  (performAll platform32 referenceCrc acceptingStorage standardConfig standardConfig file allowed ks
    (Duplex.init (xmodemTransmit 0) (xmodemReceive standardConfig ()))).map
    fun s => (s.left, s.right, delivered s.rightLog)

/-- A scripted run in which both sides return OK is a run of the system. -/
theorem reachable_of_endOf {file : List Byte} {allowed : System Unit → Action → Prop}
    [∀ s a, Decidable (allowed s a)] (ks : List Cue) {t : Option ℕ} {blocks : List (List Byte)}
    (h : endOf file allowed ks = some (⟨[], .done .ok⟩, ⟨[], .done ⟨.ok, t⟩⟩, blocks)) :
    ∃ s, Reachable platform32 referenceCrc acceptingStorage standardConfig standardConfig file allowed
      () s ∧ s.left = ⟨[], .done .ok⟩ ∧ s.right = ⟨[], .done ⟨.ok, t⟩⟩ ∧
      delivered s.rightLog = blocks := by
  rw [endOf, Option.map_eq_some_iff] at h
  obtain ⟨s, hs, he⟩ := h
  simp only [Prod.mk.injEq] at he
  exact ⟨s, performAll_reachable .start hs, he.1, he.2.1, he.2.2⟩

/-- A careful run: the first packet is damaged on the idle line and sent again. -/
def carefulScript : List Cue :=
  moves 1 .emitRight ++ moves 1 .readLeft ++ moves 1 .emitLeft ++
  [.damage (spoiled 0 (twoBlocks 0x42))] ++ moves 132 .emitLeft ++ moves 132 .readRight ++
  moves 1 .failRight ++ moves 1 .emitRight ++
  moves 1 .readLeft ++ moves 132 .emitLeft ++ moves 132 .readRight ++ moves 2 .emitRight ++
  moves 1 .readLeft ++ moves 133 .emitLeft ++ moves 132 .readRight ++ moves 2 .emitRight ++
  moves 1 .readLeft ++ moves 1 .emitLeft ++ moves 1 .readRight ++ moves 1 .emitRight ++
  moves 1 .readLeft

/-- Agreement on a two-block file, with a careful run in which both sides return OK. -/
theorem agreement_two_blocks :
    Agreement platform32 referenceCrc acceptingStorage standardConfig standardConfig (twoBlocks 0x42)
      (fun s a => PromptWriter s a ∧ IdleDamage s a) () ∧
    ∃ s, Reachable platform32 referenceCrc acceptingStorage standardConfig standardConfig
      (twoBlocks 0x42) (fun s a => PromptWriter s a ∧ IdleDamage s a) () s ∧
      s.left = ⟨[], .done .ok⟩ ∧ s.right = ⟨[], .done ⟨.ok, some 256⟩⟩ ∧
      delivered s.rightLog = fileBlocks 128 (twoBlocks 0x42) :=
  ⟨agreement_of_careful platform32 referenceCrc acceptingStorage standardConfig standardConfig
      (twoBlocks 0x42) () (by decide +kernel),
    reachable_of_endOf carefulScript (by decide +kernel)⟩

/-- The receiver asks twice before the transmitter starts; both requests are
answered with the first block, and both answers are acknowledged. -/
def staleAckScript : List Cue :=
  moves 1 .emitRight ++ moves 1 .failRight ++ moves 1 .emitRight ++
  moves 1 .readLeft ++ moves 133 .emitLeft ++ moves 132 .readRight ++ moves 2 .emitRight ++
  moves 1 .readLeft ++ moves 132 .emitLeft ++ moves 132 .readRight ++ moves 1 .emitRight ++
  moves 1 .readLeft ++ moves 1 .emitLeft

/-- The second block is damaged while an ACK is in flight, which is taken for its
own; the second NAK only makes the transmitter repeat EOT. -/
def staleDamageScript : List Cue :=
  staleAckScript ++ [.damage (spoiled 1 (twoBlocks 0x42))] ++ moves 132 .emitLeft ++
  moves 132 .readRight ++ moves 1 .failRight ++ moves 1 .emitRight ++
  moves 1 .readLeft ++ moves 1 .emitLeft ++ moves 1 .readRight ++ moves 1 .emitRight ++
  moves 1 .readLeft ++ moves 1 .emitLeft ++ moves 1 .readLeft

/-- The receiver times out inside the second packet, twice; the next byte of the
packet is an EOT byte of the file. -/
def slowWriterScript : List Cue :=
  staleAckScript ++ moves 3 .emitLeft ++ moves 3 .readRight ++ moves 2 .failRight ++
  moves 1 .emitRight ++ moves 1 .emitLeft ++ moves 1 .readRight ++ moves 1 .emitRight ++
  moves 128 .emitLeft ++ moves 1 .readLeft ++ moves 1 .emitLeft ++
  moves 1 .readLeft ++ moves 1 .emitLeft ++ moves 1 .readLeft

/-- Without restrictions there is no agreement, and neither restriction is enough
on its own: both sides return OK and the second block is lost. -/
theorem not_agreement_two_blocks :
    ¬ Agreement platform32 referenceCrc acceptingStorage standardConfig standardConfig
      (twoBlocks 0x42) (fun _ _ => True) () ∧
    ¬ Agreement platform32 referenceCrc acceptingStorage standardConfig standardConfig
      (twoBlocks 0x42) PromptWriter () ∧
    ¬ Agreement platform32 referenceCrc acceptingStorage standardConfig standardConfig
      (twoBlocks eot) IdleDamage () := by
  have hdamage : ¬ Agreement platform32 referenceCrc acceptingStorage standardConfig standardConfig
      (twoBlocks 0x42) PromptWriter () := by
    intro h
    have hend : endOf (twoBlocks 0x42) PromptWriter staleDamageScript = some (⟨[], .done .ok⟩,
        ⟨[], .done ⟨.ok, some 128⟩⟩, [List.replicate 128 0x41]) := by decide +kernel
    obtain ⟨s, hs, hl, hr, hb⟩ := reachable_of_endOf staleDamageScript hend
    have hagree := (h s _ hs hl hr).1
    rw [hb] at hagree
    exact absurd hagree (by decide +kernel)
  refine ⟨fun h => hdamage (h.mono fun _ _ _ => trivial), hdamage, ?_⟩
  intro h
  have hend : endOf (twoBlocks eot) IdleDamage slowWriterScript = some (⟨[], .done .ok⟩,
      ⟨[], .done ⟨.ok, some 128⟩⟩, [List.replicate 128 0x41]) := by decide +kernel
  obtain ⟨s, hs, hl, hr, hb⟩ := reachable_of_endOf slowWriterScript hend
  have hagree := (h s _ hs hl hr).1
  rw [hb] at hagree
  exact absurd hagree (by decide +kernel)

end ZephyrModem.Xmodem
