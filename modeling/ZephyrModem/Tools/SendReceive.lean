import ZephyrModem.Xmodem.Line

/-!
# The host tool (`tools/send_receive.py`)

`run_modem_send` is joined to `xmodem_receive` by a serial line. It takes any of
three bytes for the handshake and then sends checksum packets of 128 bytes.
-/

namespace ZephyrModem.Tools
open ZephyrModem.Reactive ZephyrModem.Reactive.Duplex
open ZephyrModem.Xmodem (Byte Read Event Config RxCallbacks RxState RxLocals RxResult receiver
  receiveStep xmodemReceive rxInit delivered fileBlock fileBlocks paddedFile blockCount eot nak charC)

/-! ### `run_modem_send` -/

/-- `ch in (b'C', b'\x15', b'*')`. -/
def isHandshake (ch : Byte) : Prop := ch = 0x43 ∨ ch = 0x15 ∨ ch = 0x2A

instance (ch : Byte) : Decidable (isHandshake ch) := inferInstanceAs (Decidable (_ ∨ _))

/-- The packet of lines 51 to 56. -/
def hostPacket (data : List Byte) (blockNum offset : ℕ) : List Byte :=
  let chunk := (data.drop offset).take 128
  let chunk :=
    if chunk.length < 128 then chunk ++ List.replicate (128 - chunk.length) 0x1A else chunk
  let cksum := chunk.foldl (fun n b => n + b.toNat) 0 % 256
  [0x01, UInt8.ofNat (blockNum &&& 0xFF), UInt8.ofNat (255 - (blockNum &&& 0xFF))] ++ chunk ++
    [UInt8.ofNat cksum]

/-- The reads of `run_modem_send`. -/
inductive HostSite where
  | handshake                     -- line 38; it fails when `timeout_sec` has passed
  | ack (blockNum offset : ℕ)     -- line 59
  | eot                           -- line 68
  deriving Repr, DecidableEq

abbrev HostOut := Out Byte HostSite Bool

variable (data : List Byte)

/-- The loop of line 50 at its condition. -/
def sendLoop (blockNum offset : ℕ) : HostOut :=
  if offset < data.length then ⟨hostPacket data blockNum offset, .wait (.ack blockNum offset)⟩
  else ⟨[0x04], .wait .eot⟩

/-- `run_modem_send`, from one read to the next; an event is a byte written. -/
def runModemSend : Resume Read Byte HostSite Bool := fun s r =>
  match s with
  | .handshake =>
    match r with
    | .ok ch => if isHandshake ch then sendLoop data 1 0 else ⟨[], .wait .handshake⟩
    | _ => ⟨[], .done false⟩
  | .ack blockNum offset =>
    if r ≠ .ok 0x06 then sendLoop data blockNum offset
    else sendLoop data ((blockNum + 1) % 256) (offset + 128)
  | .eot => ⟨[], .done true⟩

def host : Party Byte Byte HostSite Bool := ⟨runModemSend data, some⟩

/-! ### Its packets -/

theorem foldl_add_eq (buf : List Byte) (n : ℕ) :
    buf.foldl (· + ·) (UInt8.ofNat n) = UInt8.ofNat (buf.foldl (fun n b => n + b.toNat) n) := by
  induction buf generalizing n with
  | nil => rfl
  | cons b buf ih => rw [List.foldl_cons, List.foldl_cons, ← ih, UInt8.ofNat_add, UInt8.ofNat_toNat]

theorem ofNat_mod (n : ℕ) : UInt8.ofNat (n % 256) = UInt8.ofNat n := by
  apply UInt8.toNat_inj.mp
  show n % 256 % 256 = n % 256
  omega

theorem modemChecksum8_eq (buf : List Byte) :
    modemChecksum8 buf = UInt8.ofNat (buf.foldl (fun n b => n + b.toNat) 0 % 256) := by
  rw [ofNat_mod, modemChecksum8, ← foldl_add_eq]
  rfl

theorem complement_eq (n : ℕ) : UInt8.ofNat (255 - n % 256) = ~~~UInt8.ofNat n := by
  apply UInt8.toNat_inj.mp
  have hn : n % 256 < 256 := Nat.mod_lt n (by decide)
  have hleft : (UInt8.ofNat (255 - n % 256)).toNat = (255 - n % 256) % 256 := rfl
  have hright : (~~~UInt8.ofNat n).toNat = 255 - n % 256 := by
    rw [UInt8.toNat_not]
    rfl
  rw [hleft, hright]
  omega

theorem hostPacket_eq (crc : CrcService) (n i : ℕ) :
    hostPacket data n (i * 128) = Xmodem.packet crc false (UInt8.ofNat n) (fileBlock 128 data i) := by
  have hchunk : (if ((data.drop (i * 128)).take 128).length < 128 then
      (data.drop (i * 128)).take 128 ++
        List.replicate (128 - ((data.drop (i * 128)).take 128).length) 0x1A
      else (data.drop (i * 128)).take 128) = fileBlock 128 data i := by
    simp only [fileBlock]
    split
    · rfl
    · rename_i h
      rw [Nat.sub_eq_zero_of_le (by omega), List.replicate_zero, List.append_nil]
  have hne : ¬ (fileBlock 128 data i).length = Xmodem.blockSize1024 := by
    rw [Xmodem.fileBlock_length]
    decide
  have hand : n &&& 0xFF = n % 256 := Nat.and_two_pow_sub_one_eq_mod n 8
  simp only [hostPacket, hchunk, hand]
  rw [ofNat_mod, complement_eq, ← modemChecksum8_eq, Xmodem.packet, if_neg hne]
  rfl

/-! ### Joined to `xmodem_receive` -/

section Upload

variable {υ : Type} (P : Platform) (crc : CrcService) (cbs : RxCallbacks υ) (cfg : Config)

abbrev Line (υ : Type) := Duplex Byte Byte HostSite Bool Event (RxState υ) RxResult

def uploadStart (u : υ) : Line υ := Duplex.init ⟨[], .wait .handshake⟩ (xmodemReceive cfg u)

/-- The tool takes the first byte the receiver sends for a handshake. -/
def Greets (u : υ) : Prop :=
  ∀ ch ∈ ((xmodemReceive cfg u).events.filterMap Event.wire).head?, isHandshake ch

/-- The receiver has returned OK with the padded file, and the tool has succeeded. -/
def Uploaded (s : Line υ) : Prop :=
  s.left = ⟨[], .done true⟩ ∧ (∃ n, s.right = ⟨[], .done ⟨.ok, some n⟩⟩) ∧
    (delivered s.rightLog).flatten = paddedFile 128 data

def Stores (cbs : RxCallbacks υ) : Prop := ∀ n buf u, (cbs.dataCb n buf u).1 = 0

variable (ll : List Byte) (rl : List Event)

theorem greets (u : υ) : Greets cfg u := by
  intro ch hch
  have hreq : ch = (rxInit cfg u).req := (Option.some.inj hch).symm
  rw [hreq]
  unfold rxInit
  dsimp only
  split
  · decide
  · decide

theorem reaches_loop (u : υ) :
    Reaches (host data) (receiver P crc cbs cfg) (uploadStart cfg u)
      ⟨sendLoop data 1 0, ⟨[], .wait ⟨.header, rxInit cfg u⟩⟩, [], [], [],
        Xmodem.sendByte (rxInit cfg u).req⟩ := by
  have hflush := flushRight (P := host data) (Q := receiver P crc cbs cfg)
    (⟨[], .wait .handshake⟩ : HostOut) (Xmodem.sendByte (rxInit cfg u).req)
    (.wait ⟨.header, rxInit cfg u⟩) [] [] [] []
  have hread := readsLeft (P := host data) (Q := receiver P crc cbs cfg) .handshake
    ⟨[], .wait ⟨.header, rxInit cfg u⟩⟩ (rxInit cfg u).req [] [] []
    (Xmodem.sendByte (rxInit cfg u).req)
  have hstep : (host data).resume .handshake (.ok (rxInit cfg u).req) = sendLoop data 1 0 :=
    if_pos (greets cfg u _ rfl)
  rw [hstep] at hread
  exact hflush.trans hread

theorem reaches_end (v : RxLocals υ) {n offset : ℕ} (h : ¬ offset < data.length) :
    Reaches (host data) (receiver P crc cbs cfg)
      ⟨sendLoop data n offset, ⟨[], .wait ⟨.header, v⟩⟩, [], [], ll, rl⟩
      ⟨⟨[], .done true⟩, ⟨[], .done ⟨.ok, some v.totalBytes⟩⟩, [], [], ll ++ [0x04],
        rl ++ Xmodem.sendByte Xmodem.ack⟩ := by
  have hloop : sendLoop data n offset = ⟨[0x04], .wait .eot⟩ := if_neg h
  rw [hloop]
  refine (flushLeft [0x04] (.wait HostSite.eot) _ [] [] ll rl).trans ?_
  have hread := readsRight (P := host data) (Q := receiver P crc cbs cfg) ⟨.header, v⟩
    (⟨[], .wait .eot⟩ : HostOut) eot [] [] (ll ++ [0x04]) rl
  refine hread.trans ?_
  have hflush := flushRight (P := host data) (Q := receiver P crc cbs cfg)
    (⟨[], .wait .eot⟩ : HostOut) (Xmodem.sendByte Xmodem.ack) (.done ⟨.ok, some v.totalBytes⟩) [] []
    (ll ++ [0x04]) rl
  refine hflush.trans ?_
  exact readsLeft (P := host data) (Q := receiver P crc cbs cfg) HostSite.eot
    ⟨[], .done ⟨.ok, some v.totalBytes⟩⟩ Xmodem.ack [] [] (ll ++ [0x04]) _

theorem wire_host (bs : List Byte) : [] ++ bs.filterMap (host data).wire = bs ++ [] := by
  show [] ++ bs.filterMap some = bs ++ []
  rw [List.filterMap_some, List.nil_append, List.append_nil]

theorem resume_nak (hdata : data ≠ []) :
    (host data).resume (.ack 1 0) (.ok nak) = ⟨hostPacket data 1 0, .wait (.ack 1 0)⟩ := by
  have hloop : sendLoop data 1 0 = ⟨hostPacket data 1 0, .wait (.ack 1 0)⟩ :=
    if_pos (List.length_pos_of_ne_nil hdata)
  have hne : (ReadResult.ok nak : Read) ≠ .ok 0x06 := by decide
  show runModemSend data (.ack 1 0) (.ok nak) = _
  rw [← hloop]
  simp only [runModemSend, if_pos hne]

/-! ### A receiver in checksum mode -/

theorem feed_hostPacket (hstores : Stores cbs) (n i : ℕ) {v : RxLocals υ} (hv : v.crcMode = false)
    (hn : v.expectedBlock = UInt8.ofNat n) :
    ∃ w : RxLocals υ, w.crcMode = false ∧ w.expectedBlock = UInt8.ofNat ((n + 1) % 256) ∧
      feed (receiveStep P crc cbs cfg) (.wait ⟨.header, v⟩) (hostPacket data n (i * 128)) =
        ⟨.dataCb (UInt8.ofNat n) (fileBlock 128 data i) 0 :: Xmodem.sendByte Xmodem.ack,
          .wait ⟨.header, w⟩⟩ := by
  have hlen : (fileBlock 128 data i).length = Xmodem.blockSize128 := Xmodem.fileBlock_length 128 data i
  have hframed : (Xmodem.sentPacket crc false (UInt8.ofNat n) (fileBlock 128 data i)).Framed
      v.crcMode := by
    rw [hv]
    exact Xmodem.sentPacket_framed crc false _ _ (.inl hlen)
  have hfeed := Xmodem.feed_packet P crc cbs cfg v _ hframed
  rw [hv, if_pos (Xmodem.sentPacket_verified crc false _ _), Xmodem.sentPacket_bytes] at hfeed
  have hstored := Xmodem.acceptPacket_stored P cbs v (fileBlock 128 data i) (hstores _ _ _)
  rw [hn] at hstored
  have hpacket := hfeed.trans hstored
  rw [← hostPacket_eq data crc n i] at hpacket
  have hnext : UInt8.ofNat n + 1 = UInt8.ofNat ((n + 1) % 256) := by
    rw [ofNat_mod, UInt8.ofNat_add]
    rfl
  refine ⟨_, ?_, ?_, hpacket⟩
  · exact hv
  · exact hnext

theorem reaches_block (hstores : Stores cbs) {n i : ℕ} {v : RxLocals υ} (hv : v.crcMode = false)
    (hn : v.expectedBlock = UInt8.ofNat n) (hi : i * 128 < data.length) :
    ∃ w : RxLocals υ, w.crcMode = false ∧ w.expectedBlock = UInt8.ofNat ((n + 1) % 256) ∧
      Reaches (host data) (receiver P crc cbs cfg)
        ⟨sendLoop data n (i * 128), ⟨[], .wait ⟨.header, v⟩⟩, [], [], ll, rl⟩
        ⟨sendLoop data ((n + 1) % 256) ((i + 1) * 128), ⟨[], .wait ⟨.header, w⟩⟩, [], [],
          ll ++ hostPacket data n (i * 128),
          rl ++ .dataCb (UInt8.ofNat n) (fileBlock 128 data i) 0 :: Xmodem.sendByte Xmodem.ack⟩ := by
  obtain ⟨w, hmode, hexpected, hfeed⟩ := feed_hostPacket data P crc cbs cfg hstores n i hv hn
  refine ⟨w, hmode, hexpected, ?_⟩
  have hloop : sendLoop data n (i * 128) = ⟨hostPacket data n (i * 128), .wait (.ack n (i * 128))⟩ :=
    if_pos hi
  have hack : (host data).resume (.ack n (i * 128)) (.ok Xmodem.ack) =
      sendLoop data ((n + 1) % 256) ((i + 1) * 128) := by
    have hne : ¬ (ReadResult.ok Xmodem.ack : Read) ≠ .ok 0x06 := not_not.mpr rfl
    show runModemSend data (.ack n (i * 128)) (.ok Xmodem.ack) = _
    simp only [runModemSend, if_neg hne, Nat.add_mul, Nat.one_mul]
  have hsend := flushLeft (P := host data) (Q := receiver P crc cbs cfg) (hostPacket data n (i * 128))
    (.wait (.ack n (i * 128))) ⟨[], .wait ⟨.header, v⟩⟩ [] [] ll rl
  rw [wire_host] at hsend
  have hreads := feedRight (P := host data) (Q := receiver P crc cbs cfg)
    ⟨[], .wait (.ack n (i * 128))⟩ [] [] (ll ++ hostPacket data n (i * 128)) rl hfeed
  have hreply := readsLeft (P := host data) (Q := receiver P crc cbs cfg) (.ack n (i * 128))
    ⟨[], .wait ⟨.header, w⟩⟩ Xmodem.ack [] [] (ll ++ hostPacket data n (i * 128))
    (rl ++ .dataCb (UInt8.ofNat n) (fileBlock 128 data i) 0 :: Xmodem.sendByte Xmodem.ack)
  rw [hack] at hreply
  rw [hloop]
  exact (hsend.trans hreads).trans hreply

theorem reaches_uploaded (hstores : Stores cbs) {k i n : ℕ} {v : RxLocals υ}
    (hv : v.crcMode = false) (hn : v.expectedBlock = UInt8.ofNat n)
    (hk : blockCount 128 data = i + k)
    (hlog : delivered rl = (List.range i).map (fileBlock 128 data)) :
    ∃ t, Final t ∧ Uploaded data t ∧ Reaches (host data) (receiver P crc cbs cfg)
      ⟨sendLoop data n (i * 128), ⟨[], .wait ⟨.header, v⟩⟩, [], [], ll, rl⟩ t := by
  induction k generalizing i n v ll rl with
  | zero =>
    have hend : ¬ i * 128 < data.length := by
      rw [← Xmodem.lt_blockCount_iff (by decide), hk]
      omega
    refine ⟨_, ⟨⟨_, rfl⟩, ⟨_, rfl⟩⟩, ⟨rfl, ⟨_, rfl⟩, ?_⟩, reaches_end data P crc cbs cfg ll rl v hend⟩
    rw [Xmodem.delivered_append, Xmodem.delivered_sendByte, List.append_nil, hlog,
      ← Xmodem.fileBlocks_flatten (by decide), fileBlocks, hk]
    rfl
  | succ k ih =>
    have hi : i * 128 < data.length := by
      rw [← Xmodem.lt_blockCount_iff (by decide), hk]
      omega
    obtain ⟨w, hmode, hexpected, hblock⟩ := reaches_block data P crc cbs cfg ll rl hstores hv hn hi
    have hlog' : delivered
        (rl ++ .dataCb (UInt8.ofNat n) (fileBlock 128 data i) 0 :: Xmodem.sendByte Xmodem.ack) =
        (List.range (i + 1)).map (fileBlock 128 data) := by
      rw [Xmodem.delivered_append, hlog, List.range_succ, List.map_append]
      rfl
    obtain ⟨t, hfinal, huploaded, hrest⟩ := ih (ll ++ hostPacket data n (i * 128)) _ hmode
      hexpected (by omega) hlog'
    exact ⟨t, hfinal, huploaded, hblock.trans hrest⟩

/-! ### A receiver in CRC mode -/

/-- The receiver has taken the checksum for the first byte of a CRC, and both wait. -/
def Mismatched (s : Line υ) : Prop :=
  s.left = ⟨[], .wait (.ack 1 0)⟩ ∧ s.toRight = [] ∧ s.toLeft = [] ∧
    ∃ n buf b v, v.crcMode = true ∧ s.right = ⟨[], .wait ⟨.crcLo n buf (.ok b), v⟩⟩

theorem reaches_mismatched {v : RxLocals υ} (hv : v.crcMode = true) :
    ∃ t, Mismatched t ∧ Reaches (host data) (receiver P crc cbs cfg)
      ⟨⟨hostPacket data 1 0, .wait (.ack 1 0)⟩, ⟨[], .wait ⟨.header, v⟩⟩, [], [], ll, rl⟩ t := by
  have hlen : (fileBlock 128 data 0).length = Xmodem.blockSize128 := Xmodem.fileBlock_length 128 data 0
  -- one byte of check is less than the receiver asks for
  have hfeed : feed (receiveStep P crc cbs cfg) (.wait ⟨.header, v⟩) (hostPacket data 1 0) =
      ⟨[], .wait ⟨.crcLo 1 (fileBlock 128 data 0) (.ok (modemChecksum8 (fileBlock 128 data 0))), v⟩⟩ := by
    have hbytes : hostPacket data 1 0 =
        ((Xmodem.sentPacket crc false 1 (fileBlock 128 data 0)).header :: 1 :: ~~~1 ::
          fileBlock 128 data 0) ++ [modemChecksum8 (fileBlock 128 data 0)] :=
      hostPacket_eq data crc 1 0
    have hcheck := Xmodem.feed_toCheck P crc cbs cfg v
      (Xmodem.sentPacket_framed crc false 1 (fileBlock 128 data 0) (.inl hlen))
      (Xmodem.sentPacket_verified crc false 1 (fileBlock 128 data 0)).1
    rw [hv] at hcheck
    have hcheck' : feed (receiveStep P crc cbs cfg) (.wait ⟨.header, v⟩)
        ((Xmodem.sentPacket crc false 1 (fileBlock 128 data 0)).header :: 1 :: ~~~1 ::
          fileBlock 128 data 0) = ⟨[], .wait ⟨.crcHi 1 (fileBlock 128 data 0), v⟩⟩ := hcheck
    rw [hbytes, feed_snoc _ hcheck']
    rfl
  have hsend := flushLeft (P := host data) (Q := receiver P crc cbs cfg) (hostPacket data 1 0)
    (.wait (.ack 1 0)) ⟨[], .wait ⟨.header, v⟩⟩ [] [] ll rl
  rw [wire_host] at hsend
  have hread := feedRight (P := host data) (Q := receiver P crc cbs cfg)
    ⟨[], .wait (.ack 1 0)⟩ [] [] (ll ++ hostPacket data 1 0) rl hfeed
  exact ⟨_, ⟨rfl, rfl, rfl, _, _, _, v, hv, rfl⟩, hsend.trans hread⟩

/-- The receiver gives up on the packet and asks again, and the tool sends it again. -/
theorem Mismatched.again (hdata : data ≠ []) (s : Line υ) (h : Mismatched s) :
    ∃ k t, 0 < k ∧ PatientRun (host data) (receiver P crc cbs cfg) k s t ∧ Mismatched t := by
  obtain ⟨l, r, tr, tl, ll, rl⟩ := s
  obtain ⟨hl, htr, htl, n, buf, b, v, hv, hr⟩ := h
  obtain rfl : l = _ := hl
  obtain rfl : tr = [] := htr
  obtain rfl : tl = [] := htl
  obtain rfl : r = _ := hr
  have hidle : ∀ r : Xmodem.RxOut υ,
      ¬ LeftReady (⟨⟨[], .wait (.ack 1 0)⟩, r, [], [], ll, rl⟩ : Line υ) := by
    rintro r (hne | ⟨-, hne⟩)
    · exact hne rfl
    · exact hne rfl
  have hfail : PatientStep (host data) (receiver P crc cbs cfg)
      ⟨⟨[], .wait (.ack 1 0)⟩, ⟨[], .wait ⟨.crcLo n buf (.ok b), v⟩⟩, [], [], ll, rl⟩
      ⟨⟨[], .wait (.ack 1 0)⟩, ⟨[], .wait ⟨.purge false, v⟩⟩, [], [], ll, rl⟩ :=
    ⟨.failRight, rfl, nofun, fun _ => hidle _⟩
  have hpurge : PatientStep (host data) (receiver P crc cbs cfg)
      ⟨⟨[], .wait (.ack 1 0)⟩, ⟨[], .wait ⟨.purge false, v⟩⟩, [], [], ll, rl⟩
      ⟨⟨[], .wait (.ack 1 0)⟩, ⟨Xmodem.sendByte nak, .wait ⟨.header, { v with retries := v.retries + 1 }⟩⟩,
        [], [], ll, rl⟩ :=
    ⟨.failRight, rfl, nofun, fun _ => hidle _⟩
  have hasked := flushRight (P := host data) (Q := receiver P crc cbs cfg)
    (⟨[], .wait (.ack 1 0)⟩ : HostOut) (Xmodem.sendByte nak)
    (.wait ⟨.header, { v with retries := v.retries + 1 }⟩) [] [] ll rl
  have hread := readsLeft (P := host data) (Q := receiver P crc cbs cfg) (.ack 1 0)
    ⟨[], .wait ⟨.header, { v with retries := v.retries + 1 }⟩⟩ nak [] [] ll (rl ++ Xmodem.sendByte nak)
  rw [resume_nak data hdata] at hread
  obtain ⟨t, ht, hsent⟩ := reaches_mismatched data P crc cbs cfg ll (rl ++ Xmodem.sendByte nak)
    (v := { v with retries := v.retries + 1 }) hv
  obtain ⟨k, hk⟩ := (hasked.trans hread).trans hsent
  exact ⟨k + 1 + 1, t, by omega, .step hfail (.step hpurge hk.patient), ht⟩

end Upload

/-- For a storage that takes every block, the upload succeeds exactly when the receiver
wants checksums or there is no packet to send. -/
theorem upload_iff {υ : Type} (P : Platform) (crc : CrcService) (cbs : RxCallbacks υ) (cfg : Config)
    (data : List Byte) (u : υ) (hstores : Stores cbs) :
    (Greets cfg u → Settles (host data) (receiver P crc cbs cfg) (uploadStart cfg u) (Uploaded data)) ↔
      cfg.mode = .standard ∨ data = [] := by
  have hstart := reaches_loop data P crc cbs cfg u
  constructor
  · intro hsettles
    by_contra hnot
    rw [not_or] at hnot
    obtain ⟨hmode, hdata⟩ := hnot
    have hcrc : (rxInit cfg u).crcMode = true := decide_eq_true hmode
    have hloop : sendLoop data 1 0 = ⟨hostPacket data 1 0, .wait (.ack 1 0)⟩ :=
      if_pos (List.length_pos_of_ne_nil hdata)
    rw [hloop] at hstart
    obtain ⟨t, ht, hreach⟩ := reaches_mismatched data P crc cbs cfg []
      (Xmodem.sendByte (rxInit cfg u).req) hcrc
    exact not_settles_of_cycle (Mismatched.again data P crc cbs cfg hdata) (hstart.trans hreach) ht
      (hsettles (greets cfg u))
  · intro hcases _
    rcases hcases with hmode | hdata
    · have hcrc : (rxInit cfg u).crcMode = false := decide_eq_false (not_not.mpr hmode)
      obtain ⟨t, hfinal, huploaded, hrest⟩ := reaches_uploaded data P crc cbs cfg []
        (Xmodem.sendByte (rxInit cfg u).req) (n := 1) (i := 0) hstores hcrc rfl (Nat.zero_add _).symm rfl
      obtain ⟨k, hk⟩ := hstart.trans hrest
      exact hk.settles hfinal huploaded
    · subst hdata
      obtain ⟨k, hk⟩ := hstart.trans (reaches_end [] P crc cbs cfg _ _ (rxInit cfg u) (Nat.lt_irrefl 0))
      exact hk.settles ⟨⟨_, rfl⟩, ⟨_, rfl⟩⟩ ⟨rfl, ⟨_, rfl⟩, rfl⟩

/-! ### One byte -/

theorem upload_standard :
    Settles (host [0x61]) (receiver platform32 referenceCrc Xmodem.acceptingStorage ⟨.standard, 10⟩)
      (uploadStart ⟨.standard, 10⟩ ()) (Uploaded [0x61]) :=
  (upload_iff platform32 referenceCrc Xmodem.acceptingStorage ⟨.standard, 10⟩ [0x61] ()
    (fun _ _ _ => rfl)).mpr (.inl rfl) (greets _ ())

/-- The default configuration asks for CRC. -/
theorem not_settles_upload :
    Greets Xmodem.configInit () ∧
    ¬ Settles (host [0x61]) (receiver platform32 referenceCrc Xmodem.acceptingStorage Xmodem.configInit)
      (uploadStart Xmodem.configInit ()) (Uploaded [0x61]) := by
  refine ⟨greets _ (), ?_⟩
  have hstart := reaches_loop [0x61] platform32 referenceCrc Xmodem.acceptingStorage
    Xmodem.configInit ()
  obtain ⟨t, ht, hreach⟩ := reaches_mismatched [0x61] platform32 referenceCrc
    Xmodem.acceptingStorage Xmodem.configInit [] (Xmodem.sendByte charC)
    (v := rxInit Xmodem.configInit ()) rfl
  exact not_settles_of_cycle (Mismatched.again _ _ _ _ _ (List.cons_ne_nil _ _)) (hstart.trans hreach) ht

end ZephyrModem.Tools
