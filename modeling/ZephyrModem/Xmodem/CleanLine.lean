import ZephyrModem.Xmodem.Line
import ZephyrModem.Xmodem.UnknownLength

/-!
# A file over a line without loss

`xmodem_transmit` and `xmodem_receive` joined by a line that neither loses nor damages a
byte: one run of the two to its end. A file of length 0 is announced as one of unknown
length, so that a block of padding goes over.
-/

namespace ZephyrModem.Xmodem
open ZephyrModem.Reactive ZephyrModem.Reactive.Duplex

variable {υ : Type} (P : Platform) (crc : CrcService) (cbs : RxCallbacks υ)
  (tcfg rcfg : Config) (file : List Byte)

def sentCount (bs : ℕ) (file : List Byte) : ℕ := max 1 (blockCount bs file)

/-- What the receiver is given for a file. -/
def sentFile (bs : ℕ) (file : List Byte) : List Byte :=
  ((List.range (sentCount bs file)).map (fileBlock bs file)).flatten

/-- What the transmitter sends for a file, with the check that the receiver has asked for. -/
def fileStream (crc : CrcService) (tcfg : Config) (file : List Byte) (c : Bool) : List Byte :=
  (List.range (sentCount (txBlockSize tcfg) file)).flatMap (filePacket crc tcfg file c) ++ [eot]

/-- What the receiver answers: its request, an ACK for each block and one for EOT. -/
def fileReplies (rcfg : Config) (bs : ℕ) (file : List Byte) : List Byte :=
  (if rcfg.mode ≠ .standard then charC else nak) :: List.replicate (sentCount bs file + 1) ack

/-- The storage takes every block, as long as `Inv` holds of it, and keeps `Inv`. -/
def Takes (cbs : RxCallbacks υ) (Inv : υ → Prop) : Prop :=
  ∀ n buf u, Inv u → buf.length ≤ blockSize1024 →
    (cbs.dataCb n buf u).1 = 0 ∧ Inv (cbs.dataCb n buf u).2

theorem flatten_blocks_length (bs : ℕ) (file : List Byte) (n : ℕ) :
    ((List.range n).map (fileBlock bs file)).flatten.length = n * bs := by
  rw [List.length_flatten, List.map_map]
  have hlen : (List.length ∘ fileBlock bs file) = fun _ => bs := by
    funext i
    exact fileBlock_length bs file i
  rw [hlen, List.map_const', List.sum_replicate_nat, List.length_range]

theorem sentFile_length (bs : ℕ) (file : List Byte) :
    (sentFile bs file).length = sentCount bs file * bs :=
  flatten_blocks_length bs file (sentCount bs file)

theorem txBlockSize_le : txBlockSize tcfg ≤ blockSize1024 := by
  rcases txBlockSize_cases tcfg with h | h
  · rw [h]
    decide
  · rw [h]

theorem txBlockSize_lt_sizeMod : txBlockSize tcfg < P.sizeMod := by
  have hle := txBlockSize_le tcfg
  have hmod := P.sizeMod_ge
  have hblock : blockSize1024 = 1024 := rfl
  omega

/-! ### The transmitter -/

theorem supply_nil (n : Byte) :
    supply (fileCallbacks []) tcfg n 0 = (0, fileBlock (txBlockSize tcfg) [] 0, 0) := by
  have h := fileCallbacks_block (txBlockSize tcfg) [] n 0
  rw [Nat.zero_mul] at h
  rw [supply, h]
  simp

theorem start_nil (c : Bool) (hmax : 0 < tcfg.maxRetries) :
    nextBlock P crc (fileCallbacks []) tcfg 0 ⟨c, 1, 0, 0⟩ =
      ⟨fileCall tcfg [] 0 :: writeBytes (filePacket crc tcfg [] c 0),
        .wait (txReply tcfg [] c 0 0)⟩ := by
  have hlocals : (⟨c, 1, 0, 0⟩ : TxLocals ℕ) = txLocals tcfg [] c 0 := by
    rw [txLocals, Nat.zero_mul, List.length_nil, Nat.min_zero]
    rfl
  have hzero : (supply (fileCallbacks []) tcfg 1 0).1 = 0 := by rw [supply_nil]
  rw [start_first c hzero hmax, supply_nil, txReply, hlocals]
  rfl

/-- The first block goes out as soon as the start byte is there. -/
theorem starts (c : Bool) (hmax : 0 < tcfg.maxRetries) :
    nextBlock P crc (fileCallbacks file) tcfg file.length ⟨c, 1, 0, 0⟩ =
      ⟨fileCall tcfg file 0 :: writeBytes (filePacket crc tcfg file c 0),
        .wait (txReply tcfg file c 0 0)⟩ := by
  by_cases hfile : file = []
  · subst hfile
    exact start_nil P crc tcfg c hmax
  · have hpos : 0 < file.length := List.length_pos_of_ne_nil hfile
    have hfirst := nextBlock_file P crc tcfg file c 0 0 1 (by omega) (by omega) rfl
    rw [Nat.zero_mul, sendPacket_file crc tcfg file c 0 0 hmax] at hfirst
    exact hfirst

/-- EOT goes out, behind a call of `data_cb` for a stream of unknown length. -/
def AtEot (o : TxOut ℕ) : Prop :=
  ∃ es, es.filterMap Event.wire = [eot] ∧ o = ⟨es, .wait (.eotReply 0)⟩

theorem atEot_sendEot (hmax : 0 < tcfg.maxRetries) {es : List Event}
    (hes : es.filterMap Event.wire = []) : AtEot ((sendEot tcfg 0 : TxOut ℕ).after es) := by
  refine ⟨es ++ sendByte eot, ?_, ?_⟩
  · rw [List.filterMap_append, hes, List.nil_append, wire_sendByte]
  · rw [sendEot, if_pos hmax]
    rfl

theorem acked_nil (c : Bool) (r : Byte) (hmax : 0 < tcfg.maxRetries) :
    AtEot (txStep P crc tcfg [] (txReply tcfg [] c 0 r) (.ok ack)) := by
  have hsize : P.toSize (0 * txBlockSize tcfg + txBlockSize tcfg) = txBlockSize tcfg := by
    rw [Nat.zero_mul, Nat.zero_add, P.toSize_of_lt (txBlockSize_lt_sizeMod P tcfg)]
  have hstep : txStep P crc tcfg [] (txReply tcfg [] c 0 r) (.ok ack) =
      nextBlock P crc (fileCallbacks []) tcfg 0 ⟨c, 2, txBlockSize tcfg, 0⟩ := by
    simp only [txStep, transmitStep, txReply, if_true, fileBlock_length, txLocals, hsize,
      List.length_nil, Nat.min_zero]
    rfl
  rw [hstep, nextBlock_ends (txBlockSize_pos tcfg) (by rw [supply_nil])]
  exact atEot_sendEot tcfg hmax rfl

/-- After the ACK for a block the next one follows, or EOT after the last one. -/
theorem acked (c : Bool) {i : ℕ} (r : Byte) (hi : i < sentCount (txBlockSize tcfg) file)
    (hfit : blockCount (txBlockSize tcfg) file * txBlockSize tcfg < P.sizeMod)
    (hmax : 0 < tcfg.maxRetries) :
    if i + 1 < sentCount (txBlockSize tcfg) file then
      txStep P crc tcfg file (txReply tcfg file c i r) (.ok ack) =
        ⟨fileCall tcfg file (i + 1) :: writeBytes (filePacket crc tcfg file c (i + 1)),
          .wait (txReply tcfg file c (i + 1) 0)⟩
    else AtEot (txStep P crc tcfg file (txReply tcfg file c i r) (.ok ack)) := by
  unfold sentCount at hi ⊢
  by_cases hfile : file = []
  · subst hfile
    have hnone : blockCount (txBlockSize tcfg) [] = 0 := by
      have hge := txBlockSize_pos tcfg
      rw [blockCount, List.length_nil, Nat.zero_add]
      exact Nat.div_eq_of_lt (by omega)
    rw [hnone] at hi ⊢
    obtain rfl : i = 0 := by omega
    rw [if_neg (by omega)]
    exact acked_nil P crc tcfg c r hmax
  · have hpos : 0 < blockCount (txBlockSize tcfg) file := by
      rw [lt_blockCount_iff (txBlockSize_pos tcfg), Nat.zero_mul]
      exact List.length_pos_of_ne_nil hfile
    have hstep := txStep_ack P crc tcfg file c i r (by omega) hfit
    by_cases hnext : i + 1 < blockCount (txBlockSize tcfg) file
    · rw [if_pos (by omega)]
      rw [if_pos hnext, sendPacket_file crc tcfg file c (i + 1) 0 hmax] at hstep
      exact hstep
    · rw [if_neg (by omega)]
      rw [if_neg hnext] at hstep
      have heot : AtEot ((sendEot tcfg 0 : TxOut ℕ).after []) := atEot_sendEot tcfg hmax rfl
      rwa [Out.after_nil, ← hstep] at heot

/-! ### The receiver -/

variable {Inv : υ → Prop}

/-- The receiver stands before a packet and expects block `i`, counted from 0. -/
structure BeforeBlock (Inv : υ → Prop) (c : Bool) (i : ℕ) (v : RxLocals υ) : Prop where
  mode : v.crcMode = c
  number : v.expectedBlock = UInt8.ofNat (i + 1)
  storage : Inv v.userData

theorem feed_filePacket (htakes : Takes cbs Inv) {c : Bool} {i : ℕ} {v : RxLocals υ}
    (hv : BeforeBlock Inv c i v) : ∃ w : RxLocals υ, BeforeBlock Inv c (i + 1) w ∧
      feed (receiveStep P crc cbs rcfg) (.wait ⟨.header, v⟩) (filePacket crc tcfg file c i) =
        ⟨.dataCb (UInt8.ofNat (i + 1)) (fileBlock (txBlockSize tcfg) file i) 0 :: sendByte ack,
          .wait ⟨.header, w⟩⟩ := by
  obtain ⟨hmode, hnumber, hinv⟩ := hv
  have hlen : (fileBlock (txBlockSize tcfg) file i).length = txBlockSize tcfg := fileBlock_length _ file i
  obtain ⟨hres, hkeeps⟩ := htakes v.expectedBlock (fileBlock (txBlockSize tcfg) file i) v.userData hinv
    (by rw [hlen]; exact txBlockSize_le tcfg)
  have hframed : (sentPacket crc c (UInt8.ofNat (i + 1)) (fileBlock (txBlockSize tcfg) file i)).Framed
      v.crcMode := by
    rw [hmode]
    exact sentPacket_framed crc c _ _ (by rw [hlen]; exact txBlockSize_cases tcfg)
  have hfeed := feed_packet P crc cbs rcfg v _ hframed
  rw [hmode, if_pos (sentPacket_verified crc c _ _), sentPacket_bytes] at hfeed
  have hstored := acceptPacket_stored P cbs v (fileBlock (txBlockSize tcfg) file i) hres
  rw [hnumber] at hstored hkeeps
  have hnext : UInt8.ofNat (i + 1) + 1 = UInt8.ofNat (i + 1 + 1) := by
    rw [UInt8.ofNat_add (i + 1) 1]
    rfl
  refine ⟨_, ⟨?_, ?_, ?_⟩, hfeed.trans hstored⟩
  · exact hmode
  · exact hnext
  · exact hkeeps

/-! ### Runs -/

variable (ll rl : List Event)

theorem reaches_acked (htakes : Takes cbs Inv) {c : Bool} {i : ℕ} {v : RxLocals υ}
    (hv : BeforeBlock Inv c i v) : ∃ w : RxLocals υ, BeforeBlock Inv c (i + 1) w ∧
      Reaches (transmitter P crc tcfg file) (receiver P crc cbs rcfg)
        ⟨⟨fileCall tcfg file i :: writeBytes (filePacket crc tcfg file c i),
          .wait (txReply tcfg file c i 0)⟩, ⟨[], .wait ⟨.header, v⟩⟩, [], [], ll, rl⟩
        ⟨txStep P crc tcfg file (txReply tcfg file c i 0) (.ok ack), ⟨[], .wait ⟨.header, w⟩⟩, [], [],
          ll ++ fileCall tcfg file i :: writeBytes (filePacket crc tcfg file c i),
          rl ++ .dataCb (UInt8.ofNat (i + 1)) (fileBlock (txBlockSize tcfg) file i) 0 ::
            sendByte ack⟩ := by
  obtain ⟨w, hw, hfeed⟩ := feed_filePacket P crc cbs tcfg rcfg file htakes hv
  refine ⟨w, hw, ?_⟩
  have hsend := flushLeft (P := transmitter P crc tcfg file) (Q := receiver P crc cbs rcfg)
    (fileCall tcfg file i :: writeBytes (filePacket crc tcfg file c i))
    (.wait (txReply tcfg file c i 0)) ⟨[], .wait ⟨.header, v⟩⟩ [] [] ll rl
  have hwire : [] ++ (fileCall tcfg file i :: writeBytes (filePacket crc tcfg file c i)).filterMap
      (transmitter P crc tcfg file).wire = filePacket crc tcfg file c i ++ [] := by
    rw [List.append_nil, List.nil_append]
    exact (wire_dataCb _ _ _ _).trans (wire_writeBytes _)
  rw [hwire] at hsend
  have hreads := feedRight (P := transmitter P crc tcfg file) (Q := receiver P crc cbs rcfg)
    ⟨[], .wait (txReply tcfg file c i 0)⟩ [] []
    (ll ++ fileCall tcfg file i :: writeBytes (filePacket crc tcfg file c i)) rl hfeed
  have hreply := readsLeft (P := transmitter P crc tcfg file) (Q := receiver P crc cbs rcfg)
    (txReply tcfg file c i 0) ⟨[], .wait ⟨.header, w⟩⟩ ack [] []
    (ll ++ fileCall tcfg file i :: writeBytes (filePacket crc tcfg file c i))
    (rl ++ .dataCb (UInt8.ofNat (i + 1)) (fileBlock (txBlockSize tcfg) file i) 0 :: sendByte ack)
  exact (hsend.trans hreads).trans hreply

theorem reaches_eot {o : TxOut ℕ} (ho : AtEot o) (v : RxLocals υ) : ∃ es,
    es.filterMap Event.wire = [eot] ∧ Reaches (transmitter P crc tcfg file) (receiver P crc cbs rcfg)
      ⟨o, ⟨[], .wait ⟨.header, v⟩⟩, [], [], ll, rl⟩
      ⟨⟨[], .done .ok⟩, ⟨[], .done ⟨.ok, some v.totalBytes⟩⟩, [], [], ll ++ es, rl ++ sendByte ack⟩ := by
  obtain ⟨es, hes, rfl⟩ := ho
  refine ⟨es, hes, ?_⟩
  have hsend := flushLeft (P := transmitter P crc tcfg file) (Q := receiver P crc cbs rcfg) es
    (.wait (.eotReply 0)) ⟨[], .wait ⟨.header, v⟩⟩ [] [] ll rl
  have hwire : es.filterMap (transmitter P crc tcfg file).wire = [eot] := hes
  rw [hwire] at hsend
  have hread := readsRight (P := transmitter P crc tcfg file) (Q := receiver P crc cbs rcfg)
    ⟨.header, v⟩ (⟨[], .wait (.eotReply 0)⟩ : TxOut ℕ) eot [] [] (ll ++ es) rl
  have hflush := flushRight (P := transmitter P crc tcfg file) (Q := receiver P crc cbs rcfg)
    (⟨[], .wait (.eotReply 0)⟩ : TxOut ℕ) (sendByte ack) (.done ⟨.ok, some v.totalBytes⟩) [] []
    (ll ++ es) rl
  have hreply := readsLeft (P := transmitter P crc tcfg file) (Q := receiver P crc cbs rcfg)
    (.eotReply 0) ⟨[], .done ⟨.ok, some v.totalBytes⟩⟩ ack [] [] (ll ++ es) (rl ++ sendByte ack)
  exact ((hsend.trans hread).trans hflush).trans hreply

/-- What the two have sent when block `i` is next. -/
structure SentBlocks (crc : CrcService) (tcfg : Config) (file : List Byte) (c : Bool) (req : Byte)
    (i : ℕ) (ll rl : List Event) : Prop where
  delivered : delivered rl = (List.range i).map (fileBlock (txBlockSize tcfg) file)
  sent : ll.filterMap Event.wire = (List.range i).flatMap (filePacket crc tcfg file c)
  replies : rl.filterMap Event.wire = req :: List.replicate i ack

theorem SentBlocks.next {c : Bool} {req : Byte} {i : ℕ} {ll rl : List Event}
    (h : SentBlocks crc tcfg file c req i ll rl) : SentBlocks crc tcfg file c req (i + 1)
      (ll ++ fileCall tcfg file i :: writeBytes (filePacket crc tcfg file c i))
      (rl ++ .dataCb (UInt8.ofNat (i + 1)) (fileBlock (txBlockSize tcfg) file i) 0 :: sendByte ack) where
  delivered := by
    rw [delivered_append, h.delivered, List.range_succ, List.map_append]
    rfl
  sent := by
    have hpacket : (fileCall tcfg file i :: writeBytes (filePacket crc tcfg file c i)).filterMap
        Event.wire = filePacket crc tcfg file c i := (wire_dataCb _ _ _ _).trans (wire_writeBytes _)
    rw [List.filterMap_append, h.sent, hpacket, List.range_succ, List.flatMap_append]
    simp
  replies := by
    rw [List.filterMap_append, h.replies, wire_dataCb, wire_sendByte, List.replicate_succ']
    rfl

theorem SentBlocks.sent_prefix {c : Bool} {req : Byte} {i : ℕ} {ll rl : List Event}
    (h : SentBlocks crc tcfg file c req i ll rl) (hi : i ≤ sentCount (txBlockSize tcfg) file) :
    ll.filterMap Event.wire <+: fileStream crc tcfg file c := by
  obtain ⟨k, hk⟩ := Nat.exists_eq_add_of_le hi
  rw [h.sent, fileStream, hk, List.range_add, List.flatMap_append, List.append_assoc]
  exact List.prefix_append _ _

/-- From the packet of block `i` to the end, where `k` more blocks follow it. -/
theorem reaches_blocks (htakes : Takes cbs Inv) (hmax : 0 < tcfg.maxRetries)
    (hfit : blockCount (txBlockSize tcfg) file * txBlockSize tcfg < P.sizeMod) {c : Bool} {k i : ℕ}
    {v : RxLocals υ} (hv : BeforeBlock Inv c i v) (hk : sentCount (txBlockSize tcfg) file = i + 1 + k)
    {req : Byte} (hlog : SentBlocks crc tcfg file c req i ll rl) :
    ∃ n ll' rl', delivered rl' =
        (List.range (sentCount (txBlockSize tcfg) file)).map (fileBlock (txBlockSize tcfg) file) ∧
      ll'.filterMap Event.wire = fileStream crc tcfg file c ∧
      rl'.filterMap Event.wire =
        req :: List.replicate (sentCount (txBlockSize tcfg) file + 1) ack ∧
      Reaches (transmitter P crc tcfg file) (receiver P crc cbs rcfg)
        ⟨⟨fileCall tcfg file i :: writeBytes (filePacket crc tcfg file c i),
          .wait (txReply tcfg file c i 0)⟩, ⟨[], .wait ⟨.header, v⟩⟩, [], [], ll, rl⟩
        ⟨⟨[], .done .ok⟩, ⟨[], .done ⟨.ok, some n⟩⟩, [], [], ll', rl'⟩ := by
  induction k generalizing i v ll rl with
  | zero =>
    obtain ⟨w, -, hblock⟩ := reaches_acked P crc cbs tcfg rcfg file ll rl htakes hv
    have hend := acked P crc tcfg file c (i := i) 0 (by omega) hfit hmax
    rw [if_neg (by omega)] at hend
    obtain ⟨es, hes, hlast⟩ := reaches_eot P crc cbs tcfg rcfg file
      (ll ++ fileCall tcfg file i :: writeBytes (filePacket crc tcfg file c i))
      (rl ++ .dataCb (UInt8.ofNat (i + 1)) (fileBlock (txBlockSize tcfg) file i) 0 :: sendByte ack)
      hend w
    obtain ⟨hdelivered, hsent, hreplies⟩ := hlog.next
    rw [Nat.add_zero] at hk
    refine ⟨w.totalBytes, _, _, ?_, ?_, ?_, hblock.trans hlast⟩
    · rw [hk, delivered_append, hdelivered, delivered_sendByte, List.append_nil]
    · rw [List.filterMap_append, hsent, hes, fileStream, hk]
    · rw [List.filterMap_append, hreplies, wire_sendByte, hk, List.cons_append,
        ← List.replicate_succ']
  | succ k ih =>
    obtain ⟨w, hw, hblock⟩ := reaches_acked P crc cbs tcfg rcfg file ll rl htakes hv
    have hnext := acked P crc tcfg file c (i := i) 0 (by omega) hfit hmax
    rw [if_pos (by omega)] at hnext
    rw [hnext] at hblock
    obtain ⟨n, ll', rl', hdelivered, hsent, hreplies, hrest⟩ := ih _ _ hw (by omega) hlog.next
    exact ⟨n, ll', rl', hdelivered, hsent, hreplies, hblock.trans hrest⟩

/-- The request of the receiver brings the first block onto its way. -/
theorem reaches_request (hmax : 0 < tcfg.maxRetries) (u : υ) :
    Reaches (transmitter P crc tcfg file) (receiver P crc cbs rcfg)
      (Duplex.init (xmodemTransmit 0) (xmodemReceive rcfg u))
      ⟨⟨fileCall tcfg file 0 :: writeBytes (filePacket crc tcfg file (rxInit rcfg u).crcMode 0),
        .wait (txReply tcfg file (rxInit rcfg u).crcMode 0 0)⟩, ⟨[], .wait ⟨.header, rxInit rcfg u⟩⟩,
        [], [], [], sendByte (rxInit rcfg u).req⟩ := by
  have hflush := flushRight (P := transmitter P crc tcfg file) (Q := receiver P crc cbs rcfg)
    (⟨[], .wait (.start 0 0)⟩ : TxOut ℕ) (sendByte (rxInit rcfg u).req)
    (.wait ⟨.header, rxInit rcfg u⟩) [] [] [] []
  have hread := readsLeft (P := transmitter P crc tcfg file) (Q := receiver P crc cbs rcfg)
    (.start 0 0) ⟨[], .wait ⟨.header, rxInit rcfg u⟩⟩ (rxInit rcfg u).req [] [] []
    (sendByte (rxInit rcfg u).req)
  have hstart : (transmitter P crc tcfg file).resume (.start 0 0) (.ok (rxInit rcfg u).req) =
      nextBlock P crc (fileCallbacks file) tcfg file.length ⟨(rxInit rcfg u).crcMode, 1, 0, 0⟩ := by
    by_cases hmode : rcfg.mode ≠ .standard
    · simp [transmitter, txStep, transmitStep, rxInit, hmode]
    · simp [transmitter, txStep, transmitStep, rxInit, hmode, show nak ≠ charC by decide]
  rw [hstart, starts P crc tcfg file _ hmax] at hread
  exact hflush.trans hread

/-- What is on the line of a file when its first block is on its way. -/
theorem sentBlocks_request (u : υ) : SentBlocks crc tcfg file (rxInit rcfg u).crcMode
    (rxInit rcfg u).req 0 [] (sendByte (rxInit rcfg u).req) := ⟨rfl, rfl, rfl⟩

/-- One run of the two to its end. -/
theorem reaches_sent (htakes : Takes cbs Inv) (hmax : 0 < tcfg.maxRetries)
    (hfit : blockCount (txBlockSize tcfg) file * txBlockSize tcfg < P.sizeMod) {u : υ} (hu : Inv u) :
    ∃ n ll rl, delivered rl =
        (List.range (sentCount (txBlockSize tcfg) file)).map (fileBlock (txBlockSize tcfg) file) ∧
      ll.filterMap Event.wire = fileStream crc tcfg file (rcfg.mode ≠ .standard) ∧
      rl.filterMap Event.wire = fileReplies rcfg (txBlockSize tcfg) file ∧
      Reaches (transmitter P crc tcfg file) (receiver P crc cbs rcfg)
        (Duplex.init (xmodemTransmit 0) (xmodemReceive rcfg u))
        ⟨⟨[], .done .ok⟩, ⟨[], .done ⟨.ok, some n⟩⟩, [], [], ll, rl⟩ := by
  obtain ⟨n, ll, rl, hdelivered, hsent, hreplies, hrest⟩ := reaches_blocks P crc cbs tcfg rcfg file []
    (sendByte (rxInit rcfg u).req) htakes hmax hfit
    (k := sentCount (txBlockSize tcfg) file - 1) (i := 0) (v := rxInit rcfg u) ⟨rfl, rfl, hu⟩
    (by unfold sentCount; omega) (sentBlocks_request crc tcfg rcfg file u)
  exact ⟨n, ll, rl, hdelivered, hsent, hreplies,
    (reaches_request P crc cbs tcfg rcfg file hmax u).trans hrest⟩

end ZephyrModem.Xmodem
