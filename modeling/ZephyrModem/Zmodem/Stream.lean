import ZephyrModem.Zmodem.Frames
import ZephyrModem.Zmodem.Model

/-!
# The stream that `zmodem_transmit` writes

What a cooperating peer makes `zmodem_transmit` write, and what `zmodem_receive`
reports when it reads these bytes.
-/

namespace ZephyrModem.Zmodem
open ZephyrModem.Reactive ZephyrModem.Transfer

/-! ### The file information -/

structure Sendable (P : Platform) (f : File) : Prop where
  name_ne_nil : f.name ≠ []
  name_length : f.name.length ≤ 200
  name_noNul : (0 : Byte) ∉ f.name
  size_lt : f.contents.length < P.sizeMod

variable {P : Platform} {f : File}

theorem fileSubpacket_of_sendable (h : Sendable P f) :
    fileSubpacket (fileInfo f) = f.name ++ 0 :: (decimal f.contents.length ++ [0]) := by
  have hname := h.name_length
  have htext : (decimal f.contents.length).length ≤ 20 :=
    decimal_length_le (Nat.lt_of_lt_of_le h.size_lt P.sizeMod_le)
  have hmin : min f.name.length 200 = f.name.length := Nat.min_eq_left hname
  have hcut : (decimal f.contents.length).take (512 - (f.name.length + 1) - 1) =
      decimal f.contents.length := List.take_of_length_le (by omega)
  simp only [fileSubpacket, fileInfo, hmin, hcut, List.take_length, List.append_assoc,
    List.cons_append]

theorem length_fileSubpacket_le (h : Sendable P f) : (fileSubpacket (fileInfo f)).length ≤ 1024 := by
  have hname := h.name_length
  have htext : (decimal f.contents.length).length ≤ 20 :=
    decimal_length_le (Nat.lt_of_lt_of_le h.size_lt P.sizeMod_le)
  rw [fileSubpacket_of_sendable h]
  simp only [List.length_append, List.length_cons, List.length_nil]
  omega

/-- The receiver reads name and size back; nothing behind the subpacket is used. -/
theorem parseFileInfo_fileSubpacket (stale : List Byte → List Byte) (h : Sendable P f)
    (hwidth : P.sizeBits ≤ P.ulongBits) :
    parseFileInfo P stale (fileSubpacket (fileInfo f)) = fileInfo f := by
  have hname := h.name_length
  have hle : f.contents.length ≤ P.ulongMax := by
    have hlt := h.size_lt
    have hmod : P.sizeMod ≤ 2 ^ P.ulongBits := Nat.pow_le_pow_right (by decide) hwidth
    change f.contents.length ≤ 2 ^ P.ulongBits - 1
    omega
  have hcstr : cstr (f.name ++ 0 :: (decimal f.contents.length ++ [0])) = f.name :=
    cstr_append_nul h.name_noNul _
  have hnlen : (if f.name.length ≥ filenameSize then filenameSize - 1 else f.name.length) =
      f.name.length := if_neg (by unfold filenameSize; omega)
  have hlen : f.name.length + 1 < (f.name ++ 0 :: (decimal f.contents.length ++ [0])).length := by
    simp only [List.length_append, List.length_cons, List.length_nil]
    omega
  have hdrop : ∀ more : List Byte, (f.name ++ 0 :: (decimal f.contents.length ++ [0]) ++ more).drop
      (f.name.length + 1) = decimal f.contents.length ++ 0 :: more := by
    intro more
    rw [List.append_assoc, List.drop_append]
    simp
  unfold parseFileInfo
  rw [fileSubpacket_of_sendable h]
  simp only [hcstr, hnlen, if_pos hlen, hdrop, strtoul_decimal P hle, P.toSize_of_lt h.size_lt,
    List.take_left]
  rfl

/-! ### The receiver on whole frames -/

section Receiver

variable {υ : Type} (P : Platform) (crc : CrcService) (stale : List Byte → List Byte)
  (cbs : RxCallbacks υ)

theorem feed_header {h : HeaderSite} {bs rest : List Byte} {a : Option Header}
    (hp : parse (readHeaderRx crc) (.wait h) bs = (.done a, rest)) (u : υ) :
    feed (receiveStep P crc stale cbs) (.wait ⟨.header h, u⟩) bs =
      (feed (receiveStep P crc stale cbs) (onHeader crc u a).next rest).after
        (onHeader crc u a).events := by
  rw [feed_embed (readHeaderRx crc) (receiveStep P crc stale cbs) (fun h => ⟨.header h, u⟩)
    (onHeader crc u), hp]
  intro t i
  rfl

theorem feed_fileInfo {isCrc32 : Bool} {p : PacketSite} {bs rest : List Byte}
    {a : Option (List Byte × Byte)}
    (hp : parse (readSubpacketRx crc 1024 isCrc32) (.wait p) bs = (.done a, rest)) (u : υ) :
    feed (receiveStep P crc stale cbs) (.wait ⟨.fileInfo isCrc32 p, u⟩) bs =
      (feed (receiveStep P crc stale cbs) (onFileInfo P crc stale cbs u a).next rest).after
        (onFileInfo P crc stale cbs u a).events := by
  rw [feed_embed (readSubpacketRx crc 1024 isCrc32) (receiveStep P crc stale cbs)
    (fun p => ⟨.fileInfo isCrc32 p, u⟩) (onFileInfo P crc stale cbs u), hp]
  intro t i
  rfl

theorem feed_fileHeader {g : FileLocals} {h : HeaderSite} {bs rest : List Byte} {a : Option Header}
    (hp : parse (readHeaderRx crc) (.wait h) bs = (.done a, rest)) (u : υ) :
    feed (receiveStep P crc stale cbs) (.wait ⟨.fileHeader g h, u⟩) bs =
      (feed (receiveStep P crc stale cbs) (onFileHeader crc cbs g u a).next rest).after
        (onFileHeader crc cbs g u a).events := by
  rw [feed_embed (readHeaderRx crc) (receiveStep P crc stale cbs) (fun h => ⟨.fileHeader g h, u⟩)
    (onFileHeader crc cbs g u), hp]
  intro t i
  rfl

theorem feed_data {g : FileLocals} {isCrc32 : Bool} {p : PacketSite} {bs rest : List Byte}
    {a : Option (List Byte × Byte)}
    (hp : parse (readSubpacketRx crc 1024 isCrc32) (.wait p) bs = (.done a, rest)) (u : υ) :
    feed (receiveStep P crc stale cbs) (.wait ⟨.data g isCrc32 p, u⟩) bs =
      (feed (receiveStep P crc stale cbs) (onData P cbs g isCrc32 u a).next rest).after
        (onData P cbs g isCrc32 u a).events := by
  rw [feed_embed (readSubpacketRx crc 1024 isCrc32) (receiveStep P crc stale cbs)
    (fun p => ⟨.data g isCrc32 p, u⟩) (onData P cbs g isCrc32 u), hp]
  intro t i
  rfl

end Receiver

/-! ### The transmitter on whole headers -/

section Transmitter

variable {υ : Type} (P : Platform) (crc : CrcService) (uninit : ℕ → Byte) (tcbs : TxCallbacks υ)

theorem feed_txContinue (wrap : HeaderSite → TxSite υ) {k : Option Header → TxOut υ}
    (hstep : ∀ h r, transmitStep P crc uninit tcbs (wrap h) r =
      txContinueAt wrap (readHeaderTx crc h r) k)
    {h : HeaderSite} {bs rest : List Byte} {a : Option Header}
    (hp : parse (readHeaderTx crc) (.wait h) bs = (.done a, rest)) :
    feed (transmitStep P crc uninit tcbs) (.wait (wrap h)) bs =
      (feed (transmitStep P crc uninit tcbs) (k a).next rest).after (k a).events := by
  rw [feed_embed (readHeaderTx crc) (transmitStep P crc uninit tcbs) wrap k, hp]
  intro h r
  rw [hstep]
  cases readHeaderTx crc h r <;> rfl

theorem parse_answer (type : Byte) (flags junk rest : List Byte) (h : flags.length = 4)
    (hjunk : zpad ∉ junk) :
    parse (readHeaderTx crc) (.wait .pad) (junk ++ (hexHeader crc type flags ++ rest)) =
      (.done (some ⟨type, flags, false⟩), hexTrailer type ++ rest) :=
  (parse_skip crc false junk _ hjunk).trans (parse_hexHeader crc false type flags rest h)

theorem sendFile_zeroFlags (v : TxLocals υ) :
    sendFile P crc uninit tcbs v zeroFlags =
      ⟨writeBytes (binaryHeader crc zdata (posFlags 0)) ++
          (sendChunks crc tcbs v ((List.range 1024).map uninit) 0).1 ++
          sendHexHeaderTx crc zeof (posFlags v.info.size),
        .wait (.nextZrinit { v with
          userData := (sendChunks crc tcbs v ((List.range 1024).map uninit) 0).2 } .pad)⟩ := by
  have hpos : flagsPos P zeroFlags = 0 := Nat.zero_mod _
  unfold sendFile
  rw [hpos]

theorem feed_txFile (v : TxLocals υ) (junk rest : List Byte) (hjunk : zpad ∉ junk) :
    ∃ u, feed (transmitStep P crc uninit tcbs) (.wait (.zrpos v .pad))
        (junk ++ (hexHeader crc zrpos zeroFlags ++ (hexHeader crc zrinit zeroFlags ++ rest))) =
      ((feed (transmitStep P crc uninit tcbs) (nextFile crc tcbs (P.toSize (v.fileIdx + 1)) u).next
        (hexTrailer zrinit ++ rest)).after
          (nextFile crc tcbs (P.toSize (v.fileIdx + 1)) u).events).after
        (sendFile P crc uninit tcbs v zeroFlags).events := by
  refine ⟨(sendChunks crc tcbs v ((List.range 1024).map uninit) 0).2, ?_⟩
  rw [feed_txContinue P crc uninit tcbs (.zrpos v) (fun _ _ => rfl)
    (parse_answer crc zrpos zeroFlags junk _ rfl hjunk)]
  simp only [if_true, sendFile_zeroFlags]
  rw [feed_txContinue P crc uninit tcbs (.nextZrinit _) (fun _ _ => rfl)
    (parse_answer crc zrinit zeroFlags (hexTrailer zrpos) rest rfl (zpad_notMem_hexTrailer zrpos))]
  simp

end Transmitter

/-! ### The data of one file -/

section Stream

variable {υ υ' : Type} (crc : CrcService) (stale : List Byte → List Byte) (uninit : ℕ → Byte)
  {tcbs : TxCallbacks υ} {files : List File} (start : FileInfo → υ' → ℤ × υ')
  (data : List Byte → ℕ → ℕ → υ' → ℤ × υ') (finish : FileInfo → Status → υ' → υ')

/-- The chunk the transmitter sends at an offset inside the file. -/
def chunkAt (contents : List Byte) (offset : ℕ) : List Byte := (contents.drop offset).take 1024

theorem length_chunkAt (contents : List Byte) (offset : ℕ) :
    (chunkAt contents offset).length = min 1024 (contents.length - offset) := by
  rw [chunkAt, List.length_take, List.length_drop]

def enderAt (contents : List Byte) (offset : ℕ) : Byte :=
  if offset + (chunkAt contents offset).length ≥ contents.length then zcrcw else zcrcg

theorem isEnder_enderAt (contents : List Byte) (offset : ℕ) : IsEnder (enderAt contents offset) := by
  unfold enderAt
  split
  · exact .inr rfl
  · exact .inl rfl

theorem sendChunks_of_lt (hs : Serves P.sizeMod tcbs files) {v : TxLocals υ}
    (hidx : files[v.fileIdx]? = some f) (hinfo : v.info = fileInfo f) (dataBuf : List Byte)
    {offset : ℕ} (hlt : offset < f.contents.length) :
    ∃ u buf n d res, sendChunks crc tcbs v dataBuf offset =
      (.readData v.fileIdx offset n d res ::
          writeBytes (subpacket crc (chunkAt f.contents offset) (enderAt f.contents offset)) ++
            (sendChunks crc tcbs { v with userData := u } buf
              (offset + (chunkAt f.contents offset).length)).1,
        (sendChunks crc tcbs { v with userData := u } buf
          (offset + (chunkAt f.contents offset).length)).2) := by
  have hsize : v.info.size = f.contents.length := by
    rw [hinfo]
    rfl
  have hchunk : (if f.contents.length - offset > 1024 then 1024 else f.contents.length - offset) =
      (chunkAt f.contents offset).length := by
    rw [length_chunkAt]
    split <;> omega
  have hread : (tcbs.readData v.fileIdx offset (chunkAt f.contents offset).length v.userData).2.1 =
      chunkAt f.contents offset := by
    rw [hs.contents _ f _ _ _ hidx (by rw [length_chunkAt]; omega), length_chunkAt, chunkAt,
      ← List.length_drop, ← List.take_eq_take_min]
  rw [sendChunks, hsize, if_pos hlt]
  simp only [hchunk, hread, List.take_left]
  exact ⟨_, _, _, _, _, rfl⟩

theorem sendChunks_of_ge {v : TxLocals υ} (hinfo : v.info = fileInfo f) (dataBuf : List Byte)
    {offset : ℕ} (hge : f.contents.length ≤ offset) :
    sendChunks crc tcbs v dataBuf offset = ([], v.userData) := by
  have hsize : v.info.size = f.contents.length := by
    rw [hinfo]
    rfl
  rw [sendChunks, hsize, if_neg (by omega)]

theorem onData_chunk (g : FileLocals) (u : υ') {sub : List Byte} (ender : Byte) (hne : 0 < sub.length) :
    ∃ res u', onData P (fileCallbacks start data finish) g false u (some (sub, ender)) =
      ⟨[.onData sub sub.length g.fileOffset res],
        .wait ⟨if ender = zcrce ∨ ender = zcrcw then
            .fileHeader { g with fileOffset := P.toSize (g.fileOffset + sub.length) } .pad
          else .data { g with fileOffset := P.toSize (g.fileOffset + sub.length) } false
            (.data [] false), u'⟩⟩ := by
  refine ⟨(data sub sub.length g.fileOffset u).1, (data sub sub.length g.fileOffset u).2, ?_⟩
  simp only [onData, callData, fileCallbacks, gt_iff_lt, hne, if_true]
  split <;> rfl

theorem feed_chunks (hs : Serves P.sizeMod tcbs files) (hf : Sendable P f) (v : TxLocals υ)
    (hidx : files[v.fileIdx]? = some f) (hinfo : v.info = fileInfo f) (dataBuf : List Byte)
    (offset : ℕ) (hlt : offset < f.contents.length) (g : FileLocals) (hg : g.fileOffset = offset)
    (u : υ') (rest : List Byte) :
    ∃ g' u' es, g'.info = g.info ∧
      Covers offset (es.filterMap (Event.call .ok)) (f.contents.drop offset) ∧
      feed (receiveStep P crc stale (fileCallbacks start data finish))
          (.wait ⟨.data g false (.data [] false), u⟩)
          ((sendChunks crc tcbs v dataBuf offset).1.filterMap Event.wire ++ rest) =
        (feed (receiveStep P crc stale (fileCallbacks start data finish))
          (.wait ⟨.fileHeader g' .pad, u'⟩) rest).after es := by
  have hsize := hf.size_lt
  -- on the bytes left
  induction hleft : f.contents.length - offset using Nat.strongRecOn
    generalizing v dataBuf offset g u with
  | ind left ih =>
    have hlen := length_chunkAt f.contents offset
    have hpos : 0 < (chunkAt f.contents offset).length := by omega
    obtain ⟨u₁, buf, n, d, dres, hsend⟩ := sendChunks_of_lt crc hs hidx hinfo dataBuf hlt
    obtain ⟨res, u₂, hdata⟩ := onData_chunk (P := P) start data finish g u
      (enderAt f.contents offset) hpos
    have hoffset : P.toSize (g.fileOffset + (chunkAt f.contents offset).length) =
        offset + (chunkAt f.contents offset).length := by
      rw [hg]
      exact P.toSize_of_lt (by omega)
    have hsplit : f.contents.drop offset = chunkAt f.contents offset ++
        f.contents.drop (offset + (chunkAt f.contents offset).length) := by
      have htake : chunkAt f.contents offset =
          (f.contents.drop offset).take (chunkAt f.contents offset).length := by
        rw [hlen, ← List.length_drop, ← List.take_eq_take_min, chunkAt]
      rw [← List.drop_drop]
      conv_lhs => rw [← List.take_append_drop (chunkAt f.contents offset).length
        (f.contents.drop offset), ← htake]
    have hwire : (sendChunks crc tcbs v dataBuf offset).1.filterMap Event.wire ++ rest =
        subpacket crc (chunkAt f.contents offset) (enderAt f.contents offset) ++
          ((sendChunks crc tcbs { v with userData := u₁ } buf
            (offset + (chunkAt f.contents offset).length)).1.filterMap Event.wire ++ rest) := by
      rw [hsend]
      simp
    rw [hwire, feed_data P crc stale _ (parse_subpacket crc 1024 (chunkAt f.contents offset) _ _
      (isEnder_enderAt f.contents offset) (by omega)) u, hdata, hoffset]
    by_cases hmore : offset + (chunkAt f.contents offset).length < f.contents.length
    · have hender : ¬ (enderAt f.contents offset = zcrce ∨ enderAt f.contents offset = zcrcw) := by
        rw [enderAt, if_neg (by omega)]
        decide
      obtain ⟨g', u', es, hinfo', hcover, hrun⟩ := ih
        (f.contents.length - (offset + (chunkAt f.contents offset).length)) (by omega)
        { v with userData := u₁ } hidx hinfo buf _ hmore
        { g with fileOffset := offset + (chunkAt f.contents offset).length } rfl u₂ rfl
      refine ⟨g', u', .onData (chunkAt f.contents offset) (chunkAt f.contents offset).length
        g.fileOffset res :: es, hinfo', ?_, ?_⟩
      · rw [hsplit]
        simpa [Event.call, hg] using Covers.cons rfl hcover
      · rw [if_neg hender, hrun, Out.after_after]
        rfl
    · have hender : enderAt f.contents offset = zcrce ∨ enderAt f.contents offset = zcrcw := by
        rw [enderAt, if_pos (by omega)]
        decide
      have hend : f.contents.drop (offset + (chunkAt f.contents offset).length) = [] :=
        List.drop_of_length_le (by omega)
      refine ⟨{ g with fileOffset := offset + (chunkAt f.contents offset).length }, u₂,
        [.onData (chunkAt f.contents offset) (chunkAt f.contents offset).length g.fileOffset res],
        rfl, ?_, ?_⟩
      · rw [hsplit, hend]
        simpa [Event.call, hg] using Covers.cons rfl (Covers.nil _)
      · have hinfo₁ : ({ v with userData := u₁ } : TxLocals υ).info = fileInfo f := hinfo
        rw [if_pos hender, sendChunks_of_ge crc hinfo₁ buf (by omega)]
        rfl

/-! ### One file -/

/-- What the transmitter sends before it waits for ZRPOS. -/
def fileOpening (info : FileInfo) : List Byte :=
  binaryHeader crc zfile zeroFlags ++ subpacket crc (fileSubpacket info) zcrcw

theorem length_posFlags (pos : ℕ) : (posFlags pos).length = 4 := rfl

theorem onFileInfo_sent (hf : Sendable P f) (hwidth : P.sizeBits ≤ P.ulongBits) (u : υ')
    (ender : Byte) :
    ∃ res u', onFileInfo P crc stale (fileCallbacks start data finish) u
        (some (fileSubpacket (fileInfo f), ender)) =
      ⟨.onFileStart (fileInfo f) res :: sendHexHeader crc zrpos zeroFlags,
        .wait ⟨.fileHeader ⟨fileInfo f, 0⟩ .pad, u'⟩⟩ := by
  refine ⟨(start (fileInfo f) u).1, (start (fileInfo f) u).2, ?_⟩
  simp only [onFileInfo, parseFileInfo_fileSubpacket stale hf hwidth, callFileStart, fileCallbacks]
  rfl

theorem feed_file (hs : Serves P.sizeMod tcbs files) (hf : Sendable P f)
    (hwidth : P.sizeBits ≤ P.ulongBits) (hne : f.contents ≠ []) (v : TxLocals υ)
    (hidx : files[v.fileIdx]? = some f) (hinfo : v.info = fileInfo f) (dataBuf junk : List Byte)
    (hjunk : zpad ∉ junk) (u : υ') (rest : List Byte) :
    ∃ u' chunks es, Covers 0 chunks f.contents ∧
      es.filterMap (Event.call .ok) = .fileStart f.name f.contents.length ::
        (chunks ++ [.fileEnd f.name f.contents.length true]) ∧
      feed (receiveStep P crc stale (fileCallbacks start data finish)) (.wait ⟨.header .pad, u⟩)
          (junk ++ (fileOpening crc (fileInfo f) ++ (binaryHeader crc zdata (posFlags 0) ++
            ((sendChunks crc tcbs v dataBuf 0).1.filterMap Event.wire ++
              (hexHeader crc zeof (posFlags f.contents.length) ++ rest))))) =
        (feed (receiveStep P crc stale (fileCallbacks start data finish))
          (.wait ⟨.header .pad, u'⟩) (hexTrailer zeof ++ rest)).after es := by
  have hpos : 0 < f.contents.length := List.length_pos_of_ne_nil hne
  obtain ⟨res, u₁, hopen⟩ := onFileInfo_sent crc stale start data finish hf hwidth u zcrcw
  obtain ⟨g, u₂, es, hg, hcover, hchunks⟩ := feed_chunks crc stale start data finish hs hf v hidx hinfo
    dataBuf 0 hpos ⟨fileInfo f, 0⟩ rfl u₁ (hexHeader crc zeof (posFlags f.contents.length) ++ rest)
  have hzfile : onHeader crc u (some ⟨zfile, zeroFlags, false⟩) =
      rxAt (.fileInfo false (.data [] false)) u := rfl
  have hzdata : onFileHeader crc (fileCallbacks start data finish) ⟨fileInfo f, 0⟩ u₁
      (some ⟨zdata, posFlags 0, false⟩) =
        rxAt (.data ⟨fileInfo f, 0⟩ false (.data [] false)) u₁ := rfl
  have hzeof : onFileHeader crc (fileCallbacks start data finish) g u₂
      (some ⟨zeof, posFlags f.contents.length, false⟩) =
        ⟨.onFileEnd g.info .ok :: sendHexHeader crc zrinit zeroFlags,
          .wait ⟨.header .pad, finish g.info .ok u₂⟩⟩ := rfl
  have hfirst : parse (readHeaderRx crc) (.wait .pad) (junk ++ (binaryHeader crc zfile zeroFlags ++
      (subpacket crc (fileSubpacket (fileInfo f)) zcrcw ++ (binaryHeader crc zdata (posFlags 0) ++
        ((sendChunks crc tcbs v dataBuf 0).1.filterMap Event.wire ++
          (hexHeader crc zeof (posFlags f.contents.length) ++ rest)))))) = _ :=
    (parse_skip crc true junk _ hjunk).trans (parse_binaryHeader crc true zfile zeroFlags _ rfl)
  refine ⟨finish g.info .ok u₂, es.filterMap (Event.call .ok),
    (.onFileStart (fileInfo f) res :: sendHexHeader crc zrpos zeroFlags) ++ es ++
      (.onFileEnd g.info .ok :: sendHexHeader crc zrinit zeroFlags), hcover, ?_, ?_⟩
  · simp [sendHexHeader, Event.call, hg, fileInfo]
  · rw [fileOpening, List.append_assoc, feed_header P crc stale _ hfirst, hzfile]
    rw [rxAt, Out.after_nil, feed_fileInfo P crc stale _ (parse_subpacket crc 1024 _ _ zcrcw (.inr rfl)
      (length_fileSubpacket_le hf)) u, hopen]
    rw [feed_fileHeader P crc stale _ (parse_binaryHeader crc true zdata _ _ (length_posFlags 0)) u₁,
      hzdata, rxAt, Out.after_nil, hchunks,
      feed_fileHeader P crc stale _ (parse_hexHeader crc true zeof _ rest (length_posFlags _)) u₂, hzeof,
      Out.after_after, Out.after_after]

/-! ### The batch -/

/-- What a peer answers for one file: ZRPOS 0, then ZRINIT. -/
def fileAnswer : List Byte := hexHeader crc zrpos zeroFlags ++ hexHeader crc zrinit zeroFlags

/-- What it answers from the first ZFILE on, for `n` files. -/
def answersFrom (n : ℕ) : List Byte :=
  (List.replicate n (fileAnswer crc)).flatten ++ hexHeader crc zfin zeroFlags

theorem nextFile_last (hs : Serves P.sizeMod tcbs files) (u : υ) :
    nextFile crc tcbs files.length u = ⟨.getFileInfo files.length :: sendHexHeaderTx crc zfin zeroFlags,
      .wait (.zfin .pad)⟩ := by
  have hnone := hs.noMore u
  unfold nextFile
  refine if_pos ?_
  by_contra hfile
  exact hnone (by simpa using hfile)

theorem nextFile_of_file (hs : Serves P.sizeMod tcbs files) (hf : Sendable P f) {i : ℕ}
    (hidx : files[i]? = some f) (u : υ) :
    ∃ u', nextFile crc tcbs i u = ⟨.getFileInfo i :: writeBytes (fileOpening crc (fileInfo f)),
      .wait (.zrpos ⟨i, fileInfo f, u'⟩ .pad)⟩ := by
  obtain ⟨hzero, hinfo⟩ := hs.info i f u hidx
  have hname : ¬ ((tcbs.getFileInfo i u).1 ≠ 0 ∨ (tcbs.getFileInfo i u).2.1.filename = []) := by
    rw [hinfo]
    simp [hzero, fileInfo, hf.name_ne_nil]
  refine ⟨(tcbs.getFileInfo i u).2.2, ?_⟩
  simp only [nextFile, if_neg hname]
  rw [hinfo]
  rfl

/-- From file number `i` on: the receiver reads what the transmitter writes. -/
theorem feed_batch (hs : Serves P.sizeMod tcbs files) (hfiles : ∀ f ∈ files, Sendable P f)
    (hne : ∀ f ∈ files, f.contents ≠ []) (hwidth : P.sizeBits ≤ P.ulongBits) (more : List File)
    (i : ℕ) (hi : i ≤ files.length) (hmore : files.drop i = more) (u : υ) (u' : υ')
    (junk junk' : List Byte) (hjunk : zpad ∉ junk) (hjunk' : zpad ∉ junk') :
    ∃ es, Reports more (es.filterMap (Event.call .ok)) ∧
      feed (receiveStep P crc stale (fileCallbacks start data finish)) (.wait ⟨.header .pad, u'⟩)
        (junk' ++ ((feed (transmitStep P crc uninit tcbs) (nextFile crc tcbs i u).next
          (junk ++ answersFrom crc more.length)).after (nextFile crc tcbs i u).events).events.filterMap
            Event.wire) = ⟨es, .done .ok⟩ := by
  induction more generalizing i u u' junk junk' with
  | nil =>
    obtain rfl : i = files.length := Nat.le_antisymm hi (List.drop_eq_nil_iff.mp hmore)
    have hanswer : junk ++ answersFrom crc 0 =
        junk ++ (hexHeader crc zfin zeroFlags ++ []) := by simp [answersFrom]
    have hparse : parse (readHeaderRx crc) (.wait .pad) (junk' ++ (hexHeader crc zfin zeroFlags ++
        [0x4F, 0x4F])) = _ :=
      (parse_skip crc true junk' _ hjunk').trans (parse_hexHeader crc true zfin zeroFlags _ rfl)
    have hzfin : onHeader crc u' (some ⟨zfin, zeroFlags, false⟩) =
        ⟨sendHexHeader crc zfin zeroFlags ++ sendByte 0x4F ++ sendByte 0x4F, .done .ok⟩ := rfl
    refine ⟨sendHexHeader crc zfin zeroFlags ++ sendByte 0x4F ++ sendByte 0x4F, ?_, ?_⟩
    · simp [sendHexHeader, sendByte, Reports]
    · rw [nextFile_last crc hs, List.length_nil, hanswer,
        feed_txContinue P crc uninit tcbs .zfin (fun _ _ => rfl)
          (parse_answer crc zfin zeroFlags junk [] rfl hjunk)]
      simp only [Option.map_some, if_true, feed_done]
      have hwire : (Event.getFileInfo files.length :: sendHexHeaderTx crc zfin zeroFlags ++
          (sendByte 0x4F ++ sendByte 0x4F)).filterMap Event.wire =
            hexHeader crc zfin zeroFlags ++ [0x4F, 0x4F] := by
        simp [sendHexHeaderTx, sendByte]
      simp only [Out.after, List.append_nil, hwire]
      rw [feed_header P crc stale _ hparse, hzfin, feed_done]
      simp [Out.after]
  | cons f more ih =>
    have hidx : files[i]? = some f := by
      rw [← List.head?_drop, hmore]
      rfl
    have hlt : i < files.length := (List.getElem?_eq_some_iff.mp hidx).1
    have hmem : f ∈ files := List.mem_of_getElem? hidx
    have hf : Sendable P f := hfiles f hmem
    have hdrop : files.drop (i + 1) = more := by
      rw [← List.tail_drop, hmore]
      rfl
    have hcount : P.toSize (i + 1) = i + 1 := P.toSize_of_lt (Nat.lt_of_le_of_lt hlt hs.count)
    obtain ⟨u₁, hnext⟩ := nextFile_of_file crc hs hf hidx u
    have hanswer : junk ++ answersFrom crc (more.length + 1) = junk ++ (hexHeader crc zrpos zeroFlags ++
        (hexHeader crc zrinit zeroFlags ++ answersFrom crc more.length)) := by
      simp [answersFrom, fileAnswer, List.replicate_succ]
    obtain ⟨u₂, hsent⟩ := feed_txFile P crc uninit tcbs ⟨i, fileInfo f, u₁⟩ junk
      (answersFrom crc more.length) hjunk
    obtain ⟨u₃, chunks, es, hcover, hcalls, hfile⟩ := feed_file crc stale start data finish hs hf hwidth
      (hne f hmem) ⟨i, fileInfo f, u₁⟩ hidx rfl ((List.range 1024).map uninit) junk' hjunk' u'
      (((feed (transmitStep P crc uninit tcbs) (nextFile crc tcbs (i + 1) u₂).next
        (hexTrailer zrinit ++ answersFrom crc more.length)).after
          (nextFile crc tcbs (i + 1) u₂).events).events.filterMap Event.wire)
    obtain ⟨es', hreports, hrest⟩ := ih (i + 1) hlt hdrop u₂ u₃ (hexTrailer zrinit) (hexTrailer zeof)
      (zpad_notMem_hexTrailer zrinit) (zpad_notMem_hexTrailer zeof)
    refine ⟨es ++ es', ?_, ?_⟩
    · rw [List.filterMap_append, hcalls]
      simpa using Reports.cons hcover hreports
    · rw [hnext, List.length_cons, hanswer, hsent, hcount, sendFile_zeroFlags]
      rw [hrest] at hfile
      simpa [Out.after, sendHexHeaderTx, fileInfo] using hfile

end Stream

/-! ### The whole stream -/

/-- Everything `zmodem_transmit` writes when its peer answers ZRINIT, then ZRPOS 0
and ZRINIT for each of `n` files, then ZFIN. -/
def wireStream {υ : Type} (P : Platform) (crc : CrcService) (uninit : ℕ → Byte) (tcbs : TxCallbacks υ)
    (n : ℕ) (u : υ) : List Byte :=
  ((feed (transmitStep P crc uninit tcbs) (zmodemTransmit crc u).next
    (hexHeader crc zrinit zeroFlags ++ answersFrom crc n)).after
      (zmodemTransmit crc u).events).events.filterMap Event.wire

section Whole

variable {υ υ' : Type} {P : Platform} (crc : CrcService) (stale : List Byte → List Byte)
  (uninit : ℕ → Byte) {tcbs : TxCallbacks υ}

theorem wireStream_eq (n : ℕ) (u : υ) :
    wireStream P crc uninit tcbs n u = hexHeader crc zrqinit zeroFlags ++
      ((feed (transmitStep P crc uninit tcbs) (nextFile crc tcbs 0 u).next
        (hexTrailer zrinit ++ answersFrom crc n)).after
          (nextFile crc tcbs 0 u).events).events.filterMap Event.wire := by
  have hzrinit : parse (readHeaderTx crc) (.wait .pad) (hexHeader crc zrinit zeroFlags ++
      answersFrom crc n) = _ := parse_hexHeader crc false zrinit zeroFlags _ rfl
  unfold wireStream zmodemTransmit
  rw [feed_txContinue P crc uninit tcbs (.zrinit · u) (fun _ _ => rfl) hzrinit]
  simp [sendHexHeaderTx]

theorem feed_wireStream {files : List File} (start : FileInfo → υ' → ℤ × υ')
    (data : List Byte → ℕ → ℕ → υ' → ℤ × υ') (finish : FileInfo → Status → υ' → υ') (u : υ) (u' : υ')
    (hs : Serves P.sizeMod tcbs files) (hfiles : ∀ f ∈ files, Sendable P f)
    (hne : ∀ f ∈ files, f.contents ≠ []) (hwidth : P.sizeBits ≤ P.ulongBits) :
    ∃ es, feed (receiveStep P crc stale (fileCallbacks start data finish)) (zmodemReceive crc u').next
        (wireStream P crc uninit tcbs files.length u) = ⟨es, .done .ok⟩ ∧
      Reports files (es.filterMap (Event.call .ok)) := by
  have hzrqinit : onHeader crc u' (some ⟨zrqinit, zeroFlags, false⟩) =
      ⟨sendHexHeader crc zrinit zeroFlags, .wait ⟨.header .pad, u'⟩⟩ := rfl
  obtain ⟨es, hreports, hrest⟩ := feed_batch crc stale uninit start data finish hs hfiles hne hwidth files
    0 (Nat.zero_le _) rfl u u' (hexTrailer zrinit) (hexTrailer zrqinit)
    (zpad_notMem_hexTrailer zrinit) (zpad_notMem_hexTrailer zrqinit)
  refine ⟨sendHexHeader crc zrinit zeroFlags ++ es, ?_, ?_⟩
  · rw [wireStream_eq, zmodemReceive, feed_header P crc stale _
      (parse_hexHeader crc true zrqinit zeroFlags _ rfl) u', hzrqinit, hrest]
    rfl
  · simpa [sendHexHeader] using hreports

end Whole

/-- The stream decodes to what was sent: the receiver that reads it returns OK
and reports the batch. -/
theorem decodes_wireStream {υ υ' : Type} (P : Platform) (crc : CrcService)
    (stale : List Byte → List Byte) (uninit : ℕ → Byte) (tcbs : TxCallbacks υ) (files : List File)
    (start : FileInfo → υ' → ℤ × υ') (data : List Byte → ℕ → ℕ → υ' → ℤ × υ')
    (finish : FileInfo → Status → υ' → υ') (u : υ) (u' : υ') (hs : Serves P.sizeMod tcbs files)
    (hfiles : ∀ f ∈ files, Sendable P f) (hne : ∀ f ∈ files, f.contents ≠ [])
    (hwidth : P.sizeBits ≤ P.ulongBits) :
    ∃ es, feed (receiveStep P crc stale (fileCallbacks start data finish)) (zmodemReceive crc u').next
        (wireStream P crc uninit tcbs files.length u) = ⟨es, .done .ok⟩ ∧
      Reports files (es.filterMap (Event.call .ok)) :=
  feed_wireStream crc stale uninit start data finish u u' hs hfiles hne hwidth

/-- A batch of two files, one of them with bytes that are escaped. -/
theorem decodes_wireStream_two_files :
    ∃ es, feed (receiveStep platform32 referenceCrc (fun _ => [])
          (fileCallbacks (fun _ _ => (0, ())) (fun _ _ _ _ => (0, ())) fun _ _ _ => ()))
        (zmodemReceive referenceCrc ()).next
        (wireStream platform32 referenceCrc (fun _ => 0)
          (batchCallbacks [⟨[0x61], [1, 0x18, 0x81]⟩, ⟨[0x62], [0x2A]⟩]) 2 ()) = ⟨es, .done .ok⟩ ∧
      Reports [⟨[0x61], [1, 0x18, 0x81]⟩, ⟨[0x62], [0x2A]⟩] (es.filterMap (Event.call .ok)) := by
  refine decodes_wireStream platform32 referenceCrc _ _ _ [⟨[0x61], [1, 0x18, 0x81]⟩, ⟨[0x62], [0x2A]⟩]
    _ _ _ () () (batchCallbacks_serves (by decide)) ?_ (by decide) (by decide)
  intro f hf
  simp only [List.mem_cons, List.not_mem_nil, or_false] at hf
  rcases hf with rfl | rfl
  · exact ⟨by decide, by decide, by decide, by decide⟩
  · exact ⟨by decide, by decide, by decide, by decide⟩

end ZephyrModem.Zmodem
