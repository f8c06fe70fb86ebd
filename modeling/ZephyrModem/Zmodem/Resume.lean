import ZephyrModem.Zmodem.Completeness
import ZephyrModem.Zmodem.Stream
import ZephyrModem.Zmodem.Supply

/-!
# Resumed files

What `zmodem_transmit` writes when ZRPOS asks for a position, and what the data loop of
`zmodem_receive` makes of it. The ZDATA header opens a data frame, which only the ender of
a subpacket closes.
-/

namespace ZephyrModem.Zmodem
open ZephyrModem.Reactive ZephyrModem.Transfer

/-- The enders after which a header follows. -/
def EndsFrame (ender : Byte) : Prop := ender = zcrce ∨ ender = zcrcw

/-- Subpackets that make up one data frame. -/
structure DataFrame (subs : List (List Byte × Byte)) : Prop where
  ends : ∃ init sub ender, subs = init ++ [(sub, ender)] ∧ EndsFrame ender ∧
    ∀ s ∈ init, ¬ EndsFrame s.2
  lengths : ∀ s ∈ subs, s.1.length ≤ 1024

def frameBytes (crc : CrcService) (subs : List (List Byte × Byte)) : List Byte :=
  subs.flatMap fun s => subpacket crc s.1 s.2

section Resume

variable {υ υ' : Type} (P : Platform) (crc : CrcService) (uninit : ℕ → Byte) (tcbs : TxCallbacks υ)
  (stale : List Byte → List Byte) (rcbs : RxCallbacks υ')

/-- The bytes that `zmodem_transmit` writes when ZRPOS answers its ZFILE with position `o`,
after bytes that belong to no header. -/
def resumeBytes (v : TxLocals υ) (junk : List Byte) (o : ℕ) : List Byte :=
  (feed (transmitStep P crc uninit tcbs) (.wait (.zrpos v .pad))
    (junk ++ hexHeader crc zrpos (posFlags o))).events.filterMap Event.wire

/-- Between ZDATA and ZEOF goes one data frame with the rest of the file, and the receiver
in its header read takes it all in and comes to the ZEOF. -/
structure Resumes (f : File) (v : TxLocals υ) (junk : List Byte) (o : ℕ) : Prop where
  frame : ∃ subs, DataFrame subs ∧ (subs.map Prod.fst).flatten = f.contents.drop o ∧
    resumeBytes P crc uninit tcbs v junk o = binaryHeader crc zdata (posFlags o) ++
      (frameBytes crc subs ++ hexHeader crc zeof (posFlags f.contents.length))
  consumed : ∀ (g : FileLocals) (u : υ') (rest : List Byte), ∃ g' u' es hd,
    g'.info = g.info ∧ g'.fileOffset = P.toSize (g.fileOffset + (f.contents.length - o)) ∧
    hd.type = zeof ∧ headerPos hd = f.contents.length % 2 ^ 32 ∧
    feed (receiveStep P crc stale rcbs) (.wait ⟨.fileHeader g .pad, u⟩)
        (resumeBytes P crc uninit tcbs v junk o ++ rest) =
      (feed (receiveStep P crc stale rcbs) (onFileHeader crc rcbs g' u' (some hd)).next
        (hexTrailer zeof ++ rest)).after (es ++ (onFileHeader crc rcbs g' u' (some hd)).events)

/-! ### Positions -/

theorem headerPos_posFlags (type : Byte) (crc32 : Bool) (n : ℕ) :
    headerPos ⟨type, posFlags n, crc32⟩ = n % 2 ^ 32 := by
  simp only [headerPos, posFlags, List.getD_cons_zero, List.getD_cons_succ, UInt8.toNat_ofNat',
    Nat.reducePow]
  omega

theorem flagsPos_posFlags {o : ℕ} (ho : o < 2 ^ 32) (hmod : o < P.sizeMod) :
    flagsPos P (posFlags o) = o := by
  have hpos := headerPos_posFlags zrpos false o
  rw [Nat.mod_eq_of_lt ho] at hpos
  unfold headerPos at hpos
  rw [flagsPos, hpos, P.toSize_of_lt hmod]

/-! ### What is written -/

theorem wire_sendFrom (v : TxLocals υ) (o : ℕ) :
    (sendFrom crc uninit tcbs v o).events.filterMap Event.wire =
      binaryHeader crc zdata (posFlags o) ++
        ((sendChunks crc tcbs v ((List.range 1024).map uninit) o).1.filterMap Event.wire ++
          hexHeader crc zeof (posFlags v.info.size)) := by
  simp [sendFrom, sendHexHeaderTx]

theorem feed_skipped (w : TxLocals υ) {junk : List Byte} (hjunk : zpad ∉ junk) :
    feed (transmitStep P crc uninit tcbs) (.wait (.nextZrinit w .pad)) junk =
      ⟨[], .wait (.nextZrinit w .pad)⟩ := by
  have hskip := parse_skip crc false junk [] hjunk
  rw [List.append_nil, parse_nil] at hskip
  rw [feed_embed (readHeaderTx crc) (transmitStep P crc uninit tcbs) (.nextZrinit w)
    (fun header => if header.map Header.type = some zrinit then
      nextFile crc tcbs (P.toSize (w.fileIdx + 1)) w.userData else ⟨[], .done .errorTimeout⟩),
    show readHeaderTx crc = readHeader crc false from rfl, hskip]
  intro h r
  simp only [transmitStep]
  cases readHeaderTx crc h r <;> rfl

/-- How the answer to ZFILE goes on. -/
def onAnswer (v : TxLocals υ) : Option Header → TxOut υ
  | some header =>
    if header.type = zrpos then sendFile P crc uninit tcbs v header.flags
    else ⟨[], .done .errorTimeout⟩
  | none => ⟨[], .done .errorTimeout⟩

theorem onAnswer_zrpos (v : TxLocals υ) {header : Header} (h : header.type = zrpos) :
    onAnswer P crc uninit tcbs v (some header) =
      sendFrom crc uninit tcbs v (flagsPos P header.flags) := if_pos h

theorem wire_answered (v : TxLocals υ) {junk : List Byte} (hjunk : zpad ∉ junk) {flags : List Byte}
    (hlen : flags.length = 4) {o : ℕ} (ho : flagsPos P flags = o) :
    (feed (transmitStep P crc uninit tcbs) (.wait (.zrpos v .pad))
        (junk ++ hexHeader crc zrpos flags)).events.filterMap Event.wire =
      binaryHeader crc zdata (posFlags o) ++
        ((sendChunks crc tcbs v ((List.range 1024).map uninit) o).1.filterMap Event.wire ++
          hexHeader crc zeof (posFlags v.info.size)) := by
  have hanswer := parse_answer crc zrpos flags junk [] hlen hjunk
  have hsend : onAnswer P crc uninit tcbs v (some ⟨zrpos, flags, false⟩) =
      sendFrom crc uninit tcbs v o := by
    rw [onAnswer_zrpos P crc uninit tcbs v rfl]
    exact congrArg _ ho
  have hnext : ∃ w, (sendFrom crc uninit tcbs v o).next = .wait (.nextZrinit w .pad) := ⟨_, rfl⟩
  obtain ⟨w, hw⟩ := hnext
  have hstep : ∀ h r, transmitStep P crc uninit tcbs (.zrpos v h) r =
      txContinueAt (.zrpos v) (readHeaderTx crc h r) (onAnswer P crc uninit tcbs v) :=
    fun _ _ => rfl
  rw [List.append_nil] at hanswer
  rw [feed_txContinue P crc uninit tcbs (.zrpos v) hstep hanswer, hsend, hw, List.append_nil,
    feed_skipped P crc uninit tcbs w (zpad_notMem_hexTrailer zrpos), Out.after_events,
    List.append_nil, wire_sendFrom]

theorem resumeBytes_eq (v : TxLocals υ) {junk : List Byte} (hjunk : zpad ∉ junk) {o : ℕ}
    (ho : o < 2 ^ 32) (hmod : o < P.sizeMod) :
    resumeBytes P crc uninit tcbs v junk o = binaryHeader crc zdata (posFlags o) ++
      ((sendChunks crc tcbs v ((List.range 1024).map uninit) o).1.filterMap Event.wire ++
        hexHeader crc zeof (posFlags v.info.size)) :=
  wire_answered P crc uninit tcbs v hjunk rfl (flagsPos_posFlags P ho hmod)

theorem chunkAt_append (contents : List Byte) (offset : ℕ) :
    chunkAt contents offset ++ contents.drop (offset + (chunkAt contents offset).length) =
      contents.drop offset := by
  have htake : chunkAt contents offset =
      (contents.drop offset).take (chunkAt contents offset).length := by
    rw [length_chunkAt, ← List.length_drop, ← List.take_eq_take_min, chunkAt]
  rw [← List.drop_drop]
  conv_lhs => enter [1]; rw [htake]
  exact List.take_append_drop _ _

variable {tcbs} {files : List File} {f : File}

/-- Inside the file the loop writes one data frame with the rest of it. -/
theorem sendChunks_frame (hs : Serves P.sizeMod tcbs files) (v : TxLocals υ)
    (hidx : files[v.fileIdx]? = some f) (hinfo : v.info = fileInfo f) (dataBuf : List Byte)
    (offset : ℕ) (hlt : offset < f.contents.length) :
    ∃ subs, DataFrame subs ∧ (∀ s ∈ subs, IsEnder s.2) ∧
      (subs.map Prod.fst).flatten = f.contents.drop offset ∧
      (sendChunks crc tcbs v dataBuf offset).1.filterMap Event.wire = frameBytes crc subs := by
  -- on the bytes left
  induction hleft : f.contents.length - offset using Nat.strongRecOn
    generalizing v dataBuf offset with
  | ind left ih =>
    have hlen := length_chunkAt f.contents offset
    obtain ⟨u, buf, n, d, res, hsend⟩ := sendChunks_of_lt crc hs hidx hinfo dataBuf hlt
    have hwire : (sendChunks crc tcbs v dataBuf offset).1.filterMap Event.wire =
        subpacket crc (chunkAt f.contents offset) (enderAt f.contents offset) ++
          (sendChunks crc tcbs { v with userData := u } buf
            (offset + (chunkAt f.contents offset).length)).1.filterMap Event.wire := by
      rw [hsend]
      simp
    have hfirst : (chunkAt f.contents offset).length ≤ 1024 := by omega
    by_cases hmore : offset + (chunkAt f.contents offset).length < f.contents.length
    · have hender : ¬ EndsFrame (enderAt f.contents offset) := by
        rw [enderAt, if_neg (by omega), EndsFrame]
        decide
      obtain ⟨subs, hframe, hall, hpayload, hrest⟩ := ih
        (f.contents.length - (offset + (chunkAt f.contents offset).length)) (by omega)
        { v with userData := u } hidx hinfo buf _ hmore rfl
      obtain ⟨init, sub, ender, hsubs, hend, hinit⟩ := hframe.ends
      refine ⟨(chunkAt f.contents offset, enderAt f.contents offset) :: subs, ⟨?_, ?_⟩, ?_, ?_, ?_⟩
      · refine ⟨(chunkAt f.contents offset, enderAt f.contents offset) :: init, sub, ender,
          by rw [hsubs]; rfl, hend, ?_⟩
        intro s hmem
        rcases List.mem_cons.mp hmem with rfl | hmem
        · exact hender
        · exact hinit s hmem
      · intro s hmem
        rcases List.mem_cons.mp hmem with rfl | hmem
        · exact hfirst
        · exact hframe.lengths s hmem
      · intro s hmem
        rcases List.mem_cons.mp hmem with rfl | hmem
        · exact isEnder_enderAt f.contents offset
        · exact hall s hmem
      · rw [List.map_cons, List.flatten_cons, hpayload]
        exact chunkAt_append f.contents offset
      · rw [hwire, hrest]
        rfl
    · have hender : EndsFrame (enderAt f.contents offset) := by
        rw [enderAt, if_pos (by omega), EndsFrame]
        decide
      have hend : f.contents.drop (offset + (chunkAt f.contents offset).length) = [] :=
        List.drop_of_length_le (by omega)
      refine ⟨[(chunkAt f.contents offset, enderAt f.contents offset)], ⟨?_, ?_⟩, ?_, ?_, ?_⟩
      · exact ⟨[], _, _, rfl, hender, by simp⟩
      · intro s hmem
        rw [List.mem_singleton.mp hmem]
        exact hfirst
      · intro s hmem
        rw [List.mem_singleton.mp hmem]
        exact isEnder_enderAt f.contents offset
      · rw [← chunkAt_append f.contents offset, hend]
        simp
      · have hge : f.contents.length ≤ offset + (chunkAt f.contents offset).length := by omega
        have hdone : sendChunks crc tcbs { v with userData := u } buf
            (offset + (chunkAt f.contents offset).length) = ([], u) :=
          sendChunks_of_ge crc (f := f) (v := { v with userData := u }) hinfo buf hge
        rw [hwire, hdone]
        simp [frameBytes]

/-! ### What the data loop takes in -/

theorem feed_frame {subs : List (List Byte × Byte)} (hframe : DataFrame subs)
    (hall : ∀ s ∈ subs, IsEnder s.2) (g : FileLocals) (u : υ') (rest : List Byte) :
    ∃ g' u' es, g'.info = g.info ∧
      g'.fileOffset = P.toSize (g.fileOffset + (subs.map Prod.fst).flatten.length) ∧
      feed (receiveStep P crc stale rcbs) (.wait ⟨.data g false (.data [] false), u⟩)
          (frameBytes crc subs ++ rest) =
        (feed (receiveStep P crc stale rcbs) (.wait ⟨.fileHeader g' .pad, u'⟩) rest).after es := by
  obtain ⟨init, sub, ender, rfl, hender, hinit⟩ := hframe.ends
  have hlengths := hframe.lengths
  clear hframe
  induction init generalizing g u with
  | nil =>
    have hstep := feed_data P crc stale rcbs (g := g) (parse_subpacket crc 1024 sub rest ender
      (hall (sub, ender) (by simp)) (hlengths (sub, ender) (by simp))) u
    have hlast : ender = zcrce ∨ ender = zcrcw := hender
    have hdata := onData_some P rcbs g false u sub ender
    rw [if_pos hlast] at hdata
    refine ⟨{ g with fileOffset := P.toSize (g.fileOffset + sub.length) },
      (callData rcbs sub sub.length g.fileOffset u).2,
      (callData rcbs sub sub.length g.fileOffset u).1, rfl, by simp, ?_⟩
    rw [hdata] at hstep
    simpa [frameBytes] using hstep
  | cons s init ih =>
    obtain ⟨first, firstEnder⟩ := s
    have hmore : ¬ (firstEnder = zcrce ∨ firstEnder = zcrcw) :=
      hinit (first, firstEnder) (List.mem_cons_self ..)
    have hstep := feed_data P crc stale rcbs (g := g) (parse_subpacket crc 1024 first
      (frameBytes crc (init ++ [(sub, ender)]) ++ rest) firstEnder
      (hall (first, firstEnder) (by simp)) (hlengths (first, firstEnder) (by simp))) u
    rw [onData_some P rcbs g false u first firstEnder, if_neg hmore] at hstep
    obtain ⟨g', u', es, hinfo, hoffset, hrun⟩ := ih
      { g with fileOffset := P.toSize (g.fileOffset + first.length) }
      (callData rcbs first first.length g.fileOffset u).2
      (fun s hs => hall s (List.mem_cons_of_mem _ hs))
      (fun s hs => hinit s (List.mem_cons_of_mem _ hs))
      (fun s hs => hlengths s (List.mem_cons_of_mem _ hs))
    refine ⟨g', u', (callData rcbs first first.length g.fileOffset u).1 ++ es, hinfo, ?_, ?_⟩
    · rw [hoffset]
      simp only [Platform.toSize, Nat.mod_add_mod, List.cons_append, List.map_cons,
        List.flatten_cons, List.length_append, Nat.add_assoc]
    · have hbytes : frameBytes crc ((first, firstEnder) :: init ++ [(sub, ender)]) ++ rest =
          subpacket crc first firstEnder ++ (frameBytes crc (init ++ [(sub, ender)]) ++ rest) := by
        simp [frameBytes]
      rw [hbytes, hstep, hrun, Out.after_after]

/-! ### Resuming -/

/-- With nothing left to send the ZDATA header stands alone. -/
theorem not_resumes (stale : List Byte → List Byte) (rcbs : RxCallbacks υ') (v : TxLocals υ)
    (hinfo : v.info = fileInfo f) {junk : List Byte} (hjunk : zpad ∉ junk) {o : ℕ}
    (hge : f.contents.length ≤ o) (hpos : o < 2 ^ 32) (hmod : o < P.sizeMod) :
    ¬ Resumes P crc uninit tcbs stale rcbs f v junk o := by
  intro h
  obtain ⟨subs, hframe, -, hwire⟩ := h.frame
  have hlen : v.info.size = f.contents.length := by
    rw [hinfo]
    rfl
  have hnone : sendChunks crc tcbs v ((List.range 1024).map uninit) o = ([], v.userData) :=
    sendChunks_of_ge crc (f := f) hinfo _ hge
  rw [resumeBytes_eq P crc uninit tcbs v hjunk hpos hmod, hlen, hnone] at hwire
  have hempty : frameBytes crc subs = [] :=
    (List.append_cancel_right (List.append_cancel_left hwire)).symm
  obtain ⟨init, sub, ender, rfl, -⟩ := hframe.ends
  simp [frameBytes, subpacket] at hempty

/-- A file is resumed as a data frame unless nothing is left to send. -/
theorem resumes_iff {υ υ' : Type} (P : Platform) (crc : CrcService) (uninit : ℕ → Byte)
    (tcbs : TxCallbacks υ) (stale : List Byte → List Byte) (rcbs : RxCallbacks υ')
    {files : List File} (hs : Serves P.sizeMod tcbs files) {f : File} (v : TxLocals υ)
    (hidx : files[v.fileIdx]? = some f) (hinfo : v.info = fileInfo f)
    (hsize : f.contents.length < P.sizeMod) {junk : List Byte} (hjunk : zpad ∉ junk) {o : ℕ}
    (ho : o ≤ f.contents.length) (hpos : o < 2 ^ 32) :
    Resumes P crc uninit tcbs stale rcbs f v junk o ↔ o < f.contents.length := by
  have hmod : o < P.sizeMod := Nat.lt_of_le_of_lt ho hsize
  constructor
  · intro h
    by_contra hge
    exact not_resumes P crc uninit stale rcbs v hinfo hjunk (Nat.not_lt.mp hge) hpos hmod h
  · intro hlt
    have hlen : v.info.size = f.contents.length := by
      rw [hinfo]
      rfl
    obtain ⟨subs, hframe, hall, hpayload, hwire⟩ := sendChunks_frame P crc hs v hidx hinfo
      ((List.range 1024).map uninit) o hlt
    have hbytes := resumeBytes_eq P crc uninit tcbs v hjunk hpos hmod
    rw [hlen, hwire] at hbytes
    refine ⟨⟨subs, hframe, hpayload, hbytes⟩, ?_⟩
    intro g u rest
    have hopen : onFileHeader crc rcbs g u (some ⟨zdata, posFlags o, false⟩) =
        rxAt (.data g false (.data [] false)) u := rfl
    obtain ⟨g', u', es, hg, hoffset, hrun⟩ := feed_frame P crc stale rcbs hframe hall g u
      (hexHeader crc zeof (posFlags f.contents.length) ++ rest)
    refine ⟨g', u', es, ⟨zeof, posFlags f.contents.length, false⟩, hg, ?_, rfl,
      headerPos_posFlags _ _ _, ?_⟩
    · rw [hoffset, hpayload, List.length_drop]
    · rw [hbytes, List.append_assoc, feed_fileHeader P crc stale rcbs
        (parse_binaryHeader crc true zdata _ _ (length_posFlags o)) u, hopen, rxAt, Out.after_nil,
        List.append_assoc, hrun, feed_fileHeader P crc stale rcbs
        (parse_hexHeader crc true zeof _ rest (length_posFlags _)) u', Out.after_after]

def noCallbacks : RxCallbacks Unit := ⟨none, none, none⟩

/-- The second byte of a file of two. -/
theorem resumes_last_byte :
    Resumes platform32 referenceCrc (fun _ => 0) (batchCallbacks [⟨[0x61], [1, 0x18]⟩])
      (fun _ => []) noCallbacks ⟨[0x61], [1, 0x18]⟩ ⟨0, ⟨[0x61], 2⟩, ()⟩ [] 1 :=
  (resumes_iff platform32 referenceCrc _ _ _ _ (batchCallbacks_serves (by decide)) _ rfl rfl
    (by decide) (by decide) (by decide) (by decide)).mpr (by decide)

/-- An empty file. -/
theorem not_resumes_empty :
    ¬ Resumes platform32 referenceCrc (fun _ => 0) (batchCallbacks [⟨[0x61], []⟩])
      (fun _ => []) noCallbacks ⟨[0x61], []⟩ ⟨0, ⟨[0x61], 0⟩, ()⟩ [] 0 :=
  not_resumes platform32 referenceCrc _ _ _ _ rfl (by decide) (by decide) (by decide) (by decide)

end Resume

end ZephyrModem.Zmodem
