import ZephyrModem.Reactive.Transcript
import ZephyrModem.Zmodem.Cancellation
import ZephyrModem.Zmodem.HeaderGrammar
import ZephyrModem.Zmodem.Resume
import ZephyrModem.Zmodem.Supply

/-!
# What `zmodem_transmit` writes, between what it reads

Whatever the replies are, the transcript is the greeting, one whole file after another, and
what has been sent for one more. Between two things that are written stands one header that
was read, or the reads of one that is not complete yet.
-/

namespace ZephyrModem.Zmodem
open ZephyrModem.Reactive ZephyrModem.Transfer

abbrev Items := List (Item Read (Event Status))

def sent (bs : List Byte) : Items := (writeBytes bs).map .event

section Headers

variable (crc : CrcService)

/-- Where the reader of a header stands behind these reads. -/
inductive Reading : List Read → HeaderSite → Prop
  | start : Reading [] .pad
  | read {rs : List Read} {r : Read} {h h' : HeaderSite} (hrs : Reading rs h)
    (hr : readHeaderTx crc h r = .wait h') : Reading (rs ++ [r]) h'

/-- The reads of one call of the reader, with what it returns. -/
inductive Answered : List Read → Option Header → Prop
  | mk {rs : List Read} {r : Read} {h : HeaderSite} {a : Option Header} (hrs : Reading crc rs h)
    (hr : readHeaderTx crc h r = .done a) : Answered (rs ++ [r]) a

/-- A header of the type was read: the reads end with a frame of it. -/
structure Heard (type : Byte) (rs : List Read) (hd : Header) : Prop where
  answered : Answered crc rs (some hd)
  type : hd.type = type
  frame : ∃ noise pads frame, Pads pads ∧ HeaderFrame crc false hd frame ∧
    rs = (noise ++ (pads ++ frame)).map .ok

/-- No header was read, or one of another type. -/
def Unheard (type : Byte) (rs : List Read) : Prop :=
  ∃ a, Answered crc rs a ∧ a.map Header.type ≠ some type

end Headers

/-! ### One file -/

/-- A subpacket of file data with what was read from the file for it. -/
structure SentChunk where
  offset : ℕ
  len : ℕ
  data : List Byte
  res : ℤ
  buf : List Byte
  ender : Byte
  deriving Repr, DecidableEq

/-- The reads for its position, the subpackets, and the reads behind ZEOF. -/
structure SentFile where
  info : FileInfo
  posReads : List Read
  pos : Header
  chunks : List SentChunk
  endReads : List Read
  deriving Repr, DecidableEq

/-- The subpackets that carry a file of `size` bytes from an offset on. -/
def Chunks (size : ℕ) : ℕ → List SentChunk → Prop
  | offset, [] => size ≤ offset
  | offset, c :: cs => offset < size ∧ c.offset = offset ∧ c.len = min 1024 (size - offset) ∧
      c.buf.length = c.len ∧ Filled c.len c.data c.res c.buf ∧
      c.ender = (if offset + c.len ≥ size then zcrcw else zcrcg) ∧ Chunks size (offset + c.len) cs

section Items

variable (P : Platform) (crc : CrcService)

def SentChunk.items (idx : ℕ) (c : SentChunk) : Items :=
  .event (.readData idx c.offset c.len c.data c.res) :: sent (subpacket crc c.buf c.ender)

/-- From `get_file_info` to the file information, or to ZFIN. -/
def opening (idx : ℕ) (info : FileInfo) : Items :=
  .event (.getFileInfo idx) :: sent (binaryHeader crc zfile zeroFlags ++
    subpacket crc (fileSubpacket info) zcrcw)

def closing (idx : ℕ) : Items := .event (.getFileInfo idx) :: sent (hexHeader crc zfin zeroFlags)

/-- From ZDATA to ZEOF. -/
def body (idx size offset : ℕ) (chunks : List SentChunk) : Items :=
  sent (binaryHeader crc zdata (posFlags offset)) ++
    (chunks.flatMap (SentChunk.items crc idx) ++ sent (hexHeader crc zeof (posFlags size)))

def positioned (idx : ℕ) (info : FileInfo) (posReads : List Read) (pos : Header)
    (chunks : List SentChunk) : Items :=
  opening crc idx info ++ (posReads.map .read ++
    body crc idx info.size (flagsPos P pos.flags) chunks)

def SentFile.items (idx : ℕ) (f : SentFile) : Items :=
  positioned P crc idx f.info f.posReads f.pos f.chunks ++ f.endReads.map .read

def greeting : Items := sent (hexHeader crc zrqinit zeroFlags)

end Items

section Standing

variable {υ : Type} (P : Platform) (crc : CrcService) (cbs : TxCallbacks υ)

/-- `get_file_info` names such a file. -/
def Offers (idx : ℕ) (info : FileInfo) : Prop :=
  ∃ u, (cbs.getFileInfo idx u).1 = 0 ∧ (cbs.getFileInfo idx u).2.1 = info ∧ info.filename ≠ []

def OffersNone (idx : ℕ) : Prop :=
  ∃ u, ¬ ((cbs.getFileInfo idx u).1 = 0 ∧ (cbs.getFileInfo idx u).2.1.filename ≠ [])

/-- A whole file, sent from the position that was asked for. -/
structure SentFile.Whole (idx : ℕ) (f : SentFile) : Prop where
  offered : Offers cbs idx f.info
  pos : Heard crc zrpos f.posReads f.pos
  chunks : Chunks f.info.size (flagsPos P f.pos.flags) f.chunks
  next : ∃ hd, Heard crc zrinit f.endReads hd

/-- What follows the whole files. -/
inductive Rest (idx : ℕ) : Next (TxSite υ) Status → Items → Prop
  | zrpos {v : TxLocals υ} {rs : List Read} {h : HeaderSite} (hidx : v.fileIdx = idx)
    (hoffers : Offers cbs idx v.info) (hrs : Reading crc rs h) :
    Rest idx (.wait (.zrpos v h)) (opening crc idx v.info ++ rs.map .read)
  | zrposRefused {info : FileInfo} {rs : List Read} (hoffers : Offers cbs idx info)
    (hrs : Unheard crc zrpos rs) :
    Rest idx (.done .errorTimeout) (opening crc idx info ++ rs.map .read)
  | nextZrinit {v : TxLocals υ} {posReads rs : List Read} {pos : Header} {chunks : List SentChunk}
    {h : HeaderSite} (hidx : v.fileIdx = idx) (hoffers : Offers cbs idx v.info)
    (hpos : Heard crc zrpos posReads pos) (hchunks : Chunks v.info.size (flagsPos P pos.flags) chunks)
    (hrs : Reading crc rs h) :
    Rest idx (.wait (.nextZrinit v h))
      (positioned P crc idx v.info posReads pos chunks ++ rs.map .read)
  | nextRefused {info : FileInfo} {posReads rs : List Read} {pos : Header} {chunks : List SentChunk}
    (hoffers : Offers cbs idx info) (hpos : Heard crc zrpos posReads pos)
    (hchunks : Chunks info.size (flagsPos P pos.flags) chunks) (hrs : Unheard crc zrinit rs) :
    Rest idx (.done .errorTimeout) (positioned P crc idx info posReads pos chunks ++ rs.map .read)
  | zfin {rs : List Read} {h : HeaderSite} (hnone : OffersNone cbs idx) (hrs : Reading crc rs h) :
    Rest idx (.wait (.zfin h)) (closing crc idx ++ rs.map .read)
  | over {rs : List Read} {hd : Header} (hnone : OffersNone cbs idx) (hrs : Heard crc zfin rs hd) :
    Rest idx (.done .ok) (closing crc idx ++ (rs.map .read ++ sent [0x4F, 0x4F]))
  | unanswered {rs : List Read} (hnone : OffersNone cbs idx) (hrs : Unheard crc zfin rs) :
    Rest idx (.done .ok) (closing crc idx ++ rs.map .read)

/-- The transcript of a transmission: the greeting, whole files and what follows them. -/
inductive Stands : Items → Next (TxSite υ) Status → Prop
  | greets {rs : List Read} {h : HeaderSite} (u : υ) (hrs : Reading crc rs h) :
    Stands (greeting crc ++ rs.map .read) (.wait (.zrinit h u))
  | unwelcome {rs : List Read} (hrs : Unheard crc zrinit rs) :
    Stands (greeting crc ++ rs.map .read) (.done .errorTimeout)
  | sends {rs : List Read} {hd : Header} {files : List SentFile} {n : Next (TxSite υ) Status}
    {rest : Items} (hrs : Heard crc zrinit rs hd)
    (hfiles : ∀ i (h : i < files.length), files[i].Whole P crc cbs (P.toSize i))
    (hrest : Rest P crc cbs (P.toSize files.length) n rest) :
    Stands (greeting crc ++ (rs.map .read ++
      ((files.mapIdx fun i f => f.items P crc (P.toSize i)).flatten ++ rest))) n

variable {P crc cbs}

/-! ### Headers that are read -/

theorem Reading.bytes {rs : List Read} {h : HeaderSite} (hrs : Reading crc rs h) :
    ∃ bs, rs = bs.map .ok ∧ ∀ more, parse (readHeaderTx crc) (.wait .pad) (bs ++ more) =
      parse (readHeaderTx crc) (.wait h) more := by
  induction hrs with
  | start => exact ⟨[], rfl, fun more => rfl⟩
  | @read rs r h h' _ hr ih =>
    obtain ⟨bs, rfl, hparse⟩ := ih
    cases r with
    | timeout =>
      rw [readHeaderTx, readHeader_timeout] at hr
      cases hr
    | cancel =>
      rw [readHeaderTx, (readHeader_cancel crc false h).1] at hr
      cases hr
    | ok b =>
      refine ⟨bs ++ [b], by rw [List.map_append, List.map_singleton], ?_⟩
      intro more
      rw [List.append_assoc, hparse, List.singleton_append, parse_cons, hr]

/-- A header that is returned stands at the end of what was read. -/
theorem Answered.heard {rs : List Read} {hd : Header} (h : Answered crc rs (some hd)) :
    Heard crc hd.type rs hd := by
  refine ⟨h, rfl, ?_⟩
  cases h with
  | @mk rs r h _ hrs hr =>
    obtain ⟨bs, rfl, hparse⟩ := hrs.bytes
    cases r with
    | timeout =>
      rw [readHeaderTx, readHeader_timeout] at hr
      cases hr
    | cancel =>
      rw [readHeaderTx, (readHeader_cancel crc false h).1] at hr
      cases hr
    | ok b =>
      have hdone : parse (readHeader crc false) (.wait .pad) (bs ++ [b]) = (.done (some hd), []) := by
        have hlast := hparse [b]
        rw [parse_cons, hr, parse_done] at hlast
        exact hlast
      obtain ⟨noise, pads, frame, hpads, hframe, hbytes⟩ := call_some crc false (call_of_done hdone)
      refine ⟨noise, pads, frame, hpads, hframe, ?_⟩
      rw [List.append_nil] at hbytes
      rw [← hbytes, List.map_append, List.map_singleton]

/-- What a read does inside a header. -/
theorem reading_step {rs : List Read} {h : HeaderSite} (hrs : Reading crc rs h) (r : Read)
    (wrap : HeaderSite → TxSite υ) (k : Option Header → TxOut υ) :
    (∃ h', Reading crc (rs ++ [r]) h' ∧
      txContinueAt wrap (readHeaderTx crc h r) k = ⟨[], .wait (wrap h')⟩) ∨
    ∃ a, Answered crc (rs ++ [r]) a ∧ txContinueAt wrap (readHeaderTx crc h r) k = k a := by
  cases hr : readHeaderTx crc h r with
  | wait h' => exact .inl ⟨h', .read hrs hr, rfl⟩
  | done a => exact .inr ⟨a, .mk hrs hr, rfl⟩

theorem heard_or_unheard {rs : List Read} {a : Option Header} (h : Answered crc rs a) (type : Byte) :
    (∃ hd, a = some hd ∧ Heard crc type rs hd) ∨ a.map Header.type ≠ some type ∧
      Unheard crc type rs := by
  by_cases ha : a.map Header.type = some type
  · obtain ⟨hd, rfl, rfl⟩ := Option.map_eq_some_iff.mp ha
    exact .inl ⟨hd, rfl, h.heard⟩
  · exact .inr ⟨ha, a, h, ha⟩

/-! ### What is sent -/

variable (crc cbs)

/-- The loop of line 584 sends the rest of the file in subpackets. -/
theorem sendChunks_chunks (v : TxLocals υ) {dataBuf : List Byte} (hbuf : dataBuf.length = 1024)
    (offset : ℕ) : ∃ cs, Chunks v.info.size offset cs ∧
      ((sendChunks crc cbs v dataBuf offset).1.map .event : Items) =
        cs.flatMap (SentChunk.items crc v.fileIdx) := by
  -- on the bytes left
  induction hleft : v.info.size - offset using Nat.strongRecOn generalizing v dataBuf offset with
  | ind left ih =>
    by_cases hlt : offset < v.info.size
    · have hlen : (if v.info.size - offset > 1024 then 1024 else v.info.size - offset) =
          min 1024 (v.info.size - offset) := by
        split <;> omega
      rw [sendChunks, if_pos hlt]
      simp only [hlen]
      obtain ⟨buf, dataBuf', hfilled, -, hbuf', htake, rfl⟩ :=
        filled_chunk cbs v hbuf offset (Nat.min_le_left 1024 (v.info.size - offset))
      obtain ⟨cs, hcs, hitems⟩ := ih (v.info.size - (offset + min 1024 (v.info.size - offset)))
        (by omega)
        { v with userData := (cbs.readData v.fileIdx offset (min 1024 (v.info.size - offset))
          v.userData).2.2 } hbuf' (offset + min 1024 (v.info.size - offset)) rfl
      have hlength : buf.length = min 1024 (v.info.size - offset) := by
        rw [← htake, List.length_take, hbuf']
        omega
      refine ⟨⟨offset, min 1024 (v.info.size - offset), _, _, buf,
        if offset + min 1024 (v.info.size - offset) ≥ v.info.size then zcrcw else zcrcg⟩ :: cs,
        ⟨hlt, rfl, rfl, hlength, hfilled, rfl, hcs⟩, ?_⟩
      rw [htake, List.flatMap_cons, ← hitems]
      simp [SentChunk.items, sent]
    · refine ⟨[], Nat.le_of_not_lt hlt, ?_⟩
      rw [sendChunks, if_neg hlt]
      rfl

/-- What follows the answer to the file information. -/
theorem sendFrom_items (uninit : ℕ → Byte) (v : TxLocals υ) (offset : ℕ) :
    ∃ cs u, Chunks v.info.size offset cs ∧
      (sendFrom crc uninit cbs v offset).next = .wait (.nextZrinit { v with userData := u } .pad) ∧
      ((sendFrom crc uninit cbs v offset).events.map .event : Items) =
        body crc v.fileIdx v.info.size offset cs := by
  have hbuf : ((List.range 1024).map uninit).length = 1024 := by
    rw [List.length_map, List.length_range]
  obtain ⟨cs, hcs, hitems⟩ := sendChunks_chunks crc cbs v hbuf offset
  refine ⟨cs, _, hcs, rfl, ?_⟩
  rw [sendFrom, body, ← hitems, List.map_append, List.map_append, List.append_assoc]
  rfl

variable {crc cbs}

theorem rest_nextFile (idx : ℕ) (u : υ) :
    Rest P crc cbs idx (nextFile crc cbs idx u).next ((nextFile crc cbs idx u).events.map .event) := by
  have hread : Reading crc [] .pad := .start
  unfold nextFile
  dsimp only
  split
  · rename_i hnone
    have hclosing : Rest P crc cbs idx (.wait (.zfin .pad)) _ := .zfin ⟨u, by tauto⟩ hread
    rwa [List.map_nil, List.append_nil] at hclosing
  · rename_i hsome
    rw [not_or, not_not] at hsome
    have hopening := Rest.zrpos (P := P) (v := ⟨idx, (cbs.getFileInfo idx u).2.1,
      (cbs.getFileInfo idx u).2.2⟩) rfl ⟨u, hsome.1, rfl, hsome.2⟩ hread
    rwa [List.map_nil, List.append_nil] at hopening

/-! ### The steps -/

theorem snoc_items (before : Items) (rs : List Read) (r : Read) (more : Items) :
    before ++ rs.map .read ++ .read r :: more = before ++ ((rs ++ [r]).map .read ++ more) := by
  simp

theorem onAnswer_refused {uninit : ℕ → Byte} (v : TxLocals υ) {a : Option Header}
    (h : a.map Header.type ≠ some zrpos) :
    onAnswer P crc uninit cbs v a = ⟨[], .done .errorTimeout⟩ := by
  cases a with
  | none => rfl
  | some hd => exact if_neg fun he => h (congrArg some he)

theorem rest_zrpos {uninit : ℕ → Byte} {v : TxLocals υ} {rs : List Read} {h : HeaderSite}
    (hoffers : Offers cbs v.fileIdx v.info) (hrs : Reading crc rs h) (r : Read) :
    Rest P crc cbs v.fileIdx (transmitStep P crc uninit cbs (.zrpos v h) r).next
      (opening crc v.fileIdx v.info ++ rs.map .read ++
        .read r :: (transmitStep P crc uninit cbs (.zrpos v h) r).events.map .event) := by
  have hstep : transmitStep P crc uninit cbs (.zrpos v h) r =
      txContinueAt (.zrpos v) (readHeaderTx crc h r) (onAnswer P crc uninit cbs v) := rfl
  rw [snoc_items]
  rcases reading_step hrs r (.zrpos v) (onAnswer P crc uninit cbs v) with
    ⟨h', hread, hgoes⟩ | ⟨a, hanswer, hends⟩
  · rw [hstep, hgoes, List.map_nil, List.append_nil]
    exact .zrpos rfl hoffers hread
  · rcases heard_or_unheard hanswer zrpos with ⟨hd, rfl, hheard⟩ | ⟨hne, hunheard⟩
    · obtain ⟨cs, u, hcs, hnext, hitems⟩ := sendFrom_items crc cbs uninit v (flagsPos P hd.flags)
      rw [hstep, hends, onAnswer_zrpos P crc uninit cbs v hheard.type, hnext, hitems]
      have hpos := Rest.nextZrinit (v := { v with userData := u }) rfl hoffers hheard hcs .start
      rwa [List.map_nil, List.append_nil, positioned] at hpos
    · rw [hstep, hends, onAnswer_refused v hne, List.map_nil, List.append_nil]
      exact .zrposRefused hoffers hunheard

theorem rest_zfin {uninit : ℕ → Byte} {idx : ℕ} {rs : List Read} {h : HeaderSite}
    (hnone : OffersNone cbs idx) (hrs : Reading crc rs h) (r : Read) :
    Rest P crc cbs idx (transmitStep P crc uninit cbs (.zfin h : TxSite υ) r).next
      (closing crc idx ++ rs.map .read ++
        .read r :: (transmitStep P crc uninit cbs (.zfin h : TxSite υ) r).events.map .event) := by
  rw [snoc_items]
  rcases reading_step hrs r (fun h' => (.zfin h' : TxSite υ)) (fun header =>
    if header.map Header.type = some zfin then ⟨sendByte 0x4F ++ sendByte 0x4F, .done .ok⟩
    else ⟨[], .done .ok⟩) with ⟨h', hread, hgoes⟩ | ⟨a, hanswer, hends⟩
  · have hstep : transmitStep P crc uninit cbs (.zfin h) r = ⟨[], .wait (.zfin h')⟩ := hgoes
    rw [hstep, List.map_nil, List.append_nil]
    exact .zfin hnone hread
  · rcases heard_or_unheard hanswer zfin with ⟨hd, rfl, hheard⟩ | ⟨hne, hunheard⟩
    · have hstep : transmitStep P crc uninit cbs (.zfin h) r =
          ⟨sendByte 0x4F ++ sendByte 0x4F, .done .ok⟩ := hends.trans (if_pos (congrArg some hheard.type))
      rw [hstep]
      exact .over hnone hheard
    · have hstep : transmitStep P crc uninit cbs (.zfin h) r = ⟨[], .done .ok⟩ :=
        hends.trans (if_neg hne)
      rw [hstep, List.map_nil, List.append_nil]
      exact .unanswered hnone hunheard

/-- A read after the whole files goes on with the last part, or completes another file. -/
theorem rest_step {uninit : ℕ → Byte} {idx : ℕ} {s : TxSite υ} {tr : Items}
    (h : Rest P crc cbs idx (.wait s) tr) (r : Read) :
    Rest P crc cbs idx (transmitStep P crc uninit cbs s r).next
        (tr ++ .read r :: (transmitStep P crc uninit cbs s r).events.map .event) ∨
      ∃ f u, SentFile.Whole P crc cbs idx f ∧ tr ++ [.read r] = f.items P crc idx ∧
        transmitStep P crc uninit cbs s r = nextFile crc cbs (P.toSize (idx + 1)) u := by
  cases h with
  | zrpos hidx hoffers hrs =>
    subst hidx
    exact .inl (rest_zrpos hoffers hrs r)
  | zfin hnone hrs => exact .inl (rest_zfin hnone hrs r)
  | @nextZrinit v posReads rs pos chunks h hidx hoffers hpos hchunks hrs =>
    subst hidx
    rcases reading_step hrs r (.nextZrinit v) (fun header =>
      if header.map Header.type = some zrinit then
        nextFile crc cbs (P.toSize (v.fileIdx + 1)) v.userData
      else ⟨[], .done .errorTimeout⟩) with ⟨h', hread, hgoes⟩ | ⟨a, hanswer, hends⟩
    · have hstep : transmitStep P crc uninit cbs (.nextZrinit v h) r =
          ⟨[], .wait (.nextZrinit v h')⟩ := hgoes
      rw [hstep, snoc_items, List.map_nil, List.append_nil]
      exact .inl (.nextZrinit rfl hoffers hpos hchunks hread)
    · rcases heard_or_unheard hanswer zrinit with ⟨hd, rfl, hheard⟩ | ⟨hne, hunheard⟩
      · refine .inr ⟨⟨v.info, posReads, pos, chunks, rs ++ [r]⟩, v.userData,
          ⟨hoffers, hpos, hchunks, hd, hheard⟩, ?_, hends.trans (if_pos (congrArg some hheard.type))⟩
        rw [SentFile.items, List.append_assoc, List.map_append, List.map_singleton]
      · have hstep : transmitStep P crc uninit cbs (.nextZrinit v h) r = ⟨[], .done .errorTimeout⟩ :=
          hends.trans (if_neg hne)
        rw [hstep, snoc_items, List.map_nil, List.append_nil]
        exact .inl (.nextRefused hoffers hpos hchunks hunheard)

/-! ### A whole transmission -/

theorem stands_step {uninit : ℕ → Byte} {tr : Items} {s : TxSite υ} (r : Read)
    (h : Stands P crc cbs tr (.wait s)) :
    Stands P crc cbs (tr ++ .read r :: (transmitStep P crc uninit cbs s r).events.map .event)
      (transmitStep P crc uninit cbs s r).next := by
  have hzero : P.toSize 0 = 0 := P.toSize_of_lt P.sizeMod_pos
  cases h with
  | @greets rs h u hrs =>
    rw [snoc_items]
    rcases reading_step hrs r (.zrinit · u) (fun header =>
      if header.map Header.type = some zrinit then nextFile crc cbs 0 u
      else ⟨[], .done .errorTimeout⟩) with ⟨h', hread, hgoes⟩ | ⟨a, hanswer, hends⟩
    · have hstep : transmitStep P crc uninit cbs (.zrinit h u) r = ⟨[], .wait (.zrinit h' u)⟩ := hgoes
      rw [hstep, List.map_nil, List.append_nil]
      exact .greets u hread
    · rcases heard_or_unheard hanswer zrinit with ⟨hd, rfl, hheard⟩ | ⟨hne, hunheard⟩
      · have hstep : transmitStep P crc uninit cbs (.zrinit h u) r = nextFile crc cbs 0 u :=
          hends.trans (if_pos (congrArg some hheard.type))
        have hrest : Rest P crc cbs (P.toSize ([] : List SentFile).length) (nextFile crc cbs 0 u).next
            ((nextFile crc cbs 0 u).events.map .event) := by
          rw [List.length_nil, hzero]
          exact rest_nextFile 0 u
        have hnofile : ∀ i (h : i < ([] : List SentFile).length),
            ([] : List SentFile)[i].Whole P crc cbs (P.toSize i) :=
          fun i hi => absurd hi (Nat.not_lt_zero i)
        rw [hstep]
        exact .sends hheard hnofile hrest
      · have hstep : transmitStep P crc uninit cbs (.zrinit h u) r = ⟨[], .done .errorTimeout⟩ :=
          hends.trans (if_neg hne)
        rw [hstep, List.map_nil, List.append_nil]
        exact .unwelcome hunheard
  | @sends rs hd files n rest hrs hfiles hrest =>
    rcases rest_step hrest r with hgoes | ⟨f, u, hf, hitems, hnext⟩
    · have hmore := Stands.sends hrs hfiles hgoes
      simp only [List.append_assoc] at hmore ⊢
      exact hmore
    · have hidx : P.toSize (P.toSize files.length + 1) = P.toSize (files ++ [f]).length := by
        rw [List.length_append, List.length_singleton]
        exact Nat.mod_add_mod files.length P.sizeMod 1
      have hwhole : ∀ i (h : i < (files ++ [f]).length), (files ++ [f])[i].Whole P crc cbs (P.toSize i) := by
        intro i hi
        rw [List.length_append, List.length_singleton] at hi
        by_cases hlast : i = files.length
        · subst hlast
          simpa using hf
        · rw [List.getElem_append_left (by omega)]
          exact hfiles i (by omega)
      rw [hidx] at hnext
      have hmore := Stands.sends hrs hwhole (rest_nextFile (P.toSize (files ++ [f]).length) u)
      rw [hnext]
      simp only [List.mapIdx_append, List.mapIdx_cons, List.mapIdx_nil, List.flatten_append,
        List.flatten_cons, List.flatten_nil, List.append_nil, Nat.zero_add, ← hitems,
        List.append_assoc, List.cons_append, List.nil_append] at hmore ⊢
      exact hmore

end Standing

/-- For any replies, what `zmodem_transmit` has written and read is the greeting, answered by
ZRINIT, one whole file after another, each sent from the position that ZRPOS asked for, and
a part of one more. It gives up behind a header that is not the one it waits for; once it
has sent ZFIN it returns OK whatever the answer is. -/
theorem transmit_frames {υ : Type} (P : Platform) (crc : CrcService) (uninit : ℕ → Byte)
    (cbs : TxCallbacks υ) (userData : υ) (reads : List Read) :
    Stands P crc cbs ((zmodemTransmit crc userData).events.map .event ++
        transcript (transmitStep P crc uninit cbs) (zmodemTransmit crc userData).next reads)
      (transmitted P crc uninit cbs userData reads).next := by
  have hstart : Stands P crc cbs ((zmodemTransmit crc userData).events.map .event)
      (zmodemTransmit crc userData).next := by
    have hgreets : Stands P crc cbs _ (.wait (.zrinit .pad userData)) := .greets userData .start
    rwa [List.map_nil, List.append_nil] at hgreets
  exact transcript_invariant (transmitStep P crc uninit cbs) (Stands P crc cbs)
    (fun tr s r h => stands_step r h) _ reads _ hstart

end ZephyrModem.Zmodem
