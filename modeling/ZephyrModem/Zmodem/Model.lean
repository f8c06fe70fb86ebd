import ZephyrModem.CString
import ZephyrModem.Zmodem.Codec

/-!
# ZMODEM receiver and transmitter (`src/zmodem.c`, lines 387-482 and 524-609)

As for the other protocols, both functions are cut at their calls of
`read_byte`, here inside the readers of headers and subpackets.
-/

namespace ZephyrModem.Zmodem
open ZephyrModem.Reactive ZephyrModem.Transfer

abbrev RxCallbacks (υ : Type) := Transfer.RxCallbacks Status υ

def zeroFlags : List Byte := [0, 0, 0, 0]

/-! ### Receiver -/

structure FileLocals where
  info : FileInfo
  fileOffset : ℕ
  deriving Repr, DecidableEq

/-- The reads of `zmodem_receive`. -/
inductive RxSite where
  | header (h : HeaderSite)                                   -- line 403
  | fileInfo (isCrc32 : Bool) (p : PacketSite)                -- line 416
  | fileHeader (f : FileLocals) (h : HeaderSite)              -- line 442
  | data (f : FileLocals) (isCrc32 : Bool) (p : PacketSite)   -- line 450
  deriving Repr, DecidableEq

structure RxState (υ : Type) where
  site : RxSite
  userData : υ
  deriving Repr, DecidableEq

abbrev RxOut (υ : Type) := Out (Event Status) (RxState υ) Status

section Receive

-- `stale` gives what lies in memory behind the bytes of a subpacket
variable {υ : Type} (P : Platform) (crc : CrcService) (stale : List Byte → List Byte)
  (cbs : RxCallbacks υ)

/-- Lines 420 to 429. The size text is read up to the first byte that is no
digit, which may lie behind the subpacket. -/
def parseFileInfo (sub : List Byte) : FileInfo :=
  let nlen := (cstr sub).length
  let nlen := if nlen ≥ filenameSize then filenameSize - 1 else nlen
  ⟨sub.take nlen,
    if nlen + 1 < sub.length then P.toSize (strtoul P ((sub ++ stale sub).drop (nlen + 1))) else 0⟩

def rxAt (site : RxSite) (u : υ) : RxOut υ := ⟨[], .wait ⟨site, u⟩⟩

/-- Continues a reader, or goes on with its value. -/
def continueAt {τ α : Type} (wrap : τ → RxSite) (u : υ) (n : Next τ α) (k : α → RxOut υ) : RxOut υ :=
  match n with
  | .wait t => rxAt (wrap t) u
  | .done a => k a

/-- Lines 403 to 414 and 475 to 480. -/
def onHeader (u : υ) : Option Header → RxOut υ
  | none => ⟨[], .done .errorTimeout⟩
  | some h =>
    if h.type = zrqinit then
      ⟨sendHexHeader crc zrinit zeroFlags, .wait ⟨.header .pad, u⟩⟩
    else if h.type = zfile then rxAt (.fileInfo h.isCrc32 (.data [] false)) u
    else if h.type = zfin then
      ⟨sendHexHeader crc zfin zeroFlags ++ sendByte 0x4F ++ sendByte 0x4F, .done .ok⟩
    else rxAt (.header .pad) u

/-- Lines 416 to 439. -/
def onFileInfo (u : υ) : Option (List Byte × Byte) → RxOut υ
  | none => ⟨[], .done .errorIo⟩
  | some (sub, _) =>
    let info := parseFileInfo P stale sub
    let (called, userData) := callFileStart cbs info u
    ⟨called ++ sendHexHeader crc zrpos zeroFlags, .wait ⟨.fileHeader ⟨info, 0⟩ .pad, userData⟩⟩

/-- Lines 442 to 447 and 464 to 473. -/
def onFileHeader (f : FileLocals) (u : υ) : Option Header → RxOut υ
  | none => ⟨(callFileEnd cbs f.info .errorTimeout u).1, .done .errorTimeout⟩
  | some h =>
    if h.type = zdata then rxAt (.data f h.isCrc32 (.data [] false)) u
    else if h.type = zeof then
      let (called, userData) := callFileEnd cbs f.info .ok u
      ⟨called ++ sendHexHeader crc zrinit zeroFlags, .wait ⟨.header .pad, userData⟩⟩
    else if h.type = zfin then ⟨sendHexHeader crc zfin zeroFlags, .done .ok⟩
    else rxAt (.fileHeader f .pad) u

/-- Lines 450 to 462. -/
def onData (f : FileLocals) (isCrc32 : Bool) (u : υ) : Option (List Byte × Byte) → RxOut υ
  | none => ⟨(callFileEnd cbs f.info .errorIo u).1, .done .errorIo⟩
  | some (sub, ender) =>
    let (called, userData) := callData cbs sub sub.length f.fileOffset u
    let f := { f with fileOffset := P.toSize (f.fileOffset + sub.length) }
    if ender = zcrce ∨ ender = zcrcw then ⟨called, .wait ⟨.fileHeader f .pad, userData⟩⟩
    else ⟨called, .wait ⟨.data f isCrc32 (.data [] false), userData⟩⟩

/-- `zmodem_receive`, from one read to the next. -/
def receiveStep : Resume Read (Event Status) (RxState υ) Status := fun s r =>
  match s.site with
  | .header h => continueAt .header s.userData (readHeaderRx crc h r) (onHeader crc s.userData)
  | .fileInfo isCrc32 p =>
    continueAt (.fileInfo isCrc32) s.userData (readSubpacketRx crc 1024 isCrc32 p r)
      (onFileInfo P crc stale cbs s.userData)
  | .fileHeader f h =>
    continueAt (.fileHeader f) s.userData (readHeaderRx crc h r) (onFileHeader crc cbs f s.userData)
  | .data f isCrc32 p =>
    continueAt (.data f isCrc32) s.userData (readSubpacketRx crc 1024 isCrc32 p r)
      (onData P cbs f isCrc32 s.userData)

/-- The file whose data is received at a read. -/
def RxSite.file : RxSite → Option FileLocals
  | .header _ | .fileInfo .. => none
  | .fileHeader f _ | .data f .. => some f

/-- The reads that follow one another inside a header or a subpacket. -/
inductive RxSite.ReadsOn : RxSite → Read → RxSite → Prop where
  | header {h h' : HeaderSite} {r : Read} (hr : readHeaderRx crc h r = .wait h') :
      ReadsOn (.header h) r (.header h')
  | fileInfo {c : Bool} {p p' : PacketSite} {r : Read}
      (hr : readSubpacketRx crc 1024 c p r = .wait p') : ReadsOn (.fileInfo c p) r (.fileInfo c p')
  | fileHeader (f : FileLocals) {h h' : HeaderSite} {r : Read} (hr : readHeaderRx crc h r = .wait h') :
      ReadsOn (.fileHeader f h) r (.fileHeader f h')
  | data (f : FileLocals) {c : Bool} {p p' : PacketSite} {r : Read}
      (hr : readSubpacketRx crc 1024 c p r = .wait p') : ReadsOn (.data f c p) r (.data f c p')

theorem RxSite.ReadsOn.file_eq {site site' : RxSite} {r : Read} (h : site.ReadsOn crc r site') :
    site'.file = site.file := by
  cases h <;> rfl

/-- What one read can lead to: another read inside the header or the subpacket, or
what follows it. -/
inductive Outcome (s : RxState υ) (r : Read) : Prop where
  | readsOn (site : RxSite) (hnext : s.site.ReadsOn crc r site)
      (hstep : receiveStep P crc stale cbs s r = rxAt site s.userData)
  | header (h : HeaderSite) (a : Option Header) (hsite : s.site = .header h)
      (hread : readHeaderRx crc h r = .done a)
      (hstep : receiveStep P crc stale cbs s r = onHeader crc s.userData a)
  | fileInfo (c : Bool) (p : PacketSite) (a : Option (List Byte × Byte)) (hsite : s.site = .fileInfo c p)
      (hread : readSubpacketRx crc 1024 c p r = .done a)
      (hstep : receiveStep P crc stale cbs s r = onFileInfo P crc stale cbs s.userData a)
  | fileHeader (f : FileLocals) (h : HeaderSite) (a : Option Header)
      (hsite : s.site = .fileHeader f h) (hread : readHeaderRx crc h r = .done a)
      (hstep : receiveStep P crc stale cbs s r = onFileHeader crc cbs f s.userData a)
  | data (f : FileLocals) (c : Bool) (p : PacketSite) (a : Option (List Byte × Byte)) (hsite : s.site = .data f c p)
      (hread : readSubpacketRx crc 1024 c p r = .done a)
      (hstep : receiveStep P crc stale cbs s r = onData P cbs f c s.userData a)

theorem receiveStep_cases (s : RxState υ) (r : Read) : Outcome P crc stale cbs s r := by
  obtain ⟨site, u⟩ := s
  cases site with
  | header h =>
    cases hr : readHeaderRx crc h r with
    | wait h' => exact .readsOn _ (.header hr) (by simp only [receiveStep, hr, continueAt])
    | done a => exact .header h a rfl hr (by simp only [receiveStep, hr, continueAt])
  | fileInfo c p =>
    cases hr : readSubpacketRx crc 1024 c p r with
    | wait p' => exact .readsOn _ (.fileInfo hr) (by simp only [receiveStep, hr, continueAt])
    | done a => exact .fileInfo c p a rfl hr (by simp only [receiveStep, hr, continueAt])
  | fileHeader f h =>
    cases hr : readHeaderRx crc h r with
    | wait h' => exact .readsOn _ (.fileHeader f hr) (by simp only [receiveStep, hr, continueAt])
    | done a => exact .fileHeader f h a rfl hr (by simp only [receiveStep, hr, continueAt])
  | data f c p =>
    cases hr : readSubpacketRx crc 1024 c p r with
    | wait p' => exact .readsOn _ (.data f hr) (by simp only [receiveStep, hr, continueAt])
    | done a => exact .data f c p a rfl hr (by simp only [receiveStep, hr, continueAt])

theorem onHeader_cases (u : υ) (a : Option Header) :
    (∃ st, st ≠ .ok ∧ onHeader crc u a = ⟨[], .done st⟩) ∨
    (∃ es, Writes es ∧ onHeader crc u a = ⟨es, .done .ok⟩) ∨
    ∃ es site, Writes es ∧ site.file = none ∧ onHeader crc u a = ⟨es, .wait ⟨site, u⟩⟩ := by
  cases a with
  | none => exact .inl ⟨.errorTimeout, by decide, rfl⟩
  | some h =>
    right
    simp only [onHeader]
    split_ifs
    · exact .inr ⟨_, .header .pad, writes_writeBytes _, rfl, rfl⟩
    · exact .inr ⟨[], .fileInfo h.isCrc32 (.data [] false), writes_nil, rfl, rfl⟩
    · exact .inl ⟨_, ((writes_writeBytes _).append (writes_sendByte _)).append (writes_sendByte _), rfl⟩
    · exact .inr ⟨[], .header .pad, writes_nil, rfl, rfl⟩

theorem onFileHeader_cases (f : FileLocals) (u : υ) (a : Option Header) :
    (∃ st, a = none ∧ st ≠ .ok ∧
      onFileHeader crc cbs f u a = ⟨(callFileEnd cbs f.info st u).1, .done st⟩) ∨
    (∃ h, a = some h ∧ h.type = zeof ∧ onFileHeader crc cbs f u a =
      ⟨(callFileEnd cbs f.info .ok u).1 ++ sendHexHeader crc zrinit zeroFlags,
        .wait ⟨.header .pad, (callFileEnd cbs f.info .ok u).2⟩⟩) ∨
    (∃ h es, a = some h ∧ h.type = zfin ∧ Writes es ∧
      onFileHeader crc cbs f u a = ⟨es, .done .ok⟩) ∨
    ∃ site, site.file = some f ∧ onFileHeader crc cbs f u a = rxAt site u := by
  cases a with
  | none => exact .inl ⟨.errorTimeout, rfl, by decide, rfl⟩
  | some h =>
    right
    by_cases hdata : h.type = zdata
    · exact .inr (.inr ⟨.data f h.isCrc32 (.data [] false), rfl, if_pos hdata⟩)
    · by_cases hzeof : h.type = zeof
      · refine .inl ⟨h, rfl, hzeof, ?_⟩
        simp only [onFileHeader, if_neg hdata, if_pos hzeof]
      · right
        by_cases hzfin : h.type = zfin
        · refine .inl ⟨h, sendHexHeader crc zfin zeroFlags, rfl, hzfin, writes_writeBytes _, ?_⟩
          simp only [onFileHeader, if_neg hdata, if_neg hzeof, if_pos hzfin]
        · refine .inr ⟨.fileHeader f .pad, rfl, ?_⟩
          simp only [onFileHeader, if_neg hdata, if_neg hzeof, if_neg hzfin]

theorem onFileInfo_some (u : υ) (a : List Byte × Byte) :
    onFileInfo P crc stale cbs u (some a) =
      ⟨(callFileStart cbs (parseFileInfo P stale a.1) u).1 ++ sendHexHeader crc zrpos zeroFlags,
        .wait ⟨.fileHeader ⟨parseFileInfo P stale a.1, 0⟩ .pad,
          (callFileStart cbs (parseFileInfo P stale a.1) u).2⟩⟩ := rfl

theorem onData_some (f : FileLocals) (isCrc32 : Bool) (u : υ) (sub : List Byte) (ender : Byte) :
    onData P cbs f isCrc32 u (some (sub, ender)) =
      ⟨(callData cbs sub sub.length f.fileOffset u).1,
        .wait ⟨if ender = zcrce ∨ ender = zcrcw then
            .fileHeader { f with fileOffset := P.toSize (f.fileOffset + sub.length) } .pad
          else .data { f with fileOffset := P.toSize (f.fileOffset + sub.length) } isCrc32
            (.data [] false), (callData cbs sub sub.length f.fileOffset u).2⟩⟩ := by
  simp only [onData]
  split <;> rfl

/-- A ZEOF header comes in for the file. -/
def AcceptsZeof (s : RxState υ) (r : Read) (f : FileLocals) (hd : Header) : Prop :=
  ∃ h, s.site = .fileHeader f h ∧ readHeaderRx crc h r = .done (some hd) ∧ hd.type = zeof

def AcceptsZfin (s : RxState υ) (r : Read) : Prop :=
  ∃ h hd, (s.site = .header h ∨ ∃ f, s.site = .fileHeader f h) ∧
    readHeaderRx crc h r = .done (some hd) ∧ hd.type = zfin

theorem AcceptsZeof.step {s : RxState υ} {r : Read} {f : FileLocals} {hd : Header}
    (h : AcceptsZeof crc s r f hd) : receiveStep P crc stale cbs s r =
      ⟨(callFileEnd cbs f.info .ok s.userData).1 ++ sendHexHeader crc zrinit zeroFlags,
        .wait ⟨.header .pad, (callFileEnd cbs f.info .ok s.userData).2⟩⟩ := by
  obtain ⟨hs, hsite, hr, hz⟩ := h
  have hne : zeof ≠ zdata := by decide
  simp only [receiveStep, hsite, hr, continueAt, onFileHeader, hz, if_neg hne, if_true]

theorem AcceptsZfin.step {s : RxState υ} {r : Read} (h : AcceptsZfin crc s r) :
    ∃ es, Writes es ∧ receiveStep P crc stale cbs s r = ⟨es, .done .ok⟩ := by
  obtain ⟨h, hd, hsite | ⟨f, hsite⟩, hr, hz⟩ := h
  · have hrqinit : zfin ≠ zrqinit := by decide
    have hfile : zfin ≠ zfile := by decide
    refine ⟨sendHexHeader crc zfin zeroFlags ++ sendByte 0x4F ++ sendByte 0x4F,
      ((writes_writeBytes _).append (writes_sendByte _)).append (writes_sendByte _), ?_⟩
    simp only [receiveStep, hsite, hr, continueAt, onHeader, hz, if_neg hrqinit, if_neg hfile, if_true]
  · have hdata : zfin ≠ zdata := by decide
    have heof : zfin ≠ zeof := by decide
    refine ⟨sendHexHeader crc zfin zeroFlags, writes_writeBytes _, ?_⟩
    simp only [receiveStep, hsite, hr, continueAt, onFileHeader, hz, if_neg hdata, if_neg heof, if_true]

theorem acceptsZeof_call {s : RxState υ} {r : Read} {f : FileLocals} {hd : Header}
    (hend : cbs.onFileEnd ≠ none) (h : AcceptsZeof crc s r f hd) :
    (receiveStep P crc stale cbs s r).events =
      [] ++ .onFileEnd f.info .ok :: sendHexHeader crc zrinit zeroFlags := by
  obtain ⟨g, hg⟩ := Option.ne_none_iff_exists'.mp hend
  rw [h.step P crc stale]
  simp only [callFileEnd, hg]
  rfl

theorem done_ok_site {s : RxState υ} {r : Read}
    (h : (receiveStep P crc stale cbs s r).next = .done .ok) : AcceptsZfin crc s r := by
  rcases receiveStep_cases P crc stale cbs s r with ⟨site, -, he⟩ | ⟨hs, a, hsite, hr, he⟩ |
    ⟨c, p, a, -, -, he⟩ | ⟨f, hs, a, hsite, hr, he⟩ | ⟨f, c, p, a, -, -, he⟩ <;> rw [he] at h
  · cases h
  · cases a with
    | none => cases h
    | some hd =>
      simp only [onHeader] at h
      split_ifs at h with h₁ h₂ h₃
      · cases h
      · exact ⟨hs, hd, .inl hsite, hr, h₃⟩
      · cases h
  · cases a <;> cases h
  · cases a with
    | none => cases h
    | some hd =>
      simp only [onFileHeader] at h
      split_ifs at h with h₁ h₂ h₃
      · cases h
      · exact ⟨hs, hd, .inr ⟨f, hsite⟩, hr, h₃⟩
      · cases h
  · cases a with
    | none => cases h
    | some a =>
      rw [onData_some] at h
      cases h

/-- Where an event of a read comes from: bytes for the line anywhere, a failed end
of a file, the end of a file at a ZEOF, file information, or a subpacket. -/
theorem mem_receiveStep_events {s : RxState υ} {r : Read} {e : Event Status}
    (h : e ∈ (receiveStep P crc stale cbs s r).events) :
    (∃ b, e = .write b) ∨
    (∃ info st, st ≠ .ok ∧ e = .onFileEnd info st) ∨
    (∃ f hd, AcceptsZeof crc s r f hd ∧ cbs.onFileEnd ≠ none ∧ e = .onFileEnd f.info .ok) ∨
    (∃ c p a res, s.site = .fileInfo c p ∧ readSubpacketRx crc 1024 c p r = .done (some a) ∧
      e = .onFileStart (parseFileInfo P stale a.1) res) ∨
    ∃ f c p sub ender g, s.site = .data f c p ∧
      readSubpacketRx crc 1024 c p r = .done (some (sub, ender)) ∧ cbs.onData = some g ∧
      0 < sub.length ∧
      e = .onData sub sub.length f.fileOffset (g sub sub.length f.fileOffset s.userData).1 := by
  rcases receiveStep_cases P crc stale cbs s r with ⟨site, -, he⟩ | ⟨hs, a, -, -, he⟩ |
    ⟨c, p, a, hsite, hr, he⟩ | ⟨f, hs, a, hsite, hr, he⟩ | ⟨f, c, p, a, hsite, hr, he⟩ <;>
    rw [he] at h
  · cases h
  · rcases onHeader_cases crc s.userData a with ⟨st, -, h'⟩ | ⟨ws, hws, h'⟩ |
      ⟨ws, site, hws, -, h'⟩ <;> rw [h'] at h
    · cases h
    · exact .inl (hws e h)
    · exact .inl (hws e h)
  · cases a with
    | none => cases h
    | some a =>
      rw [onFileInfo_some] at h
      rcases List.mem_append.mp h with h | h
      · rcases callFileStart_events cbs (parseFileInfo P stale a.1) s.userData with hc | ⟨res, hc⟩ <;>
          rw [hc] at h
        · cases h
        · exact .inr (.inr (.inr (.inl ⟨c, p, a, res, hsite, hr, List.mem_singleton.mp h⟩)))
      · exact .inl (writes_writeBytes _ e h)
  · rcases onFileHeader_cases crc cbs f s.userData a with ⟨st, -, hst, h'⟩ | ⟨hd, rfl, hz, h'⟩ |
      ⟨hd, ws, -, -, hws, h'⟩ | ⟨site, -, h'⟩ <;> rw [h'] at h
    · exact .inr (.inl ⟨f.info, st, hst, ((mem_callFileEnd_iff cbs f.info st _ e).mp h).2⟩)
    · rcases List.mem_append.mp h with h | h
      · obtain ⟨hend, rfl⟩ := (mem_callFileEnd_iff cbs f.info .ok _ e).mp h
        exact .inr (.inr (.inl ⟨f, hd, ⟨hs, hsite, hr, hz⟩, hend, rfl⟩))
      · exact .inl (writes_writeBytes _ e h)
    · exact .inl (hws e h)
    · cases h
  · cases a with
    | none =>
      exact .inr (.inl ⟨f.info, .errorIo, by decide, ((mem_callFileEnd_iff cbs f.info _ _ e).mp h).2⟩)
    | some a =>
      obtain ⟨sub, ender⟩ := a
      rw [onData_some] at h
      obtain ⟨g, hg, hlen, rfl⟩ := (mem_callData_iff cbs _ _ _ _ e).mp h
      exact .inr (.inr (.inr (.inr ⟨f, c, p, sub, ender, g, hsite, hr, hg, hlen, rfl⟩)))

/-- `zmodem_receive` up to its first read. -/
def zmodemReceive (userData : υ) : RxOut υ :=
  ⟨sendHexHeader crc zrinit zeroFlags, .wait ⟨.header .pad, userData⟩⟩

/-- The log of a run and where it stands. -/
def received (userData : υ) (reads : List Read) : RxOut υ :=
  (run (receiveStep P crc stale cbs) (zmodemReceive crc userData).next reads).after
    (zmodemReceive crc userData).events

end Receive

/-! ### Transmitter -/

/-- Locals of `zmodem_transmit` that live across the reads for one file. -/
structure TxLocals (υ : Type) where
  fileIdx : ℕ
  info : FileInfo
  userData : υ
  deriving Repr, DecidableEq

/-- The reads of `zmodem_transmit`. -/
inductive TxSite (υ : Type) where
  | zrinit (h : HeaderSite) (userData : υ)        -- line 538
  | zfin (h : HeaderSite)                         -- line 549
  | zrpos (v : TxLocals υ) (h : HeaderSite)       -- line 568
  | nextZrinit (v : TxLocals υ) (h : HeaderSite)  -- line 603
  deriving Repr, DecidableEq

abbrev TxOut (υ : Type) := Out (Event Status) (TxSite υ) Status

section Transmit

-- `uninit` gives the contents of `data_buf` before the first read of a file
variable {υ : Type} (P : Platform) (crc : CrcService) (uninit : ℕ → Byte) (cbs : TxCallbacks υ)

/-- The file name and the size text (lines 558 to 564). -/
def fileSubpacket (info : FileInfo) : List Byte :=
  let nlen := min info.filename.length 200
  info.filename.take nlen ++ 0 :: (decimal info.size).take (512 - (nlen + 1) - 1) ++ [0]

/-- A position as four bytes, low byte first. -/
def posFlags (pos : ℕ) : List Byte :=
  [UInt8.ofNat pos, UInt8.ofNat (pos / 2 ^ 8), UInt8.ofNat (pos / 2 ^ 16), UInt8.ofNat (pos / 2 ^ 24)]

/-- Line 571. -/
def flagsPos (flags : List Byte) : ℕ :=
  P.toSize ((flags.getD 0 0).toNat + (flags.getD 1 0).toNat * 2 ^ 8 +
    (flags.getD 2 0).toNat * 2 ^ 16 + (flags.getD 3 0).toNat * 2 ^ 24)

/-- The outer loop (line 543) up to its first read. -/
def nextFile (fileIdx : ℕ) (u : υ) : TxOut υ :=
  let (hasFile, info, userData) := cbs.getFileInfo fileIdx u
  if hasFile ≠ 0 ∨ info.filename = [] then
    ⟨.getFileInfo fileIdx :: sendHexHeaderTx crc zfin zeroFlags, .wait (.zfin .pad)⟩
  else
    ⟨.getFileInfo fileIdx :: writeBytes (binaryHeader crc zfile zeroFlags ++
        subpacket crc (fileSubpacket info) zcrcw),
      .wait (.zrpos ⟨fileIdx, info, userData⟩ .pad)⟩

/-- The loop of line 584: the rest of the file from `fileOffset`, with the
buffer as the last `read_data` left it. The offset does not wrap, it stays below
`info.size`. -/
def sendChunks (v : TxLocals υ) (dataBuf : List Byte) (fileOffset : ℕ) : List (Event Status) × υ :=
  if fileOffset < v.info.size then
    let chunk := v.info.size - fileOffset
    let chunk := if chunk > 1024 then 1024 else chunk
    let (res, data, userData) := cbs.readData v.fileIdx fileOffset chunk v.userData
    let dataBuf := data ++ dataBuf.drop data.length
    let ender := if fileOffset + chunk ≥ v.info.size then zcrcw else zcrcg
    let (sent, userData) := sendChunks { v with userData } dataBuf (fileOffset + chunk)
    (.readData v.fileIdx fileOffset chunk data res ::
      writeBytes (subpacket crc (dataBuf.take chunk) ender) ++ sent, userData)
  else ([], v.userData)
termination_by v.info.size - fileOffset
decreasing_by
  split <;> omega

/-- Lines 571 to 601: the data of the file and its end. -/
def sendFile (v : TxLocals υ) (flags : List Byte) : TxOut υ :=
  let fileOffset := flagsPos P flags
  let (sent, userData) := sendChunks crc cbs v ((List.range 1024).map uninit) fileOffset
  ⟨writeBytes (binaryHeader crc zdata (posFlags fileOffset)) ++ sent ++
      sendHexHeaderTx crc zeof (posFlags v.info.size),
    .wait (.nextZrinit { v with userData } .pad)⟩

def txContinueAt (wrap : HeaderSite → TxSite υ) (n : Next HeaderSite (Option Header))
    (k : Option Header → TxOut υ) : TxOut υ :=
  match n with
  | .wait h => ⟨[], .wait (wrap h)⟩
  | .done a => k a

/-- `zmodem_transmit`, from one read to the next. -/
def transmitStep : Resume Read (Event Status) (TxSite υ) Status := fun s r =>
  match s with
  | .zrinit h u => txContinueAt (.zrinit · u) (readHeaderTx crc h r) fun header =>
    if header.map Header.type = some zrinit then nextFile crc cbs 0 u
    else ⟨[], .done .errorTimeout⟩
  | .zfin h => txContinueAt .zfin (readHeaderTx crc h r) fun header =>
    if header.map Header.type = some zfin then ⟨sendByte 0x4F ++ sendByte 0x4F, .done .ok⟩
    else ⟨[], .done .ok⟩
  | .zrpos v h => txContinueAt (.zrpos v) (readHeaderTx crc h r) fun header =>
    match header with
    | some header =>
      if header.type = zrpos then sendFile P crc uninit cbs v header.flags
      else ⟨[], .done .errorTimeout⟩
    | none => ⟨[], .done .errorTimeout⟩
  | .nextZrinit v h => txContinueAt (.nextZrinit v) (readHeaderTx crc h r) fun header =>
    if header.map Header.type = some zrinit then
      nextFile crc cbs (P.toSize (v.fileIdx + 1)) v.userData
    else ⟨[], .done .errorTimeout⟩

/-- `zmodem_transmit` up to its first read. -/
def zmodemTransmit (userData : υ) : TxOut υ :=
  ⟨sendHexHeaderTx crc zrqinit zeroFlags, .wait (.zrinit .pad userData)⟩

end Transmit

end ZephyrModem.Zmodem
