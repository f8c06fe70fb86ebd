import ZephyrModem.Reactive.Duplex
import ZephyrModem.Zmodem.Stream

/-!
# `zmodem_transmit` joined to `zmodem_receive`

The receiver sends ZRINIT when it starts and again when it reads ZRQINIT. The
transmitter reads the first ZRINIT as the start of the session and the second one
as the answer to its first file.
-/

namespace ZephyrModem.Zmodem
open ZephyrModem.Reactive ZephyrModem.Reactive.Duplex ZephyrModem.Transfer

section Interop

variable {υ υ' : Type} (P : Platform) (crc : CrcService) (stale : List Byte → List Byte)
  (uninit : ℕ → Byte) (tcbs : TxCallbacks υ) (rcbs : RxCallbacks υ')

def txParty : Party Byte (Event Status) (TxSite υ) Status :=
  ⟨transmitStep P crc uninit tcbs, Event.wire⟩

def rxParty : Party Byte (Event Status) (RxState υ') Status :=
  ⟨receiveStep P crc stale rcbs, Event.wire⟩

abbrev System (υ υ' : Type) :=
  Duplex Byte (Event Status) (TxSite υ) Status (Event Status) (RxState υ') Status

def start (u : υ) (u' : υ') : System υ υ' := Duplex.init (zmodemTransmit crc u) (zmodemReceive crc u')

def Agreed (files : List File) (s : System υ υ') : Prop :=
  s.left = ⟨[], .done .ok⟩ ∧ s.right = ⟨[], .done .ok⟩ ∧
    Reports files (s.rightLog.filterMap (Event.call .ok))

/-! ### The opening -/

theorem feed_junk (u : υ') (junk : List Byte) (h : zpad ∉ junk) :
    feed (receiveStep P crc stale rcbs) (.wait ⟨.header .pad, u⟩) junk =
      ⟨[], .wait ⟨.header .pad, u⟩⟩ := by
  have hskip := parse_skip crc true junk [] h
  rw [List.append_nil, parse_nil] at hskip
  rw [feed_embed (readHeaderRx crc) (receiveStep P crc stale rcbs) (fun h => ⟨.header h, u⟩)
    (onHeader crc u), readHeaderRx, hskip]
  intro t i
  rfl

theorem feed_zrqinit (u : υ') :
    feed (receiveStep P crc stale rcbs) (.wait ⟨.header .pad, u⟩) (hexHeader crc zrqinit zeroFlags) =
      ⟨sendHexHeader crc zrinit zeroFlags, .wait ⟨.header .pad, u⟩⟩ := by
  have hparse := parse_hexHeader crc true zrqinit zeroFlags [] rfl
  have hanswer : onHeader crc u (some ⟨zrqinit, zeroFlags, false⟩) =
      ⟨sendHexHeader crc zrinit zeroFlags, .wait ⟨.header .pad, u⟩⟩ := rfl
  rw [List.append_nil, List.append_nil] at hparse
  rw [feed_header P crc stale rcbs hparse, hanswer,
    feed_junk P crc stale rcbs u _ (zpad_notMem_hexTrailer zrqinit)]
  simp [Out.after]

theorem feed_txHeader (wrap : HeaderSite → TxSite υ) {k : Option Header → TxOut υ}
    (hstep : ∀ h r, transmitStep P crc uninit tcbs (wrap h) r =
      txContinueAt wrap (readHeaderTx crc h r) k) (type : Byte) :
    feed (transmitStep P crc uninit tcbs) (.wait (wrap .pad)) (hexHeader crc type zeroFlags) =
      (feed (transmitStep P crc uninit tcbs) (k (some ⟨type, zeroFlags, false⟩)).next
        (hexTrailer type)).after (k (some ⟨type, zeroFlags, false⟩)).events := by
  have hparse := parse_hexHeader crc false type zeroFlags [] rfl
  rw [List.append_nil, List.append_nil] at hparse
  exact feed_txContinue P crc uninit tcbs wrap hstep hparse

theorem feed_txJunk (wrap : HeaderSite → TxSite υ) {k : Option Header → TxOut υ}
    (hstep : ∀ h r, transmitStep P crc uninit tcbs (wrap h) r =
      txContinueAt wrap (readHeaderTx crc h r) k) (junk : List Byte) (h : zpad ∉ junk) :
    feed (transmitStep P crc uninit tcbs) (.wait (wrap .pad)) junk = ⟨[], .wait (wrap .pad)⟩ := by
  have hskip := parse_skip crc false junk [] h
  rw [List.append_nil, parse_nil] at hskip
  rw [feed_embed (readHeaderTx crc) (transmitStep P crc uninit tcbs) wrap k, readHeaderTx, hskip]
  intro h r
  rw [hstep]
  cases readHeaderTx crc h r <;> rfl

theorem reaches_opening (u : υ) (u' : υ') :
    Reaches (txParty P crc uninit tcbs) (rxParty P crc stale rcbs) (start crc u u')
      ⟨⟨[], .wait (.zrinit .pad u)⟩, ⟨[], .wait ⟨.header .pad, u'⟩⟩, [],
        hexHeader crc zrinit zeroFlags ++ hexHeader crc zrinit zeroFlags,
        sendHexHeaderTx crc zrqinit zeroFlags,
        sendHexHeader crc zrinit zeroFlags ++ sendHexHeader crc zrinit zeroFlags⟩ := by
  refine (flushLeft (sendHexHeaderTx crc zrqinit zeroFlags) _ _ [] [] [] []).trans ?_
  refine (flushRight _ (sendHexHeader crc zrinit zeroFlags) _ _ [] _ []).trans ?_
  have hbytes : [] ++ (sendHexHeaderTx crc zrqinit zeroFlags).filterMap
      (txParty P crc uninit tcbs).wire = hexHeader crc zrqinit zeroFlags ++ [] := by
    simp [sendHexHeaderTx, txParty]
  have hreplies : ∀ bs, bs ++ (sendHexHeader crc zrinit zeroFlags).filterMap
      (rxParty P crc stale rcbs).wire = bs ++ hexHeader crc zrinit zeroFlags := by
    intro bs
    simp [sendHexHeader, rxParty]
  have hanswer := feedRight (P := txParty P crc uninit tcbs) (Q := rxParty P crc stale rcbs)
    ⟨[], .wait (.zrinit .pad u)⟩ [] (hexHeader crc zrinit zeroFlags)
    (sendHexHeaderTx crc zrqinit zeroFlags) (sendHexHeader crc zrinit zeroFlags)
    (feed_zrqinit P crc stale rcbs u')
  rw [hreplies] at hanswer
  rw [hbytes, hreplies]
  exact hanswer

/-! ### A batch with a file -/

variable {tcbs} {files : List File}

/-- The transmitter takes the second ZRINIT for the answer to its first file. -/
theorem reaches_errorTimeout (hs : Serves P.sizeMod tcbs files) {f : File} (hf : Sendable P f)
    (hidx : files[0]? = some f) (u : υ) (u' : υ') :
    ∃ s : System υ υ', s.left = ⟨[], .done .errorTimeout⟩ ∧
      Reaches (txParty P crc uninit tcbs) (rxParty P crc stale rcbs) (start crc u u') s := by
  obtain ⟨u₁, hnext⟩ := nextFile_of_file crc hs hf hidx u
  have hfirst : feed (transmitStep P crc uninit tcbs) (.wait (.zrinit .pad u))
      (hexHeader crc zrinit zeroFlags) =
        ⟨.getFileInfo 0 :: writeBytes (fileOpening crc (fileInfo f)),
          .wait (.zrpos ⟨0, fileInfo f, u₁⟩ .pad)⟩ := by
    rw [feed_txHeader P crc uninit tcbs (.zrinit · u) (fun _ _ => rfl)]
    simp only [Option.map_some, if_true, hnext]
    rw [feed_txJunk P crc uninit tcbs (.zrpos _) (fun _ _ => rfl) _ (zpad_notMem_hexTrailer zrinit)]
    simp [Out.after]
  have hsecond : feed (transmitStep P crc uninit tcbs) (.wait (.zrpos ⟨0, fileInfo f, u₁⟩ .pad))
      (hexHeader crc zrinit zeroFlags) = ⟨[], .done .errorTimeout⟩ := by
    have hne : zrinit ≠ zrpos := by decide
    rw [feed_txHeader P crc uninit tcbs (.zrpos _) (fun _ _ => rfl)]
    simp only [if_neg hne, feed_done, Out.after_nil]
  have hboth : feed (txParty P crc uninit tcbs).resume (.wait (.zrinit .pad u))
      (hexHeader crc zrinit zeroFlags ++ hexHeader crc zrinit zeroFlags) =
        ⟨.getFileInfo 0 :: writeBytes (fileOpening crc (fileInfo f)), .done .errorTimeout⟩ := by
    rw [txParty, feed_append, hfirst, hsecond]
    simp [Out.after]
  obtain ⟨left, hdone⟩ := feedLeft_done (Q := rxParty P crc stale rcbs)
    ⟨[], .wait ⟨.header .pad, u'⟩⟩ [] [] (sendHexHeaderTx crc zrqinit zeroFlags)
    (sendHexHeader crc zrinit zeroFlags ++ sendHexHeader crc zrinit zeroFlags) hboth
  rw [List.append_nil (hexHeader crc zrinit zeroFlags ++ _)] at hdone
  exact ⟨_, rfl, (reaches_opening P crc stale uninit tcbs rcbs u u').trans hdone⟩

theorem not_settles_of_file (hs : Serves P.sizeMod tcbs files) {f : File} (hf : Sendable P f)
    (hidx : files[0]? = some f) (u : υ) (u' : υ') :
    ¬ Settles (txParty P crc uninit tcbs) (rxParty P crc stale rcbs) (start crc u u')
      (Agreed files) := by
  obtain ⟨s, hleft, hreach⟩ := reaches_errorTimeout P crc stale uninit rcbs hs hf hidx u u'
  refine not_settles_of_left_done hreach hleft ?_
  rintro t ⟨hok, -, -⟩ herr
  rw [hok] at herr
  cases herr

/-! ### An empty batch -/

theorem settles_of_nil (hs : Serves P.sizeMod tcbs []) (u : υ) (u' : υ') :
    Settles (txParty P crc uninit tcbs) (rxParty P crc stale rcbs) (start crc u u') (Agreed []) := by
  have hfirst : feed (transmitStep P crc uninit tcbs) (.wait (.zrinit .pad u))
      (hexHeader crc zrinit zeroFlags) =
        ⟨.getFileInfo 0 :: sendHexHeaderTx crc zfin zeroFlags, .wait (.zfin .pad)⟩ := by
    have hnext := nextFile_last crc hs u
    rw [List.length_nil] at hnext
    rw [feed_txHeader P crc uninit tcbs (.zrinit · u) (fun _ _ => rfl)]
    simp only [Option.map_some, if_true, hnext]
    rw [feed_txJunk P crc uninit tcbs .zfin (fun _ _ => rfl) _ (zpad_notMem_hexTrailer zrinit)]
    simp [Out.after]
  have hsecond : feed (transmitStep P crc uninit tcbs) (.wait (.zfin .pad))
      (hexHeader crc zrinit zeroFlags) = ⟨[], .done .ok⟩ := by
    have hne : some zrinit ≠ some zfin := by decide
    rw [feed_txHeader P crc uninit tcbs .zfin (fun _ _ => rfl)]
    simp only [Option.map_some, if_neg hne, feed_done, Out.after_nil]
  have hzfin : feed (receiveStep P crc stale rcbs) (.wait ⟨.header .pad, u'⟩)
      (hexHeader crc zfin zeroFlags) =
        ⟨sendHexHeader crc zfin zeroFlags ++ sendByte 0x4F ++ sendByte 0x4F, .done .ok⟩ := by
    have hparse := parse_hexHeader crc true zfin zeroFlags [] rfl
    have hanswer : onHeader crc u' (some ⟨zfin, zeroFlags, false⟩) =
        ⟨sendHexHeader crc zfin zeroFlags ++ sendByte 0x4F ++ sendByte 0x4F, .done .ok⟩ := rfl
    rw [List.append_nil, List.append_nil] at hparse
    rw [feed_header P crc stale rcbs hparse, hanswer, feed_done]
    simp [Out.after]
  have hboth : feed (txParty P crc uninit tcbs).resume (.wait (.zrinit .pad u))
      (hexHeader crc zrinit zeroFlags ++ hexHeader crc zrinit zeroFlags) =
        ⟨.getFileInfo 0 :: sendHexHeaderTx crc zfin zeroFlags, .done .ok⟩ := by
    rw [txParty, feed_append, hfirst, hsecond]
    simp [Out.after]
  have hbytes : ([] : List Byte) ++ (Event.getFileInfo 0 :: sendHexHeaderTx crc zfin zeroFlags).filterMap
      (txParty P crc uninit tcbs).wire = hexHeader crc zfin zeroFlags ++ [] := by
    simp [sendHexHeaderTx, txParty]
  obtain ⟨left, hdone⟩ := feedLeft_done (Q := rxParty P crc stale rcbs)
    ⟨[], .wait ⟨.header .pad, u'⟩⟩ [] [] (sendHexHeaderTx crc zrqinit zeroFlags)
    (sendHexHeader crc zrinit zeroFlags ++ sendHexHeader crc zrinit zeroFlags) hboth
  rw [List.append_nil (hexHeader crc zrinit zeroFlags ++ _), hbytes] at hdone
  obtain ⟨right, hlast⟩ := feedRight_done (P := txParty P crc uninit tcbs)
    (Q := rxParty P crc stale rcbs) ⟨[], .done .ok⟩ [] (left ++ [])
    (sendHexHeaderTx crc zrqinit zeroFlags ++
      (.getFileInfo 0 :: sendHexHeaderTx crc zfin zeroFlags))
    (sendHexHeader crc zrinit zeroFlags ++ sendHexHeader crc zrinit zeroFlags) hzfin
  obtain ⟨k, hrun⟩ := (reaches_opening P crc stale uninit tcbs rcbs u u').trans (hdone.trans hlast)
  refine hrun.settles ⟨⟨.ok, rfl⟩, .ok, rfl⟩ ⟨rfl, rfl, ?_⟩
  simp [sendHexHeader, sendByte, Reports]

end Interop

/-- The two functions complete every transfer of a batch exactly when it has no
file. -/
theorem settles_iff_nil {υ υ' : Type} (P : Platform) (crc : CrcService)
    (stale : List Byte → List Byte) (uninit : ℕ → Byte) (tcbs : TxCallbacks υ) (files : List File)
    (rcbs : RxCallbacks υ') (u : υ) (u' : υ') (hs : Serves P.sizeMod tcbs files)
    (hfiles : ∀ f ∈ files, Sendable P f) :
    Settles (txParty P crc uninit tcbs) (rxParty P crc stale rcbs) (start crc u u') (Agreed files) ↔
      files = [] := by
  constructor
  · intro h
    cases files with
    | nil => rfl
    | cons f files =>
      exact absurd h (not_settles_of_file P crc stale uninit rcbs hs (hfiles f (List.mem_cons_self ..))
        rfl u u')
  · rintro rfl
    exact settles_of_nil P crc stale uninit rcbs hs u u'

/-- The empty batch and a batch of one file. -/
theorem settles_iff_nil_instances :
    (Settles (txParty platform32 referenceCrc (fun _ => 0) (batchCallbacks []))
      (rxParty platform32 referenceCrc (fun _ => []) (⟨none, none, none⟩ : RxCallbacks Unit))
      (start referenceCrc () ()) (Agreed []) ↔ [] = ([] : List File)) ∧
    (Settles (txParty platform32 referenceCrc (fun _ => 0) (batchCallbacks [⟨[0x61], [1]⟩]))
      (rxParty platform32 referenceCrc (fun _ => []) (⟨none, none, none⟩ : RxCallbacks Unit))
      (start referenceCrc () ()) (Agreed [⟨[0x61], [1]⟩]) ↔ [(⟨[0x61], [1]⟩ : File)] = []) := by
  constructor
  · exact settles_iff_nil platform32 referenceCrc _ _ _ [] _ () () (batchCallbacks_serves (by decide))
      (by simp)
  · refine settles_iff_nil platform32 referenceCrc _ _ _ [⟨[0x61], [1]⟩] _ () ()
      (batchCallbacks_serves (by decide)) ?_
    intro f hf
    obtain rfl := List.mem_singleton.mp hf
    exact ⟨by decide, by decide, by decide, by decide⟩

/-- A batch of one file is not completed. -/
theorem not_settles_one_file :
    ¬ Settles (txParty platform32 referenceCrc (fun _ => 0) (batchCallbacks [⟨[0x61], [1]⟩]))
      (rxParty platform32 referenceCrc (fun _ => [])
        (fileCallbacks (fun _ _ => (0, ())) (fun _ _ _ _ => (0, ())) fun _ _ _ => ()))
      (start referenceCrc () ()) (Agreed [⟨[0x61], [1]⟩]) :=
  not_settles_of_file platform32 referenceCrc _ _ _ (batchCallbacks_serves (by decide))
    ⟨by decide, by decide, by decide, by decide⟩ rfl () ()

end ZephyrModem.Zmodem
