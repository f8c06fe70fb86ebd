import ZephyrModem.Counter
import ZephyrModem.Reactive.DeadLine
import ZephyrModem.Ymodem.Supply

/-!
# How long `ymodem_transmit` can be kept busy

No receiver keeps the transmitter for more reads than the announced files allow: ten for
each start byte and each block, and five more for each file.
-/

namespace ZephyrModem.Ymodem
open ZephyrModem.Reactive ZephyrModem.Transfer
open ZephyrModem.Xmodem (Byte Read soh stx eot ack nak can charC)

/-- `get_file_info` announces files of these sizes, whenever it is asked, and no more. -/
structure Announces {υ : Type} (sizeMod : ℕ) (cbs : TxCallbacks υ) (sizes : List ℕ) : Prop where
  count : sizes.length < sizeMod
  fits : ∀ size ∈ sizes, size < sizeMod
  size : ∀ i n u, sizes[i]? = some n → (cbs.getFileInfo i u).2.1.size = n
  noMore : ∀ u, ¬ ((cbs.getFileInfo sizes.length u).1 = 0 ∧
    (cbs.getFileInfo sizes.length u).2.1.filename ≠ [])

/-- The most reads from the request for Block 0 of the first of these files on. -/
def readsFor (sizes : List ℕ) : ℕ := (sizes.map fun n => 14 + 10 * blocksFor n).sum + 11

theorem readsFor_cons (n : ℕ) (sizes : List ℕ) :
    readsFor (n :: sizes) = 14 + 10 * blocksFor n + readsFor sizes := by
  simp only [readsFor, List.map_cons, List.sum_cons]
  omega

section Session

variable {υ : Type} (P : Platform) (crc : CrcService) (cbs : TxCallbacks υ) (sizes : List ℕ)

/-- From the block loop at `fileOffset` on. -/
def readsFrom (v : TxLocals υ) (fileOffset : ℕ) : ℕ :=
  10 * blocksFor (v.info.size - fileOffset) + 2 + readsFor (sizes.drop (v.fileIdx + 1))

/-- From the reply to Block 0 on. -/
def readsBehind (v : TxLocals υ) : ℕ := if v.fileIdx < sizes.length then readsFrom sizes v 0 + 2 else 1

/-- How many reads there can still be. -/
def readsLeft : TxSite υ → ℕ
  | .startC v retries => (10 - retries.toNat) + readsBehind sizes v
  | .ackBlock0 v => readsBehind sizes v
  | .secondC v => readsFrom sizes v 0 + 1
  | .reply v b retries => (10 - retries.toNat) + readsFrom sizes v (b.fileOffset + b.readBytes)
  | .eotReply v => 2 + readsFor (sizes.drop (v.fileIdx + 1))
  | .secondEotReply v => 1 + readsFor (sizes.drop (v.fileIdx + 1))

/-- The locals belong to an announced file, or there is none left. -/
structure Known (v : TxLocals υ) : Prop where
  le : v.fileIdx ≤ sizes.length
  size : ∀ n, sizes[v.fileIdx]? = some n → v.info.size = n
  noMore : v.fileIdx = sizes.length → ¬ v.HasFile

/-- The locals belong to an announced file. -/
structure AtFile (v : TxLocals υ) : Prop extends Known sizes v where
  lt : v.fileIdx < sizes.length

def Accurate : TxSite υ → Prop
  | .startC v retries => Known sizes v ∧ retries < maxRetries
  | .ackBlock0 v => Known sizes v
  | .reply v b retries => AtFile sizes v ∧ retries < maxRetries ∧ b.fileOffset + b.readBytes ≤ v.info.size
  | .secondC v | .eotReply v | .secondEotReply v => AtFile sizes v

variable {P crc cbs sizes}

theorem Known.atFile {v : TxLocals υ} (h : Known sizes v) (hfile : v.HasFile) : AtFile sizes v := by
  have hle := h.le
  refine ⟨h, ?_⟩
  by_contra hge
  exact h.noMore (by omega) hfile

theorem AtFile.size_lt {v : TxLocals υ} (h : AtFile sizes v) (hs : Announces P.sizeMod cbs sizes) :
    v.info.size < P.sizeMod := by
  have hget := List.getElem?_eq_getElem h.lt
  rw [h.size _ hget]
  exact hs.fits _ (List.getElem_mem h.lt)

theorem AtFile.userData {v : TxLocals υ} (h : AtFile sizes v) (u : υ) :
    AtFile sizes { v with userData := u } := ⟨⟨h.le, h.size, h.noMore⟩, h.lt⟩

/-- Where the transmitter stands it has at most `k` reads left. -/
def Within (sizes : List ℕ) (k : ℕ) (n : Next (TxSite υ) Status) : Prop :=
  ∀ t, n = .wait t → Accurate sizes t ∧ readsLeft sizes t ≤ k

theorem within_done (k : ℕ) (st : Status) : Within sizes k (.done st : Next (TxSite υ) Status) := by
  intro t ht
  cases ht

theorem nextFile_within (hs : Announces P.sizeMod cbs sizes) {idx : ℕ} (hidx : idx ≤ sizes.length)
    (u : υ) : Within sizes (readsFor (sizes.drop idx)) (nextFile cbs idx u).next := by
  intro t ht
  cases ht
  have hknown : Known sizes (⟨idx, (cbs.getFileInfo idx u).1, (cbs.getFileInfo idx u).2.1,
      (cbs.getFileInfo idx u).2.2⟩ : TxLocals υ) := by
    refine ⟨hidx, fun n hn => hs.size idx n u hn, ?_⟩
    rintro rfl
    exact hs.noMore u
  refine ⟨⟨hknown, by decide⟩, ?_⟩
  simp only [readsLeft, readsBehind]
  by_cases hlt : idx < sizes.length
  · have hsize : (cbs.getFileInfo idx u).2.1.size = sizes[idx] :=
      hs.size idx _ u (List.getElem?_eq_getElem hlt)
    rw [if_pos hlt, readsFrom, List.drop_eq_getElem_cons hlt, readsFor_cons, hsize, Nat.sub_zero,
      UInt8.toNat_zero]
    dsimp only
    omega
  · rw [if_neg hlt, List.drop_of_length_le (by omega)]
    exact Nat.le_refl 11

theorem sendBlock_within {v : TxLocals υ} (hv : AtFile sizes v) {b : TxBlock}
    (hb : b.fileOffset + b.readBytes ≤ v.info.size) {retries : Byte} :
    Within sizes ((10 - retries.toNat) + readsFrom sizes v (b.fileOffset + b.readBytes))
      (sendBlock crc v b retries).next := by
  intro t ht
  unfold sendBlock at ht
  split at ht
  · rename_i hlt
    cases ht
    exact ⟨⟨hv, hlt, hb⟩, Nat.le_refl _⟩
  · cases ht

variable (crc) in
/-- The block loop while there is more to send. -/
theorem nextBlock_more (hs : Announces P.sizeMod cbs sizes) {v : TxLocals υ} (hv : AtFile sizes v)
    {fileOffset : ℕ} (hmore : fileOffset < v.info.size) (blockNum : Byte) :
    ∃ u b, b.fileOffset = fileOffset ∧ b.readBytes =
        min (v.info.size - fileOffset) (txBlockSize (v.info.size - fileOffset)) ∧
      (nextBlock P crc cbs v fileOffset blockNum).next =
        (sendBlock crc { v with userData := u } b 0).next := by
  have hremaining : P.subSize v.info.size fileOffset = v.info.size - fileOffset :=
    P.subSize_of_le (hv.size_lt hs) (Nat.le_of_lt hmore)
  have hlen : (if v.info.size - fileOffset > txBlockSize (v.info.size - fileOffset) then
      txBlockSize (v.info.size - fileOffset) else v.info.size - fileOffset) =
        min (v.info.size - fileOffset) (txBlockSize (v.info.size - fileOffset)) := by
    split <;> omega
  simp only [nextBlock, if_pos hmore, hremaining, hlen, Out.after_next]
  exact ⟨_, ⟨_, _, _, _⟩, rfl, rfl, rfl⟩

theorem nextBlock_end (v : TxLocals υ) {fileOffset : ℕ} (hend : ¬ fileOffset < v.info.size)
    (blockNum : Byte) :
    (nextBlock P crc cbs v fileOffset blockNum).next = .wait (.eotReply v) := by
  simp only [nextBlock, if_neg hend]

theorem nextBlock_within (hs : Announces P.sizeMod cbs sizes) {v : TxLocals υ} (hv : AtFile sizes v)
    (fileOffset : ℕ) (blockNum : Byte) :
    Within sizes (readsFrom sizes v fileOffset) (nextBlock P crc cbs v fileOffset blockNum).next := by
  intro t ht
  by_cases hmore : fileOffset < v.info.size
  · obtain ⟨u, b, hoffset, hlen, hnext⟩ := nextBlock_more crc hs hv hmore blockNum
    rw [hnext] at ht
    obtain ⟨haccurate, hleft⟩ := sendBlock_within (hv.userData u) (by dsimp only; omega) t ht
    refine ⟨haccurate, Nat.le_trans hleft ?_⟩
    have hblocks := blocksFor_succ (Nat.sub_pos_of_lt hmore)
    simp only [readsFrom, UInt8.toNat_zero, hoffset, hlen]
    rw [hblocks, Nat.sub_add_eq]
    omega
  · rw [nextBlock_end v hmore] at ht
    cases ht
    refine ⟨hv, ?_⟩
    simp only [readsLeft, readsFrom]
    omega

theorem Within.mono {j k : ℕ} {n : Next (TxSite υ) Status} (h : Within sizes j n) (hle : j ≤ k) :
    Within sizes k n := by
  intro t ht
  obtain ⟨haccurate, hleft⟩ := h t ht
  exact ⟨haccurate, Nat.le_trans hleft hle⟩

theorem nextFile_within_next (hs : Announces P.sizeMod cbs sizes) {v : TxLocals υ}
    (hv : AtFile sizes v) (u : υ) :
    Within sizes (readsFor (sizes.drop (v.fileIdx + 1)))
      (nextFile cbs (P.toSize (v.fileIdx + 1)) u).next := by
  have hlt := hv.lt
  have hcount : P.toSize (v.fileIdx + 1) = v.fileIdx + 1 :=
    P.toSize_of_lt (Nat.lt_of_le_of_lt hlt hs.count)
  rw [hcount]
  exact nextFile_within hs hlt u

/-- Every read leaves fewer of them. -/
theorem transmitStep_within (hs : Announces P.sizeMod cbs sizes) (s : TxSite υ) (r : Read)
    (h : Accurate sizes s) :
    Within sizes (readsLeft sizes s - 1) (transmitStep P crc cbs s r).next := by
  have hmax : (maxRetries : Byte).toNat = 10 := rfl
  cases s with
  | startC v retries =>
    obtain ⟨hv, hlt⟩ := h
    obtain ⟨hsucc, -⟩ := succ_of_lt hlt
    have hnat : retries.toNat < 10 := hlt
    simp only [transmitStep, readsLeft]
    split
    · intro t ht
      cases ht
      exact ⟨hv, by simp only [readsLeft]; omega⟩
    · split
      · exact within_done _ _
      · split
        · rename_i hmore
          intro t ht
          cases ht
          exact ⟨⟨hv, hmore⟩, by simp only [readsLeft]; omega⟩
        · exact within_done _ _
  | ackBlock0 v =>
    simp only [transmitStep, readsLeft]
    split
    · exact within_done _ _
    · split
      · rename_i hfile
        have hat : AtFile sizes v := Known.atFile h hfile
        intro t ht
        cases ht
        refine ⟨hat, ?_⟩
        rw [readsBehind, if_pos hat.lt]
        exact Nat.le_refl _
      · exact within_done _ _
  | secondC v =>
    simp only [transmitStep, readsLeft]
    split
    · exact within_done _ _
    · exact nextBlock_within hs h 0 1
  | reply v b retries =>
    obtain ⟨hv, hlt, hb⟩ := h
    obtain ⟨hsucc, -⟩ := succ_of_lt hlt
    have hnat : retries.toNat < 10 := hlt
    simp only [transmitStep, readsLeft]
    split
    · have hoffset : P.toSize (b.fileOffset + b.readBytes) = b.fileOffset + b.readBytes :=
        P.toSize_of_lt (Nat.lt_of_le_of_lt hb (hv.size_lt hs))
      rw [hoffset]
      exact (nextBlock_within hs hv _ _).mono (by omega)
    · split
      · exact within_done _ _
      · exact (sendBlock_within hv hb).mono (by omega)
  | eotReply v =>
    simp only [transmitStep, readsLeft]
    split
    · intro t ht
      cases ht
      exact ⟨h, by simp only [readsLeft]; omega⟩
    · exact (nextFile_within_next hs h _).mono (by omega)
  | secondEotReply v =>
    simp only [transmitStep, readsLeft]
    exact (nextFile_within_next hs h _).mono (by omega)

theorem readsLeft_pos {s : TxSite υ} (h : Accurate sizes s) : 0 < readsLeft sizes s := by
  cases s with
  | startC v retries =>
    have hlt : retries.toNat < 10 := h.2
    simp only [readsLeft]
    omega
  | ackBlock0 v =>
    simp only [readsLeft, readsBehind]
    split <;> omega
  | secondC v => exact Nat.succ_pos _
  | reply v b retries =>
    have hlt : retries.toNat < 10 := h.2.1
    simp only [readsLeft]
    omega
  | eotReply v =>
    simp only [readsLeft]
    omega
  | secondEotReply v =>
    simp only [readsLeft]
    omega

/-! ### The slowest receiver -/

/-- Nine time-outs, then the byte. -/
def slowReply (b : Byte) : List Read := List.replicate 9 .timeout ++ [.ok b]

/-- The replies to one file of `n` bytes. -/
def slowFile (n : ℕ) : List Read :=
  slowReply charC ++ ([.ok ack, .ok charC] ++
    ((List.replicate (blocksFor n) (slowReply ack)).flatten ++ [.ok nak, .timeout]))

/-- The replies to the Block 0 that ends the batch. -/
def slowEnd : List Read := slowReply charC ++ [.ok ack]

def slowBatch (sizes : List ℕ) : List Read := sizes.flatMap slowFile ++ slowEnd

theorem length_slowBatch (sizes : List ℕ) : (slowBatch sizes).length = readsFor sizes := by
  have hreply : ∀ b, (slowReply b).length = 10 := fun b => by simp [slowReply]
  have hfile : ∀ n, (slowFile n).length = 14 + 10 * blocksFor n := by
    intro n
    simp only [slowFile, List.length_append, hreply, List.length_cons, List.length_nil,
      List.length_flatten, List.map_replicate, List.sum_replicate_nat]
    omega
  simp only [slowBatch, slowEnd, List.length_append, List.length_flatMap, hfile, hreply,
    List.length_singleton, readsFor]

theorem next_slow_startC (v : TxLocals υ) :
    (run (transmitStep P crc cbs) (.wait (.startC v 0)) (slowReply charC)).next =
      .wait (.ackBlock0 v) := rfl

theorem next_slow_sendBlock (v : TxLocals υ) (b : TxBlock) :
    (run (transmitStep P crc cbs) (sendBlock crc v b 0).next (slowReply ack)).next =
      (nextBlock P crc cbs v (P.toSize (b.fileOffset + b.readBytes)) (b.blockNum + 1)).next := by
  have hsilent : ∀ k : ℕ, k ≤ 9 → (run (transmitStep P crc cbs) (sendBlock crc v b 0).next
      (List.replicate k .timeout)).next = .wait (.reply v b (UInt8.ofNat k)) := by
    intro k
    induction k with
    | zero => exact fun _ => rfl
    | succ k ih =>
      intro hk
      have hlt : UInt8.ofNat k + 1 < maxRetries := by
        rw [UInt8.lt_iff_toNat_lt, UInt8.toNat_add, UInt8.toNat_ofNat']
        show (k % 256 + 1) % 256 < 10
        omega
      rw [List.replicate_succ', run_next_append, ih (by omega), run_wait, run_nil]
      simp only [transmitStep, Out.after_next, sendBlock, if_pos hlt, reduceCtorEq, if_false]
      rw [← UInt8.ofNat_one, ← UInt8.ofNat_add]
  rw [slowReply, run_next_append, hsilent 9 (Nat.le_refl 9), run_wait, run_nil]
  rfl

variable (crc) in
theorem next_slow_blocks (hs : Announces P.sizeMod cbs sizes) {v : TxLocals υ} (hv : AtFile sizes v)
    (fileOffset : ℕ) (blockNum : Byte) :
    ∃ u, (run (transmitStep P crc cbs) (nextBlock P crc cbs v fileOffset blockNum).next
      (List.replicate (blocksFor (v.info.size - fileOffset)) (slowReply ack)).flatten).next =
        .wait (.eotReply { v with userData := u }) := by
  induction hleft : v.info.size - fileOffset using Nat.strongRecOn
    generalizing v fileOffset blockNum with
  | ind left ih =>
    subst hleft
    by_cases hmore : fileOffset < v.info.size
    · obtain ⟨u, b, hoffset, hlen, hnext⟩ := nextBlock_more crc hs hv hmore blockNum
      have hin : b.fileOffset + b.readBytes ≤ v.info.size := by omega
      have hsum : P.toSize (b.fileOffset + b.readBytes) = b.fileOffset + b.readBytes :=
        P.toSize_of_lt (Nat.lt_of_le_of_lt hin (hv.size_lt hs))
      have hrest : v.info.size - (b.fileOffset + b.readBytes) = v.info.size - fileOffset -
          min (v.info.size - fileOffset) (txBlockSize (v.info.size - fileOffset)) := by omega
      have hpos : 0 < b.readBytes := by
        rw [hlen, txBlockSize]
        split <;> omega
      obtain ⟨u', hdone⟩ := ih (v.info.size - (b.fileOffset + b.readBytes)) (by omega)
        (hv.userData u) (b.fileOffset + b.readBytes) (b.blockNum + 1) rfl
      refine ⟨u', ?_⟩
      dsimp only at hdone
      rw [hrest] at hdone
      rw [hnext, blocksFor_succ (Nat.sub_pos_of_lt hmore), List.replicate_succ, List.flatten_cons,
        run_next_append, next_slow_sendBlock, hsum, hdone]
    · have hzero : v.info.size - fileOffset = 0 := by omega
      refine ⟨v.userData, ?_⟩
      rw [nextBlock_end v hmore, hzero]
      rfl

/-- A file is announced to be sent. -/
def Named (cbs : TxCallbacks υ) (sizes : List ℕ) : Prop :=
  ∀ i < sizes.length, ∀ u, (cbs.getFileInfo i u).1 = 0 ∧ (cbs.getFileInfo i u).2.1.filename ≠ []

variable (crc) in
theorem next_slow_file (hs : Announces P.sizeMod cbs sizes) (hnamed : Named cbs sizes) {i n : ℕ}
    (hget : sizes[i]? = some n) (u : υ) :
    ∃ u', (run (transmitStep P crc cbs) (nextFile cbs i u).next (slowFile n)).next =
      (nextFile cbs (i + 1) u').next := by
  obtain ⟨hlt, -⟩ := List.getElem?_eq_some_iff.mp hget
  let v : TxLocals υ := ⟨i, (cbs.getFileInfo i u).1, (cbs.getFileInfo i u).2.1,
    (cbs.getFileInfo i u).2.2⟩
  have hsize : v.info.size = n := hs.size i n u hget
  have hv : AtFile sizes v := by
    refine ⟨⟨Nat.le_of_lt hlt, ?_, fun hle => absurd hle (Nat.ne_of_lt hlt)⟩, hlt⟩
    intro m hm
    exact hs.size i m u hm
  have hfile : v.HasFile := hnamed i hlt u
  have hopen : (run (transmitStep P crc cbs) (.wait (.ackBlock0 v)) [.ok ack, .ok charC]).next =
      (nextBlock P crc cbs v 0 1).next := by
    simp only [run_wait, run_nil, Out.after_next, transmitStep, ne_eq, not_true_eq_false, if_false,
      if_pos hfile]
  obtain ⟨u', hblocks⟩ := next_slow_blocks crc hs hv 0 1
  rw [Nat.sub_zero, hsize] at hblocks
  have hcount : P.toSize (i + 1) = i + 1 := P.toSize_of_lt (Nat.lt_of_le_of_lt hlt hs.count)
  have hclose : (run (transmitStep P crc cbs) (.wait (.eotReply { v with userData := u' }))
      [.ok nak, .timeout]).next = (nextFile cbs (i + 1) u').next := by
    simp only [run_wait, run_nil, Out.after_next, transmitStep, if_true, hcount, v]
  refine ⟨u', ?_⟩
  have hstart : (nextFile cbs i u).next = .wait (.startC v 0) := rfl
  rw [hstart, slowFile, run_next_append, next_slow_startC, run_next_append, hopen, run_next_append,
    hblocks, hclose]

variable (crc) in
theorem next_slow_files (hs : Announces P.sizeMod cbs sizes) (hnamed : Named cbs sizes) (i : ℕ)
    (hi : i ≤ sizes.length) (u : υ) :
    ∃ u', (run (transmitStep P crc cbs) (nextFile cbs i u).next
      ((sizes.drop i).flatMap slowFile)).next = (nextFile cbs sizes.length u').next := by
  induction hleft : sizes.length - i generalizing i u with
  | zero =>
    obtain rfl : i = sizes.length := by omega
    refine ⟨u, ?_⟩
    rw [List.drop_length, List.flatMap_nil, run_nil]
  | succ left ih =>
    have hlt : i < sizes.length := by omega
    obtain ⟨u₁, hfile⟩ := next_slow_file crc hs hnamed (List.getElem?_eq_getElem hlt) u
    obtain ⟨u₂, hrest⟩ := ih (i + 1) hlt u₁ (by omega)
    refine ⟨u₂, ?_⟩
    rw [List.drop_eq_getElem_cons hlt, List.flatMap_cons, run_next_append, hfile, hrest]

end Session

theorem announces_of_serves {υ : Type} {P : Platform} {cbs : TxCallbacks υ} {files : List File}
    (hs : Serves P.sizeMod cbs files) (hfits : ∀ f ∈ files, f.contents.length < P.sizeMod) :
    Announces P.sizeMod cbs (files.map fun f => f.contents.length) where
  count := by
    rw [List.length_map]
    exact hs.count
  fits := by
    intro n hn
    obtain ⟨f, hf, rfl⟩ := List.mem_map.mp hn
    exact hfits f hf
  size := by
    intro i n u hn
    rw [List.getElem?_map, Option.map_eq_some_iff] at hn
    obtain ⟨f, hf, rfl⟩ := hn
    rw [(hs.info i f u hf).2]
    rfl
  noMore := by
    rw [List.length_map]
    exact hs.noMore

/-- Whatever the other side sends and whenever it is silent, the transmitter returns by the
last of the reads that the announced sizes allow; a receiver that takes its time at every
reply uses them all and the transmission succeeds. -/
theorem transmit_returns_within {υ : Type} (P : Platform) (crc : CrcService) (cbs : TxCallbacks υ)
    (sizes : List ℕ) (u : υ) (hs : Announces P.sizeMod cbs sizes) :
    (∀ reads : List Read, readsFor sizes ≤ reads.length →
      ∃ st, (transmitted P crc cbs u reads).next = .done st) ∧
    (Named cbs sizes → ∃ reads : List Read, reads.length + 1 = readsFor sizes ∧
      (∃ s, (transmitted P crc cbs u reads).next = .wait s) ∧
      (transmitted P crc cbs u (reads ++ [.ok ack])).next = .done .ok) := by
  constructor
  · intro reads hlen
    have hstart := nextFile_within hs (Nat.zero_le _) u
    rw [List.drop_zero] at hstart
    obtain ⟨haccurate, hleft⟩ := hstart _ rfl
    refine run_done_of_measure (Accurate sizes) (readsLeft sizes) (fun s => readsLeft_pos)
      ?_ haccurate reads (Nat.le_trans hleft hlen)
    intro s r t h ht
    obtain ⟨ht, hle⟩ := transmitStep_within hs s r h t ht
    have hpos := readsLeft_pos h
    exact ⟨ht, by omega⟩
  · intro hnamed
    obtain ⟨u', hfiles⟩ := next_slow_files crc hs hnamed 0 (Nat.zero_le _) u
    rw [List.drop_zero] at hfiles
    let v : TxLocals υ := ⟨sizes.length, (cbs.getFileInfo sizes.length u').1,
      (cbs.getFileInfo sizes.length u').2.1, (cbs.getFileInfo sizes.length u').2.2⟩
    have hlast : (transmitted P crc cbs u (sizes.flatMap slowFile ++ slowReply charC)).next =
        .wait (.ackBlock0 v) := by
      rw [transmitted, Out.after_next, run_next_append]
      show (run _ (run _ (nextFile cbs 0 u).next _).next _).next = _
      rw [hfiles]
      rfl
    have hnone : ¬ v.HasFile := hs.noMore u'
    refine ⟨sizes.flatMap slowFile ++ slowReply charC, ?_, ⟨_, hlast⟩, ?_⟩
    · rw [← length_slowBatch, slowBatch, slowEnd]
      simp only [List.length_append, List.length_singleton]
      omega
    · have hlast' := hlast
      rw [transmitted, Out.after_next] at hlast' ⊢
      rw [run_next_append, hlast', run_wait, run_nil]
      simp only [transmitStep, Out.after_next, ne_eq, not_true_eq_false, if_false, if_neg hnone]

/-- Two files, one of them empty, and a receiver that is never heard of. -/
theorem transmit_returns_within_two_files :
    ∃ st, (transmitted platform32 referenceCrc (batchCallbacks [⟨[0x61], [1, 2, 3]⟩, ⟨[0x62], []⟩]) ()
      (List.replicate 49 .timeout)).next = .done st := by
  have hs : Serves platform32.sizeMod (batchCallbacks [⟨[0x61], [1, 2, 3]⟩, ⟨[0x62], []⟩])
      [⟨[0x61], [1, 2, 3]⟩, ⟨[0x62], []⟩] := batchCallbacks_serves (by decide)
  refine (transmit_returns_within platform32 referenceCrc _ [3, 0] ()
    (announces_of_serves hs (by decide))).1 _ ?_
  rw [List.length_replicate]
  decide

end ZephyrModem.Ymodem
