import ZephyrModem.Ymodem.Block0
import ZephyrModem.Ymodem.Frames

/-!
# Bounds of the `on_data` calls

Which `on_data` calls `ymodem_receive` makes, and exactly when all of them stay
inside the block just received and inside the announced size.
-/

namespace ZephyrModem.Ymodem
open ZephyrModem.Reactive ZephyrModem.Transfer
open ZephyrModem.Xmodem (Byte Read soh stx eot ack nak can charC)

section Bounds

variable {υ : Type} (P : Platform) (crc : CrcService) (cbs : RxCallbacks υ)

/-! ### Sizes -/

/-- All quantities are `size_t` values, all blocks have one of the two sizes. -/
def SizesOk : Next (RxState υ) Status → Prop
  | .wait s => BlockSite s.site ∧
      ∀ f, s.locals.phase = .data f → f.fileOffset < P.sizeMod ∧ f.info.size < P.sizeMod
  | .done _ => True

theorem parseBlock0_size_lt (payload : List Byte) (len : ℕ) :
    (parseBlock0 P payload len).size < P.sizeMod := by
  unfold parseBlock0
  simp only
  split_ifs <;> first | exact P.sizeMod_pos | exact P.toSize_lt _

theorem receiveStep_sizesOk (s : RxState υ) (r : Read) (h : SizesOk P (.wait s)) :
    SizesOk P (receiveStep P crc cbs s r).next := by
  obtain ⟨hsite, hf⟩ := h
  rcases receiveStep_cases P crc cbs s r with ⟨site, hnext, he⟩ | ⟨es, v, -, -, hp, -, he⟩ |
    ⟨f, -, -, -, he⟩ | ⟨es, st, -, -, -, he⟩ | ⟨es, f, st, -, -, -, he⟩ | ⟨f, -, hp, he⟩ | ⟨buf, -, he⟩ |
    ⟨f, n, buf, ⟨hp, -⟩, he⟩ <;> rw [he]
  · exact ⟨hsite.readsOn hnext, hf⟩
  · exact ⟨trivial, fun f hf' => hf f (hp ▸ hf')⟩
  · exact ⟨trivial, hf⟩
  · trivial
  · trivial
  · simp only [endFile, hp]
    exact ⟨trivial, fun f hf' => by cases hf'⟩
  · by_cases hname : (parseBlock0 P buf 128).filename = []
    · rw [acceptBlock0_end P cbs _ _ hname]
      trivial
    · rw [acceptBlock0_file P cbs _ _ hname]
      refine ⟨trivial, ?_⟩
      rintro f hf'
      cases hf'
      exact ⟨P.sizeMod_pos, parseBlock0_size_lt P _ _⟩
  · unfold acceptBlock
    split_ifs
    · refine ⟨trivial, ?_⟩
      rintro f' hf'
      cases hf'
      exact ⟨P.toSize_lt _, (hf f hp).2⟩
    · exact ⟨trivial, hf⟩
    · trivial

theorem sizesOk_visits (userData : υ) (reads : List Read) :
    ∀ v ∈ visits (receiveStep P crc cbs) (ymodemReceive userData).next reads,
      SizesOk P (.wait v.1) :=
  visits_invariant _ (SizesOk P) (receiveStep_sizesOk P crc cbs) _ reads
    ⟨trivial, fun f hf => by cases hf⟩

variable {P crc} in
theorem acceptsBlock_length {s : RxState υ} {r : Read} {f : FileLocals} {n : Byte}
    {buf : List Byte} (hs : SizesOk P (.wait s)) (h : AcceptsBlock crc s r f n buf) :
    buf.length = 128 ∨ buf.length = 1024 := by
  obtain ⟨-, hi, lo, hsite, -, -⟩ := h
  obtain ⟨hsize, -⟩ := hs
  rw [hsite] at hsize
  exact hsize rfl

/-! ### The `on_data` calls -/

theorem onData_mem_iff (s : RxState υ) (r : Read) (buf : List Byte) (len offset : ℕ) (res : ℤ) :
    .onData buf len offset res ∈ (receiveStep P crc cbs s r).events ↔
      ∃ f, AcceptsBlock crc s r f f.expectedBlk buf ∧ len = writeLen P f buf.length ∧ 0 < len ∧
        offset = f.fileOffset ∧ ∃ g, cbs.onData = some g ∧ res = (g buf len offset s.locals.userData).1 := by
  constructor
  · intro hin
    rcases mem_receiveStep_events P crc cbs hin with ⟨b, he⟩ | ⟨info, st, -, he⟩ | ⟨f, -, -, -, he⟩ |
      ⟨buf, res, -, -, he⟩ | ⟨f, buf, g, ha, hg, hpos, he⟩ <;> cases he
    exact ⟨f, ha, rfl, hpos, rfl, g, hg, rfl⟩
  · rintro ⟨f, ha, rfl, hpos, rfl, g, hg, rfl⟩
    rw [ha.step P crc cbs, acceptBlock, if_pos rfl]
    exact List.mem_append_left _ ((mem_callData_iff cbs _ _ _ _ _).mpr ⟨g, hg, hpos, rfl⟩)

/-! ### When they are bounded -/

/-- Every `on_data` call stays inside the block just received and, when a size
was announced, ends inside it, counted without wrap-around. -/
def DataBounded (userData : υ) (reads : List Read) : Prop :=
  ∀ v ∈ visits (receiveStep P crc cbs) (ymodemReceive userData).next reads,
    ∀ f, v.1.locals.phase = .data f → ∀ buf len offset res,
      .onData buf len offset res ∈ (receiveStep P crc cbs v.1 v.2).events →
        (buf.length = 128 ∨ buf.length = 1024) ∧ len ≤ buf.length ∧
        (0 < f.info.size → offset + len ≤ f.info.size)

/-- There is no `on_data` callback, or no block in sequence starts past the
announced size or ends past `SIZE_MAX`. -/
def NoOverrun (userData : υ) (reads : List Read) : Prop :=
  cbs.onData ≠ none → ∀ v ∈ visits (receiveStep P crc cbs) (ymodemReceive userData).next reads,
    ∀ f buf, AcceptsBlock crc v.1 v.2 f f.expectedBlk buf → 0 < f.info.size →
      f.fileOffset ≤ f.info.size ∧ f.fileOffset + buf.length < P.sizeMod

/-- The clamp is right for a block that neither starts past the announced size
nor ends past `SIZE_MAX`. -/
theorem writeLen_bounded {f : FileLocals} {n : ℕ} (hsize : f.info.size < P.sizeMod)
    (h : 0 < f.info.size → f.fileOffset ≤ f.info.size ∧ f.fileOffset + n < P.sizeMod) :
    writeLen P f n ≤ n ∧ (0 < f.info.size → f.fileOffset + writeLen P f n ≤ f.info.size) := by
  by_cases hpos : 0 < f.info.size
  · obtain ⟨hle, hfit⟩ := h hpos
    have hsum : P.toSize (f.fileOffset + n) = f.fileOffset + n := P.toSize_of_lt hfit
    have hsub : P.subSize f.info.size f.fileOffset = f.info.size - f.fileOffset :=
      P.subSize_of_le hsize hle
    unfold writeLen
    rw [hsum, hsub]
    split <;> omega
  · have hfull : writeLen P f n = n := if_neg (by omega)
    rw [hfull]
    exact ⟨Nat.le_refl n, fun h => absurd h hpos⟩

theorem writeLen_overruns {f : FileLocals} {n : ℕ} (hoff : f.fileOffset < P.sizeMod)
    (hsize : f.info.size < P.sizeMod) (hn : 0 < n) (hn' : n < P.sizeMod) (hpos : 0 < f.info.size)
    (h : ¬ (f.fileOffset ≤ f.info.size ∧ f.fileOffset + n < P.sizeMod)) :
    0 < writeLen P f n ∧ f.info.size < f.fileOffset + writeLen P f n := by
  by_cases hle : f.fileOffset ≤ f.info.size
  · -- the sum wraps, and what remains of it may pass the test
    have hwrap : P.toSize (f.fileOffset + n) = f.fileOffset + n - P.sizeMod := by
      rw [Platform.toSize, Nat.mod_eq_sub_mod (by omega), Nat.mod_eq_of_lt (by omega)]
    have hfull : writeLen P f n = n := by
      unfold writeLen
      rw [hwrap]
      exact if_neg (by omega)
    rw [hfull]
    exact ⟨hn, by omega⟩
  · have hsub : P.subSize f.info.size f.fileOffset =
        f.info.size + (P.sizeMod - f.fileOffset) := P.subSize_of_lt hoff (by omega)
    unfold writeLen
    rw [hsub]
    split <;> omega

/-- The `on_data` calls of a run are bounded exactly when no block in sequence
overruns the announced size. -/
theorem dataBounded_iff (userData : υ) (reads : List Read) :
    DataBounded P crc cbs userData reads ↔ NoOverrun P crc cbs userData reads := by
  have hsize := P.sizeMod_ge
  constructor
  · intro h hdata v hv f buf ha hpos
    obtain ⟨g, hg⟩ := Option.ne_none_iff_exists'.mp hdata
    by_contra hover
    have hsizes := sizesOk_visits P crc cbs userData reads v hv
    have hlen := acceptsBlock_length hsizes ha
    obtain ⟨-, hf⟩ := hsizes
    obtain ⟨hcall, hpast⟩ :=
      writeLen_overruns P (hf f ha.1).1 (hf f ha.1).2 (by omega) (by omega) hpos hover
    have hin := (onData_mem_iff P crc cbs v.1 v.2 buf _ _ _).mpr
      ⟨f, ha, rfl, hcall, rfl, g, hg, rfl⟩
    have hends := (h v hv f ha.1 buf _ _ _ hin).2.2 hpos
    omega
  · intro h v hv f hp buf len offset res hin
    obtain ⟨f', ha, rfl, -, rfl, g, hg, -⟩ := (onData_mem_iff P crc cbs v.1 v.2 buf _ _ _).mp hin
    obtain rfl : f' = f := by
      have hp' := ha.1
      rw [hp] at hp'
      cases hp'
      rfl
    have hdata : cbs.onData ≠ none := by
      rw [hg]
      exact Option.some_ne_none g
    have hsizes := sizesOk_visits P crc cbs userData reads v hv
    have hlen := acceptsBlock_length hsizes ha
    obtain ⟨-, hf⟩ := hsizes
    exact ⟨hlen, writeLen_bounded P (hf f' hp).2 (h hdata v hv f' buf ha)⟩

/-! ### A stream that overruns -/

def acceptingFiles : RxCallbacks Unit :=
  fileCallbacks (fun _ u => (0, u)) (fun _ _ _ u => (0, u)) fun _ _ u => u

/-- The one byte announced, and two blocks of 128 bytes. -/
def overrunStream : List Byte :=
  packet referenceCrc 0 (block0Payload oneByteFile) ++
    packet referenceCrc 1 (List.replicate 128 0x41) ++
    packet referenceCrc 2 (List.replicate 128 0x41)

/-- The second block starts at offset 128 of a file of one byte. -/
theorem not_dataBounded_overrunStream :
    ¬ DataBounded platform32 referenceCrc acceptingFiles () (overrunStream.map .ok) := by
  have hlen : (List.replicate 128 (0x41 : Byte)).length = 128 := List.length_replicate
  let v : RxLocals Unit := ⟨0, .data ⟨oneByteFile, 2, 128⟩, ()⟩
  have hrun : (feed (receiveStep platform32 referenceCrc acceptingFiles) (ymodemReceive ()).next
      (packet referenceCrc 0 (block0Payload oneByteFile) ++
        packet referenceCrc 1 (List.replicate 128 0x41))).next = .wait ⟨.header, v⟩ := by
    rw [feed_append, Out.after_next, feed_block0 _ _ _ oneByteFile_fits]
    simp only
    rw [feed_packet _ _ _ _ _ _ (.inl hlen)]
    simp only [packetDone, acceptBlock, hlen]
    rfl
  have hvisit := visit_packet platform32 referenceCrc acceptingFiles hrun 2
    (List.replicate 128 0x41) (.inl hlen)
  rw [← List.map_append] at hvisit
  intro h
  have hcall := h _ hvisit ⟨oneByteFile, 2, 128⟩ rfl (List.replicate 128 0x41)
    (2 ^ 32 - 127) 128 0 (by
      simp only [receiveStep_lastRead, packetDone, v, acceptBlock, if_true, hlen]
      decide)
  have hends := hcall.2.2 (by decide)
  exact absurd hends (by decide)

end Bounds
end ZephyrModem.Ymodem
