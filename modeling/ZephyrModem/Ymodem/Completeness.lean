import ZephyrModem.Transfer.Completeness
import ZephyrModem.Ymodem.Bounds

/-!
# Complete files in `ymodem_receive`

An EOT ends a file whatever was received of it. What is reported as received
well is complete exactly when the blocks before each EOT fill the announced size
without overrunning it.
-/

namespace ZephyrModem.Ymodem
open ZephyrModem.Reactive ZephyrModem.Transfer
open ZephyrModem.Xmodem (Byte Read soh stx eot ack nak can charC)

/-! ### What a sequence of blocks stores -/

section Blocks

variable (P : Platform)

/-- The bytes handed to `on_data` for blocks of the given sizes. -/
def storedBy : FileLocals → List ℕ → ℕ
  | _, [] => 0
  | f, b :: bs => writeLen P f b + storedBy (f.next P b) bs

/-- The locals after blocks of the given sizes. -/
def afterBlocks (f : FileLocals) (bs : List ℕ) : FileLocals := bs.foldl (FileLocals.next P) f

theorem storedBy_append (f : FileLocals) (as bs : List ℕ) :
    storedBy P f (as ++ bs) = storedBy P f as + storedBy P (afterBlocks P f as) bs := by
  induction as generalizing f with
  | nil => simp [storedBy, afterBlocks]
  | cons a as ih =>
    rw [List.cons_append, storedBy, storedBy, ih, Nat.add_assoc]
    rfl

theorem afterBlocks_snoc (f : FileLocals) (bs : List ℕ) (b : ℕ) :
    afterBlocks P f (bs ++ [b]) = (afterBlocks P f bs).next P b := by
  simp [afterBlocks]

/-- No block starts past the size or ends past `SIZE_MAX`. -/
def FitsIn (size : ℕ) (bs : List ℕ) : Prop :=
  ∀ pre b post, bs = pre ++ b :: post → pre.sum ≤ size ∧ pre.sum + b < P.sizeMod

/-- The blocks fill the size without overrunning it. -/
def Fills (size : ℕ) (bs : List ℕ) : Prop := size ≤ bs.sum ∧ FitsIn P size bs

theorem fitsIn_snoc {size : ℕ} {bs : List ℕ} {b : ℕ} :
    FitsIn P size (bs ++ [b]) ↔ FitsIn P size bs ∧ bs.sum ≤ size ∧ bs.sum + b < P.sizeMod := by
  constructor
  · intro h
    refine ⟨fun pre x post hx => h pre x (post ++ [b]) (by rw [hx]; simp), h bs b [] rfl⟩
  · rintro ⟨hfits, hlast⟩ pre x post hx
    rcases List.eq_nil_or_concat post with rfl | ⟨post, y, rfl⟩
    · obtain ⟨rfl, hb⟩ := List.append_inj' hx rfl
      cases hb
      exact hlast
    · have hsplit : bs ++ [b] = (pre ++ x :: post) ++ [y] := by simpa using hx
      obtain ⟨hbs, -⟩ := List.append_inj' hsplit rfl
      exact hfits pre x post hbs

theorem writeLen_of_fits {f : FileLocals} {b : ℕ} (hsize : f.info.size < P.sizeMod)
    (hpos : 0 < f.info.size) (hle : f.fileOffset ≤ f.info.size) (hb : f.fileOffset + b < P.sizeMod) :
    writeLen P f b = min b (f.info.size - f.fileOffset) := by
  have hsum : P.toSize (f.fileOffset + b) = f.fileOffset + b := P.toSize_of_lt hb
  have hsub : P.subSize f.info.size f.fileOffset = f.info.size - f.fileOffset :=
    P.subSize_of_le hsize hle
  unfold writeLen
  rw [hsum, hsub]
  split <;> omega

theorem afterBlocks_info (f : FileLocals) (bs : List ℕ) : (afterBlocks P f bs).info = f.info := by
  induction bs generalizing f with
  | nil => rfl
  | cons b bs ih => exact ih (f.next P b)

theorem afterBlocks_offset_lt (info : FileInfo) (bs : List ℕ) :
    (afterBlocks P ⟨info, 1, 0⟩ bs).fileOffset < P.sizeMod := by
  rcases List.eq_nil_or_concat bs with rfl | ⟨bs, b, rfl⟩
  · exact P.sizeMod_pos
  · rw [List.concat_eq_append, afterBlocks_snoc]
    exact P.toSize_lt _

/-- While no block overruns, the size is filled from the front; after an overrun
more than the size has been stored. -/
theorem storedBy_cases {info : FileInfo} (hsize : info.size < P.sizeMod) (hpos : 0 < info.size)
    (bs : List ℕ) (hbs : ∀ b ∈ bs, 0 < b ∧ b < P.sizeMod) :
    (FitsIn P info.size bs ∧ (afterBlocks P ⟨info, 1, 0⟩ bs).fileOffset = bs.sum ∧
      storedBy P ⟨info, 1, 0⟩ bs = min bs.sum info.size) ∨
    (¬ FitsIn P info.size bs ∧ info.size < storedBy P ⟨info, 1, 0⟩ bs) := by
  induction bs using List.reverseRecOn with
  | nil =>
    refine .inl ⟨?_, rfl, rfl⟩
    intro pre b post h
    simp at h
  | append_singleton bs b ih =>
    have hb := hbs b (by simp)
    have hinfo := afterBlocks_info P ⟨info, 1, 0⟩ bs
    have hstored : storedBy P ⟨info, 1, 0⟩ (bs ++ [b]) =
        storedBy P ⟨info, 1, 0⟩ bs + writeLen P (afterBlocks P ⟨info, 1, 0⟩ bs) b :=
      storedBy_append P _ bs [b]
    rw [afterBlocks_snoc, hstored, fitsIn_snoc, List.sum_append, List.sum_singleton]
    rcases ih fun x hx => hbs x (by simp [hx]) with ⟨hfits, hoff, hmin⟩ | ⟨hfits, hover⟩
    · by_cases hlast : bs.sum ≤ info.size ∧ bs.sum + b < P.sizeMod
      · left
        have hlen : writeLen P (afterBlocks P ⟨info, 1, 0⟩ bs) b =
            min b (info.size - bs.sum) := by
          rw [writeLen_of_fits, hinfo, hoff] <;> simp only [hinfo, hoff]
          · exact hsize
          · exact hpos
          · exact hlast.1
          · exact hlast.2
        refine ⟨⟨hfits, hlast⟩, ?_, by rw [hlen, hmin]; omega⟩
        change P.toSize _ = _
        rw [hoff, P.toSize_of_lt hlast.2]
      · right
        obtain ⟨hlen, hpast⟩ := writeLen_overruns P (f := afterBlocks P ⟨info, 1, 0⟩ bs)
          (afterBlocks_offset_lt P info bs) (by rw [hinfo]; exact hsize) hb.1 hb.2
          (by rw [hinfo]; exact hpos) (by rw [hinfo, hoff]; exact hlast)
        rw [hinfo, hoff] at hpast
        simp only at hpast
        exact ⟨fun h => hlast h.2, by omega⟩
    · exact .inr ⟨fun h => hfits h.1, by omega⟩

theorem storedBy_eq_iff {info : FileInfo} (hsize : info.size < P.sizeMod) (hpos : 0 < info.size)
    (bs : List ℕ) (hbs : ∀ b ∈ bs, 0 < b ∧ b < P.sizeMod) :
    storedBy P ⟨info, 1, 0⟩ bs = info.size ↔ Fills P info.size bs := by
  unfold Fills
  rcases storedBy_cases P hsize hpos bs hbs with ⟨hfits, -, hmin⟩ | ⟨hfits, hover⟩
  · rw [hmin]
    constructor
    · intro h
      exact ⟨by omega, hfits⟩
    · rintro ⟨h, -⟩
      omega
  · constructor
    · intro h
      omega
    · rintro ⟨-, h⟩
      exact absurd h hfits

end Blocks

/-! ### The blocks a run accepts -/

section Runs

variable {υ : Type} (P : Platform) (crc : CrcService)

/-- The size of the block that a read completes, if it is accepted. -/
def acceptedBlock (s : RxState υ) (r : Read) : Option ℕ :=
  match s.locals.phase, s.site, r with
  | .data f, .crcLo n buf false hi, .ok lo =>
    if modemCrc16 crc buf = be16 hi lo ∧ n = f.expectedBlk then some buf.length else none
  | _, _, _ => none

theorem acceptedBlock_eq_some_iff (s : RxState υ) (r : Read) (b : ℕ) :
    acceptedBlock crc s r = some b ↔
      ∃ f buf, AcceptsBlock crc s r f f.expectedBlk buf ∧ b = buf.length := by
  unfold acceptedBlock AcceptsBlock
  constructor
  · intro h
    split at h
    · rename_i f n buf hi lo hp hs
      split_ifs at h with hc
      obtain ⟨hcrc, rfl⟩ := hc
      exact ⟨f, buf, ⟨hp, hi, lo, hs, rfl, hcrc⟩, (Option.some.inj h).symm⟩
    · cases h
  · rintro ⟨f, buf, ⟨hp, hi, lo, hs, rfl, hcrc⟩, rfl⟩
    simp only [hp, hs, hcrc, and_self, if_true]

/-- The sizes of the blocks accepted for the file in progress, from the history. -/
def blocksStep (bs : List ℕ) (v : RxState υ × Read) : List ℕ :=
  match v.1.locals.phase with
  | .block0 => []
  | .data _ => bs ++ (acceptedBlock crc v.1 v.2).toList

def blocksOf (vs : List (RxState υ × Read)) : List ℕ := vs.foldl (blocksStep crc) []

theorem blocksOf_snoc (vs : List (RxState υ × Read)) (v : RxState υ × Read) :
    blocksOf crc (vs ++ [v]) = blocksStep crc (blocksOf crc vs) v := by
  simp [blocksOf]

/-- The receiver's locals and its log agree with the blocks of the history. -/
def Tracks (vs : List (RxState υ × Read)) (es : List Event) (n : Next (RxState υ) Status) : Prop :=
  SizesOk P n ∧ ∀ s, n = .wait s → ∀ f, s.locals.phase = .data f →
    afterBlocks P ⟨f.info, 1, 0⟩ (blocksOf crc vs) = f ∧
      storedBy P ⟨f.info, 1, 0⟩ (blocksOf crc vs) = storedLen es ∧
      ∀ b ∈ blocksOf crc vs, b = 128 ∨ b = 1024

variable (start : FileInfo → υ → ℤ × υ) (data : List Byte → ℕ → ℕ → υ → ℤ × υ)
  (finish : FileInfo → Status → υ → υ)

theorem acceptsBlock_step {s : RxState υ} {r : Read} {f : FileLocals} {buf : List Byte}
    (h : AcceptsBlock crc s r f f.expectedBlk buf) :
    ∃ es u, receiveStep P crc (fileCallbacks start data finish) s r =
        ⟨es, .wait ⟨.header, ⟨0, .data (f.next P buf.length), u⟩⟩⟩ ∧
      ∀ log, storedLen (log ++ es) = storedLen log + writeLen P f buf.length := by
  rw [h.step P crc _, acceptBlock, if_pos rfl]
  refine ⟨_, _, rfl, ?_⟩
  intro log
  simp only [fileCallbacks]
  split
  · simp [storedLen_append, storedStep, sendByte]
  · simp [storedLen_append, storedStep, sendByte]
    omega

theorem tracks_step (vs : List (RxState υ × Read)) (es : List Event) (s : RxState υ) (r : Read)
    (h : Tracks P crc vs es (.wait s)) :
    Tracks P crc (vs ++ [(s, r)])
      (es ++ (receiveStep P crc (fileCallbacks start data finish) s r).events)
      (receiveStep P crc (fileCallbacks start data finish) s r).next := by
  obtain ⟨hsizes, hfile⟩ := h
  refine ⟨receiveStep_sizesOk P crc _ s r hsizes, ?_⟩
  rw [blocksOf_snoc]
  cases hb : acceptedBlock crc s r with
  | some b =>
    obtain ⟨f, buf, ha, rfl⟩ := (acceptedBlock_eq_some_iff crc s r b).mp hb
    obtain ⟨hafter, hstored, hall⟩ := hfile s rfl f ha.1
    have hblocks : blocksStep crc (blocksOf crc vs) (s, r) = blocksOf crc vs ++ [buf.length] := by
      simp [blocksStep, ha.1, hb]
    obtain ⟨es', u, hstep, hlen⟩ := acceptsBlock_step P crc start data finish ha
    rw [hstep, hblocks]
    intro t ht f' hf'
    cases ht
    cases hf'
    refine ⟨?_, ?_, ?_⟩
    · rw [afterBlocks_snoc]
      change (afterBlocks P ⟨f.info, 1, 0⟩ _).next P _ = _
      rw [hafter]
    · change storedBy P ⟨f.info, 1, 0⟩ _ = _
      rw [storedBy_append, hafter, hstored, hlen]
      simp [storedBy]
    · intro x hx
      rcases List.mem_append.mp hx with hx | hx
      · exact hall x hx
      · rw [List.mem_singleton.mp hx]
        exact acceptsBlock_length hsizes ha
  | none =>
    have hkeep : ∀ f, s.locals.phase = .data f →
        blocksStep crc (blocksOf crc vs) (s, r) = blocksOf crc vs := by
      intro f hp
      simp [blocksStep, hp, hb]
    rcases receiveStep_cases P crc (fileCallbacks start data finish) s r with ⟨site, -, he⟩ |
      ⟨ws, v, -, hws, hp, -, he⟩ | ⟨f, -, -, -, he⟩ | ⟨ws, st, -, -, -, he⟩ | ⟨ws, f, st, -, -, -, he⟩ |
      ⟨f, -, hp, he⟩ | ⟨buf, ⟨hp, -⟩, he⟩ | ⟨f, n, buf, ha, he⟩ <;> rw [he] <;> intro t ht f' hf'
    · cases ht
      rw [hkeep f' hf']
      simpa [rxAt] using hfile s rfl f' hf'
    · cases ht
      rw [hp] at hf'
      rw [hkeep f' hf', storedLen_append_writes hws.writes]
      exact hfile s rfl f' hf'
    · cases ht
      rw [hkeep f' hf', storedLen_append_writes (writes_sendByte nak)]
      exact hfile s rfl f' hf'
    · cases ht
    · cases ht
    · simp only [endFile, hp] at ht
      cases ht
      cases hf'
    · by_cases hname : (parseBlock0 P buf 128).filename = []
      · rw [acceptBlock0_end P _ _ _ hname] at ht
        cases ht
      · rw [acceptBlock0_file P _ _ _ hname] at ht ⊢
        cases ht
        cases hf'
        have hnone : blocksStep crc (blocksOf crc vs) (s, r) = [] := by
          simp [blocksStep, hp]
        rw [hnone]
        refine ⟨rfl, ?_, by simp⟩
        simp [storedLen_append, storedBy, callFileStart, fileCallbacks, sendByte, storedStep]
    · unfold acceptBlock at ht ⊢
      split_ifs at ht ⊢ with hn hd
      · subst hn
        rw [(acceptedBlock_eq_some_iff crc s r buf.length).mpr ⟨f, buf, ha, rfl⟩] at hb
        cases hb
      · cases ht
        rw [hkeep f' hf', storedLen_append_writes (writes_sendByte ack)]
        exact hfile s rfl f' hf'
      · cases ht

theorem tracks_run (userData : υ) (reads : List Read) :
    Tracks P crc
      (visits (receiveStep P crc (fileCallbacks start data finish)) (ymodemReceive userData).next reads)
      (run (receiveStep P crc (fileCallbacks start data finish)) (ymodemReceive userData).next reads).events
      (run (receiveStep P crc (fileCallbacks start data finish)) (ymodemReceive userData).next reads).next := by
  refine history_invariant _ (Tracks P crc) (tracks_step P crc start data finish) _ reads
    ⟨⟨trivial, fun f hf => by cases hf⟩, ?_⟩
  intro s hs f hf
  cases hs
  cases hf

/-! ### Files that end -/

/-- At every EOT that ends a file with an announced size, the blocks accepted for
that file fill the size. -/
def EndsFilled (cbs : RxCallbacks υ) (userData : υ) (reads : List Read) : Prop :=
  ∀ pre r post s f, reads = pre ++ r :: post →
    (run (receiveStep P crc cbs) (ymodemReceive userData).next pre).next = .wait s →
    s.site = .secondEot → s.locals.phase = .data f → 0 < f.info.size →
    Fills P f.info.size
      (blocksOf crc (visits (receiveStep P crc cbs) (ymodemReceive userData).next pre))

theorem onFileEnd_ok_site {s : RxState υ} {r : Read} {info : FileInfo}
    (h : .onFileEnd info .ok ∈
      (receiveStep P crc (fileCallbacks start data finish) s r).events) :
    ∃ f, s.site = .secondEot ∧ s.locals.phase = .data f := by
  rcases mem_receiveStep_events P crc _ h with ⟨b, he⟩ | ⟨info, st, hst, he⟩ | ⟨f, hs, hp, -, -⟩ |
    ⟨buf, res, -, -, he⟩ | ⟨f, buf, g, -, -, -, he⟩
  · cases he
  · cases he
    exact absurd rfl hst
  · exact ⟨f, hs, hp⟩
  · cases he
  · cases he

theorem storedLen_eq_iff (userData : υ) {pre : List Read} {s : RxState υ} {f : FileLocals}
    (hpre : (run (receiveStep P crc (fileCallbacks start data finish)) (ymodemReceive userData).next
      pre).next = .wait s) (hp : s.locals.phase = .data f) (hpos : 0 < f.info.size) :
    storedLen (run (receiveStep P crc (fileCallbacks start data finish)) (ymodemReceive userData).next
        pre).events = f.info.size ↔
      Fills P f.info.size (blocksOf crc (visits
        (receiveStep P crc (fileCallbacks start data finish)) (ymodemReceive userData).next pre)) := by
  have hmod := P.sizeMod_ge
  have htracks := tracks_run P crc start data finish userData pre
  rw [hpre] at htracks
  obtain ⟨⟨-, hsizes⟩, hfile⟩ := htracks
  obtain ⟨-, hstored, hall⟩ := hfile s rfl f hp
  rw [← hstored]
  refine storedBy_eq_iff P (hsizes f hp).2 hpos _ ?_
  intro b hb
  have := hall b hb
  omega

/-- No truncated file is reported complete, exactly when the blocks before each
end of a file fill it. -/
theorem reportsComplete_iff (userData : υ) (reads : List Read) :
    ReportsComplete .ok
        (received P crc (fileCallbacks start data finish) userData reads).events ↔
      EndsFilled P crc (fileCallbacks start data finish) userData reads := by
  have hopening : Writes (ymodemReceive userData).events := writes_sendByte charC
  rw [received, Out.after_events, reportsComplete_append_writes hopening]
  constructor
  · intro h pre r post s f hreads hpre hs hp hpos
    refine (storedLen_eq_iff P crc start data finish userData hpre hp hpos).mp ?_
    have hlog := run_events_eq (receiveStep P crc (fileCallbacks start data finish)) post hpre
      (endFile_events P crc _ (Option.some_ne_none finish) hs hp r)
    rw [← hreads] at hlog
    have hstored := h _ f.info _ hlog hpos
    rw [storedLen_append_writes (writes_sendByte ack)] at hstored
    exact hstored
  · intro h pre info post hlog hpos
    obtain ⟨init, r, rest, s, a, b, hreads, hinit, hstep, rfl⟩ := exists_of_events_eq _ hlog
    have hin : .onFileEnd info .ok ∈
        (receiveStep P crc (fileCallbacks start data finish) s r).events := by
      rw [hstep]
      simp
    obtain ⟨f, hs, hp⟩ := onFileEnd_ok_site P crc start data finish hin
    rw [endFile_events P crc _ (Option.some_ne_none finish) hs hp r] at hstep
    obtain ⟨rfl, rfl⟩ := onFileEnd_split (writes_sendByte ack) (writes_sendByte charC) hstep
    rw [storedLen_append_writes (writes_sendByte ack)]
    exact (storedLen_eq_iff P crc start data finish userData hinit hp hpos).mpr
      (h init r rest s f hreads hinit hs hp hpos)

end Runs

end ZephyrModem.Ymodem
