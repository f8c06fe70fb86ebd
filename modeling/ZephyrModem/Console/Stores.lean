import ZephyrModem.Console.Receive
import ZephyrModem.Reactive.Sides
import ZephyrModem.Ymodem.Bounds
import ZephyrModem.Ymodem.RoundTrip

/-!
# Reported files on the console's file system

On a file system without failures the calls that report a batch leave exactly the files
of the batch, each written over what was there under its name.
-/

namespace ZephyrModem.Console
open ZephyrModem.Storage ZephyrModem.Transfer ZephyrModem.Reactive

variable (P : Platform) (fs : FileSystem UInt8 Path) (settings : StorageSettings)

/-- Every file can be opened, and every write takes all its bytes. -/
structure Reliable (fs : FileSystem UInt8 Path) : Prop where
  opens : ∀ files path, fs.openRes files path = 0
  writes : ∀ files h data, fs.writeRes files h data = data.length

theorem reliable_reliableFs : Reliable reliableFs where
  opens _ _ := rfl
  writes _ _ _ := rfl

/-- The files after one more has been stored. -/
def put (files : Files UInt8 Path) (f : File) : Files UInt8 Path :=
  Function.update files (fullPath settings f.name)
    (some (f.contents ++ ((files (fullPath settings f.name)).getD []).drop f.contents.length))

/-- The effect of a reported call. -/
def store : Call → State → State
  | .fileStart name size, s => (onFileStart fs settings ⟨name, size⟩ s).2
  | .data _ len bytes, s => if len > 0 then (writeFileData P fs settings bytes len s).2 else s
  | .fileEnd .., s => closeFile s

theorem writtenPart_take (buf : List UInt8) (len : ℕ) :
    writtenPart settings (buf.take len) len = writtenPart settings buf len := by
  unfold writtenPart
  split
  · rw [List.take_take]
    congr 1
    omega
  · rw [List.take_take, Nat.min_self]

theorem effect_eq_store {κ : Type} [DecidableEq κ] (ok : κ) (e : Event κ) (s : State) :
    e.effect (fileCallbacks (onFileStart fs settings)
        (fun buf len _ => writeFileData P fs settings buf len) fun _ _ => closeFile) s =
      match e.call ok with
      | some c => store P fs settings c s
      | none => s := by
  cases e with
  | onData buf len offset res =>
    have htake : writeFileData P fs settings (buf.take len) len s =
        writeFileData P fs settings buf len s := by
      unfold writeFileData
      rw [writtenPart_take]
    by_cases hlen : len > 0
    · simp only [Event.effect, Event.call, callData, fileCallbacks, store, if_pos hlen, htake]
    · simp only [Event.effect, Event.call, callData, fileCallbacks, store, if_neg hlen]
  | onFileStart info res => rfl
  | onFileEnd info status => rfl
  | write b => rfl
  | getFileInfo idx => rfl
  | readData idx offset len data res => rfl

theorem replay_eq_calls {κ : Type} [DecidableEq κ] (ok : κ) (log : List (Event κ)) (s : State) :
    replay (Event.effect (fileCallbacks (onFileStart fs settings)
        (fun buf len _ => writeFileData P fs settings buf len) fun _ _ => closeFile)) log s =
      replay (store P fs settings) (log.filterMap (Event.call ok)) s := by
  induction log generalizing s with
  | nil => rfl
  | cons e log ih =>
    rw [replay_cons, effect_eq_store P fs settings ok, ih]
    cases he : e.call ok with
    | none => rw [List.filterMap_cons_none he]
    | some c => rw [List.filterMap_cons_some he, replay_cons]

theorem replay_eq_store (log : List Ymodem.Event) (s : State) :
    replay (Event.effect (ymodemRxCallbacks P fs settings)) log s =
      replay (store P fs settings) (log.filterMap (Event.call .ok)) s :=
  replay_eq_calls P fs settings Ymodem.Status.ok log s

/-- Events that end files or write to the line change nothing stored. -/
theorem replay_endings {κ : Type} [DecidableEq κ] (ok : κ) {log : List (Event κ)}
    (h : ∀ e ∈ log, ∀ c, e.call ok = some c → ∃ name size good, c = .fileEnd name size good) (s : State) :
    (replay (Event.effect (fileCallbacks (onFileStart fs settings)
      (fun buf len _ => writeFileData P fs settings buf len) fun _ _ => closeFile)) log s).files =
      s.files := by
  refine replay_invariant (I := fun t : State => t.files = s.files) ?_ rfl
  intro e he t ht
  rw [effect_eq_store P fs settings ok]
  cases hc : e.call ok with
  | none => exact ht
  | some c =>
    obtain ⟨name, size, good, rfl⟩ := h e he c hc
    exact (Receive.finish_files (.xmodem []) t).trans ht

/-! ### One file -/

/-- The chunks fit the buffer of the asynchronous writer. -/
def Chunked (cs : List Call) : Prop := ∀ offset len bytes, .data offset len bytes ∈ cs → len ≤ asyncSize

variable {P fs settings}

theorem openOutputFile_reliable (hfs : Reliable fs) {path : Path} {s : State}
    (hmode : settings.overwriteMode = .always ∨ s.files (fullPath settings path) = none) :
    (openOutputFile fs settings path s).1 = 0 := by
  have hskip : ¬ (fsExists s.files (fullPath settings path) ∧ settings.overwriteMode = .skip) := by
    rintro ⟨hexists, hskip⟩
    rcases hmode with hmode | hmode
    · rw [hmode] at hskip
      cases hskip
    · exact hexists hmode
  have habort : ¬ (fsExists s.files (fullPath settings path) ∧ settings.overwriteMode = .abort) := by
    rintro ⟨hexists, habort⟩
    rcases hmode with hmode | hmode
    · rw [hmode] at habort
      cases habort
    · exact hexists hmode
  have hopen : (fsOpen fs s.files (fullPath settings path)).1 = 0 := by
    unfold fsOpen
    rw [if_pos (hfs.opens _ _)]
  unfold openOutputFile
  rw [if_neg hskip, if_neg habort]
  simp only [if_pos hopen]

theorem writeFileData_reliable (hfs : Reliable fs) {buf : List UInt8} {len : ℕ} {s : State}
    (hopen : s.ctx.zfileOpen = true) (hlen : buf.length = len) (hchunk : len ≤ asyncSize) :
    (writeFileData P fs settings buf len s).1 = 0 := by
  have hpart : (writtenPart settings buf len).length = len := by
    unfold writtenPart
    split <;> rw [List.length_take] <;> omega
  have hres : (fsWrite fs s.files s.ctx.zfile (writtenPart settings buf len)).1 = len := by
    have hwrites := hfs.writes s.files s.ctx.zfile (writtenPart settings buf len)
    unfold fsWrite
    rw [hwrites, hpart]
    simp only
    split
    · rfl
    · rfl
  have hneg : ¬ (len : ℤ) < 0 := by omega
  unfold writeFileData
  rw [if_neg (not_not.mpr hopen)]
  simp only [hres, if_neg hneg, if_true]

theorem replay_chunks (hfs : Reliable fs) {path old written contents : List UInt8} {cs : List Call}
    {offset : ℕ} (hcover : Covers offset cs contents) (hchunk : Chunked cs) {s : State}
    (hs : Storing path old written s) :
    Storing path old (written ++ contents) (replay (store P fs settings) cs s) := by
  induction cs generalizing offset contents written s with
  | nil =>
    obtain rfl : contents = [] := hcover
    rwa [List.append_nil]
  | cons c cs ih =>
    cases c with
    | fileStart name size => exact absurd hcover id
    | fileEnd name size ok => exact absurd hcover id
    | data o len bytes =>
      obtain ⟨rfl, hlen, rest, rfl, hrest⟩ := hcover
      have hle : len ≤ asyncSize := hchunk o len bytes (List.mem_cons_self ..)
      have hmore : Chunked cs := fun o l b hin => hchunk o l b (List.mem_cons_of_mem _ hin)
      rw [replay_cons, ← List.append_assoc]
      refine ih hrest hmore ?_
      by_cases hpos : len > 0
      · have hok : (writeFileData P fs settings bytes len s).1 = 0 :=
          writeFileData_reliable hfs hs.zfileOpen hlen hle
        have hstored := writeFileData_storing hs hok
        rw [List.take_of_length_le (by omega)] at hstored
        simpa only [store, if_pos hpos] using hstored
      · obtain rfl : bytes = [] := List.eq_nil_of_length_eq_zero (by omega)
        simpa only [store, if_neg hpos, List.append_nil] using hs

theorem fileName_of_ne_nil {info : FileInfo} (h : info.filename ≠ []) (ctx : Ctx) :
    fileName info ctx = info.filename := by
  simp only [fileName, if_pos h, if_neg h]

theorem Spares.store {Q : Path → Prop} {files : Files UInt8 Path} {target : Path} {s : State}
    (h : Spares Q files target s) {c : Call}
    (hc : ∀ name size, c = .fileStart name size → name ≠ [] ∧ ¬ Q (fullPath settings name)) :
    Spares Q files target (Console.store P fs settings c s) := by
  cases c with
  | fileStart name size =>
    obtain ⟨hname, hother⟩ := hc name size rfl
    refine h.onFileStart (.inl ?_)
    rwa [fileName_of_ne_nil hname]
  | data offset len bytes =>
    simp only [Console.store]
    split
    · exact h.writeFileData
    · exact h
  | fileEnd name size ok => exact h.closeFile

/-- The calls that report one file. -/
def fileCalls (f : File) (chunks : List Call) : List Call :=
  .fileStart f.name f.contents.length :: (chunks ++ [.fileEnd f.name f.contents.length true])

variable (P fs settings) in
theorem spares_others {name : List UInt8} (hname : name ≠ []) (size : ℕ) {chunks : List Call}
    {written : List UInt8} (hcover : Covers 0 chunks written) {s : State}
    (hclosed : s.ctx.zfileOpen = false) :
    Spares (· ≠ fullPath settings name) s.files s.ctx.targetPath
      (replay (Console.store P fs settings) (.fileStart name size :: chunks) s) := by
  have hchunks : ∀ {cs : List Call} {offset : ℕ} {contents : List UInt8},
      Covers offset cs contents → ∀ name size, .fileStart name size ∉ cs := by
    intro cs
    induction cs with
    | nil => simp
    | cons c cs ih =>
      intro offset contents hcs name size hin
      cases c with
      | fileStart n m => exact hcs
      | fileEnd n m ok => exact hcs
      | data o len bytes =>
        obtain ⟨-, -, rest, -, hrest⟩ := hcs
        rcases List.mem_cons.mp hin with hin | hin
        · cases hin
        · exact ih hrest name size hin
  refine replay_invariant ?_ ⟨fun _ _ => rfl, ?_, rfl⟩
  · intro c hin t ht
    refine ht.store fun n m hc => ?_
    subst hc
    rcases List.mem_cons.mp hin with hin | hin
    · cases hin
      exact ⟨hname, fun hne => hne rfl⟩
    · exact absurd hin (hchunks hcover n m)
  · intro hopen
    rw [hclosed] at hopen
    cases hopen

/-- The start of a file and the chunks so far: what they hold is in the file system. -/
theorem replay_begun (hfs : Reliable fs) {name : List UInt8} (hname : name ≠ []) {size : ℕ}
    {chunks : List Call} {written : List UInt8} (hcover : Covers 0 chunks written)
    (hchunk : Chunked chunks) {s : State} (hclosed : s.ctx.zfileOpen = false)
    (hmode : settings.overwriteMode = .always ∨ s.files (fullPath settings name) = none) :
    (replay (Console.store P fs settings) (.fileStart name size :: chunks) s).files =
      put settings s.files ⟨name, written⟩ := by
  have hfile : fileName ⟨name, size⟩ s.ctx = name := fileName_of_ne_nil hname s.ctx
  have hstart : (onFileStart fs settings ⟨name, size⟩ s).1 = 0 := by
    unfold onFileStart
    rw [hfile, if_neg (not_not.mpr (openOutputFile_reliable hfs hmode))]
  have hopened := onFileStart_storing hstart
  rw [hfile] at hopened
  have hstored : Storing _ _ ([] ++ written)
      (replay (Console.store P fs settings) (.fileStart name size :: chunks) s) :=
    replay_chunks hfs hcover hchunk hopened
  rw [List.nil_append] at hstored
  have hother := spares_others P fs settings hname size hcover hclosed
  funext p
  by_cases hp : p = fullPath settings name
  · subst hp
    have hcontents := hstored.overwritten.contents
    rw [hstored.zfilePath] at hcontents
    rw [put, Function.update_self, ← hcontents]
  · rw [put, Function.update_of_ne hp]
    exact hother.kept p hp

/-- The calls for one file put it into the file system. -/
theorem replay_fileCalls (hfs : Reliable fs) {f : File} (hname : f.name ≠ []) {chunks : List Call}
    (hcover : Covers 0 chunks f.contents) (hchunk : Chunked chunks) {s : State}
    (hclosed : s.ctx.zfileOpen = false)
    (hmode : settings.overwriteMode = .always ∨ s.files (fullPath settings f.name) = none) :
    (replay (Console.store P fs settings) (fileCalls f chunks) s).files = put settings s.files f ∧
      (replay (Console.store P fs settings) (fileCalls f chunks) s).ctx.zfileOpen = false := by
  have hreplay : replay (Console.store P fs settings) (fileCalls f chunks) s =
      closeFile (replay (Console.store P fs settings)
        (.fileStart f.name f.contents.length :: chunks) s) := by
    rw [fileCalls, ← List.cons_append, replay_append]
    rfl
  rw [hreplay]
  refine ⟨?_, ?_⟩
  · exact (Receive.finish_files (.xmodem []) _).trans
      (replay_begun hfs hname hcover hchunk hclosed hmode)
  · unfold closeFile
    split
    · rfl
    · rename_i hopen
      exact Bool.eq_false_iff.mpr hopen

/-! ### A batch -/

/-- Where the overwrite mode is not ALWAYS, the files of a batch are new and have different
names. -/
def Storable (settings : StorageSettings) (files : Files UInt8 Path) (batch : List File) : Prop :=
  settings.overwriteMode = .always ∨
    ((batch.map fun f => fullPath settings f.name).Nodup ∧
      ∀ f ∈ batch, files (fullPath settings f.name) = none)

theorem Storable.head {f : File} {batch : List File} {files : Files UInt8 Path}
    (h : Storable settings files (f :: batch)) :
    settings.overwriteMode = .always ∨ files (fullPath settings f.name) = none :=
  h.imp_right fun h => h.2 f (List.mem_cons_self ..)

theorem Storable.tail {f : File} {batch : List File} {files : Files UInt8 Path}
    (h : Storable settings files (f :: batch)) : Storable settings (put settings files f) batch := by
  refine h.imp_right fun ⟨hnodup, hnew⟩ => ?_
  rw [List.map_cons, List.nodup_cons] at hnodup
  refine ⟨hnodup.2, fun g hg => ?_⟩
  have hne : fullPath settings g.name ≠ fullPath settings f.name := by
    intro he
    exact hnodup.1 (List.mem_map.mpr ⟨g, hg, he⟩)
  rw [put, Function.update_of_ne hne]
  exact hnew g (List.mem_cons_of_mem _ hg)

/-- The calls that report a batch put its files into the file system, one after another. -/
theorem replay_reports (hfs : Reliable fs) {batch : List File} {cs : List Call}
    (hreports : Reports batch cs) (hnames : ∀ f ∈ batch, f.name ≠ []) (hchunk : Chunked cs)
    {s : State} (hclosed : s.ctx.zfileOpen = false) (hstorable : Storable settings s.files batch) :
    (replay (Console.store P fs settings) cs s).files = batch.foldl (put settings) s.files := by
  induction batch generalizing cs s with
  | nil =>
    obtain rfl : cs = [] := hreports
    rfl
  | cons f batch ih =>
    obtain ⟨chunks, rest, rfl, hcover, hrest⟩ := hreports
    have hsplit : Call.fileStart f.name f.contents.length ::
        (chunks ++ .fileEnd f.name f.contents.length true :: rest) = fileCalls f chunks ++ rest := by
      simp [fileCalls]
    have hbound : Chunked chunks := by
      intro offset len bytes hin
      exact hchunk offset len bytes (by simp [hin])
    have hmore : Chunked rest := by
      intro offset len bytes hin
      exact hchunk offset len bytes (by simp [hin])
    obtain ⟨hfiles, hdone⟩ := replay_fileCalls (P := P) hfs (hnames f (List.mem_cons_self ..)) hcover
      hbound hclosed hstorable.head
    rw [hsplit, replay_append, List.foldl_cons, ← hfiles]
    refine ih hrest (fun g hg => hnames g (List.mem_cons_of_mem _ hg)) hmore hdone ?_
    rw [hfiles]
    exact hstorable.tail

end ZephyrModem.Console
