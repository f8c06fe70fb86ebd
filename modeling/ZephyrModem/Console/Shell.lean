import ZephyrModem.Console.Receive
import ZephyrModem.Console.Settings

/-!
# Sessions at the shell (`src/zephyr_console_modem.c:771-835` and `892-1111`)

The commands that change the settings or the files, given one after another. The settings
are registers; what an overwrite mode protects stays protected until `modem config` leaves
that mode.
-/

namespace ZephyrModem.Console
open ZephyrModem.Storage

/-! ### `cmd_modem_rx` -/

/-- A protocol's letter, or its letter followed by `"modem"`. -/
def isProtocol (letter : UInt8) (arg : List UInt8) : Bool :=
  arg = letter :: ascii "modem" ∨ arg = [letter]

/-- `"flash:"` before the name of a partition. -/
def flashPartitionOf (path : List UInt8) : Option (List UInt8) :=
  if path.take 6 = ascii "flash:" then some (path.drop 6) else none

/-- The file to receive, and the partition that goes into the settings, with the arguments
behind the command's name. -/
def cmdModemRx (args : List (List UInt8)) : RxCommand × Option (List UInt8) :=
  let partition := args[1]?.bind flashPartitionOf
  let outPath := if partition = none then args[1]? else some (ascii "flash_image.bin")
  match args with
  | [] => (.zmodem none, none)
  | proto :: _ =>
    (if isProtocol 0x78 proto then .xmodem (outPath.getD (ascii "xmodem.bin"))
      else if isProtocol 0x79 proto then .ymodem outPath
      else if isProtocol 0x7A proto then .zmodem outPath
      else .zmodem (some proto), partition)

/-- `console_modem_mcuboot_update`, where the setting allows it. -/
def consoleModemMcubootUpdate (outputFilename : Option Path) (protocol : ℤ) : RxCommand :=
  let name := outputFilename.getD []
  let target := if name ≠ [] then name else ascii "firmware.bin"
  if protocol = 1 then .ymodem (some target)
  else if protocol = 2 then .xmodem target
  else .zmodem (some target)

/-! ### Sessions -/

/-- What is done at the console; a receive comes with what its reads got. -/
inductive Action where
  | config (args : List (List UInt8))
  | rx (args : List (List UInt8)) (reads : List Xmodem.Read)
  | mcubootUpdate (outputFilename : Option Path) (protocol : ℤ) (reads : List Xmodem.Read)

structure Shell where
  settings : Settings
  files : Files UInt8 Path

variable (P : Platform) (crc : CrcService) (stale : List UInt8 → List UInt8)
  (fs : FileSystem UInt8 Path)

def Shell.receive (s : Shell) (c : RxCommand) (reads : List Xmodem.Read) : Shell :=
  { s with files := (c.progress P crc stale fs s.settings.storage s.settings.maxRetries s.files
    reads).state.files }

def Shell.act (s : Shell) : Action → Shell
  | .config args => { s with settings := (cmdModemConfig P args s.settings).2 }
  | .rx args reads =>
    let settings := match (cmdModemRx args).2 with
      | some partition => s.settings.assign P partition .flashPartition
      | none => s.settings
    Shell.receive P crc stale fs { s with settings } (cmdModemRx args).1 reads
  | .mcubootUpdate name protocol reads =>
    if s.settings.flag .mcubootUpdate then
      s.receive P crc stale fs (consoleModemMcubootUpdate name protocol) reads
    else s

def Shell.acts (s : Shell) (as : List Action) : Shell := as.foldl (Shell.act P crc stale fs) s

/-- The field that an action sets, and the value it gives. -/
def Action.assignment : Action → Option (Param × List UInt8)
  | .config (param :: valStr :: _) => (paramOf param).map fun p => (p, valStr)
  | .config _ => none
  | .rx args _ => (cmdModemRx args).2.map fun partition => (.flashPartition, partition)
  | .mcubootUpdate .. => none

/-- What the actions leave in a field. -/
def lastValue (p : Param) (v : Value) (as : List Action) : Value :=
  as.foldl (fun v a => match a.assignment with
    | some (q, valStr) => if q = p then p.read P valStr else v
    | none => v) v

variable {P crc stale fs}

theorem Shell.act_settings (s : Shell) (a : Action) :
    (s.act P crc stale fs a).settings = match a.assignment with
      | some (p, valStr) => s.settings.assign P valStr p
      | none => s.settings := by
  cases a with
  | config args =>
    match args with
    | [] => rfl
    | [_] => rfl
    | param :: valStr :: _ =>
      simp only [Shell.act, cmdModemConfig, Action.assignment]
      cases paramOf param <;> rfl
  | rx args reads =>
    simp only [Shell.act, Shell.receive, Action.assignment]
    cases (cmdModemRx args).2 <;> rfl
  | mcubootUpdate name protocol reads =>
    simp only [Shell.act, Action.assignment]
    split <;> rfl

/-- The action does not set an overwrite mode other than SKIP and ABORT. -/
def Action.KeepsMode (P : Platform) (a : Action) : Prop :=
  ∀ valStr, a.assignment = some (.overwriteMode, valStr) →
    UInt32.ofNat (strtoul P valStr) = 1 ∨ UInt32.ofNat (strtoul P valStr) = 2

/-- SKIP or ABORT. -/
def Settings.Protects (g : Settings) : Prop := g.overwriteMode = 1 ∨ g.overwriteMode = 2

theorem Settings.Protects.mode_ne {g : Settings} (h : g.Protects) : g.storage.overwriteMode ≠ .always := by
  show g.mode ≠ .always
  unfold Settings.mode
  rcases h with h | h <;> rw [h] <;> decide

theorem act_protects {a : Action} (ha : a.KeepsMode P) {s : Shell} (hs : s.settings.Protects) :
    (s.act P crc stale fs a).settings.Protects := by
  rw [Shell.act_settings]
  cases h : a.assignment with
  | none => exact hs
  | some qv =>
    obtain ⟨q, valStr⟩ := qv
    by_cases hq : q = .overwriteMode
    · subst hq
      exact ha valStr h
    · have hkept := Settings.get_assign_of_ne P s.settings valStr (Ne.symm hq)
      have hmode : (s.settings.assign P valStr q).overwriteMode = s.settings.overwriteMode :=
        Value.number.inj hkept
      simpa only [Settings.Protects, hmode] using hs

theorem act_spares (a : Action) {s : Shell} (hs : s.settings.Protects) {p : Path}
    (hp : s.files p ≠ none) : (s.act P crc stale fs a).files p = s.files p := by
  have hreceive : ∀ (t : Shell) (c : RxCommand) (reads : List Xmodem.Read), t.settings.Protects →
      t.files = s.files → (t.receive P crc stale fs c reads).files p = s.files p := by
    intro t c reads ht hfiles
    have hthere : ∀ q, q = p → t.files q ≠ none := by
      intro q hq
      rwa [hq, hfiles]
    rw [← hfiles]
    exact c.spares (Q := (· = p)) reads (.inr ⟨ht.mode_ne, hthere⟩) p rfl
  cases a with
  | config args => rfl
  | rx args reads =>
    simp only [Shell.act]
    cases (cmdModemRx args).2 with
    | none => exact hreceive _ _ _ hs rfl
    | some partition => exact hreceive _ _ _ hs rfl
  | mcubootUpdate name protocol reads =>
    simp only [Shell.act]
    split
    · exact hreceive s _ _ hs rfl
    · rfl

/-- From SKIP or ABORT on, whatever is received, no file that is there changes before
`modem config` sets another overwrite mode. -/
theorem session_protects (P : Platform) (crc : CrcService) (stale : List UInt8 → List UInt8)
    (fs : FileSystem UInt8 Path) (as : List Action) (s : Shell) (hs : s.settings.Protects)
    (has : ∀ a ∈ as, a.KeepsMode P) (p : Path) (hp : s.files p ≠ none) :
    (s.acts P crc stale fs as).files p = s.files p := by
  induction as generalizing s with
  | nil => rfl
  | cons a as ih =>
    have ha : a.KeepsMode P := has a (List.mem_cons_self ..)
    have hkept : (s.act P crc stale fs a).files p = s.files p := act_spares a hs hp
    have hrest := ih (s.act P crc stale fs a) (act_protects ha hs)
      (fun b hb => has b (List.mem_cons_of_mem _ hb)) (by rwa [hkept])
    exact hrest.trans hkept

def skipping : Settings where
  number _ := 0
  flag _ := false
  maxRetries := 10
  overwriteMode := 1
  abortKeyChar := 3
  defaultTargetDir := .empty 127
  flashPartition := .empty 31

/-- A sender that announces a file that is there. -/
def announcing : List Action :=
  [.config [ascii "overwrite_mode", ascii "2"],
    .rx [ascii "y"] ((Ymodem.packet referenceCrc 0 (Ymodem.block0Payload ⟨[0x66], 1⟩)).map .ok)]

theorem session_protects_announced :
    (Shell.acts platform32 referenceCrc id reliableFs ⟨skipping, threeBytes.files⟩
      announcing).files [0x66] = some [1, 2, 3] := by
  refine session_protects platform32 referenceCrc id reliableFs announcing
    ⟨skipping, threeBytes.files⟩ (.inl rfl) ?_ [0x66] (by decide)
  intro a ha valStr hset
  rw [announcing, List.mem_cons, List.mem_singleton] at ha
  rcases ha with rfl | rfl
  · have hparam : paramOf (ascii "overwrite_mode") = some .overwriteMode := by decide +kernel
    rw [Action.assignment, hparam] at hset
    cases hset
    exact .inr (by decide +kernel)
  · cases hset

end ZephyrModem.Console
