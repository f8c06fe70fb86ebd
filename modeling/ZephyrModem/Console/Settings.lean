import ZephyrModem.CString
import ZephyrModem.Console.Storage

/-!
# The settings of the console (`src/zephyr_console_modem.h:27-100`)

`console_modem_settings_t` and the command `modem config` that sets its fields one at a
time (`src/zephyr_console_modem.c:892-1111`), with every configuration option enabled.
-/

namespace ZephyrModem.Console
open ZephyrModem.Storage

/-! ### Character arrays -/

/-- A character array whose last byte is a NUL. -/
structure CharArray (size : ℕ) where
  bytes : List UInt8
  length_eq : bytes.length = size
  terminated : bytes.getLast? = some 0

/-- `strncpy(dst, src, n)`: the rest of the `n` bytes is cleared. -/
def strncpy (dst src : List UInt8) (n : ℕ) : List UInt8 :=
  src.take n ++ List.replicate (n - src.length) 0 ++ dst.drop n

theorem length_strncpy {dst : List UInt8} {n : ℕ} (h : n ≤ dst.length) (src : List UInt8) :
    (strncpy dst src n).length = dst.length := by
  simp only [strncpy, List.length_append, List.length_take, List.length_replicate, List.length_drop]
  omega

/-- A copy into all but the last byte leaves the NUL there. -/
theorem getLast?_strncpy {dst : List UInt8} {n : ℕ} (h : dst.length = n + 1)
    (hlast : dst.getLast? = some 0) (src : List UInt8) : (strncpy dst src n).getLast? = some 0 := by
  have hdrop : (dst.drop n).getLast? = some 0 := by
    rw [List.getLast?_drop, if_neg (by omega), hlast]
  rw [strncpy, List.getLast?_append, hdrop]
  rfl

/-- `strncpy(dst, src, sizeof(dst) - 1)`. -/
def CharArray.copy {n : ℕ} (dst : CharArray (n + 1)) (src : List UInt8) : CharArray (n + 1) where
  bytes := strncpy dst.bytes src n
  length_eq := (length_strncpy (by rw [dst.length_eq]; omega) src).trans dst.length_eq
  terminated := getLast?_strncpy dst.length_eq dst.terminated src

def CharArray.empty (n : ℕ) : CharArray (n + 1) where
  bytes := List.replicate (n + 1) 0
  length_eq := List.length_replicate
  terminated := by rw [List.replicate_succ', List.getLast?_append]; rfl

/-- The string in an array. -/
def CharArray.str {n : ℕ} (a : CharArray n) : List UInt8 := cstr a.bytes

/-- What was in the array before does not show. -/
theorem CharArray.copy_bytes {n : ℕ} (dst : CharArray (n + 1)) (src : List UInt8) :
    (dst.copy src).bytes = src.take n ++ List.replicate (n + 1 - (src.take n).length) 0 := by
  obtain ⟨init, b, hdst⟩ : ∃ init b, dst.bytes = init ++ [b] := by
    have hne : dst.bytes ≠ [] := by
      intro h
      have hlen := dst.length_eq
      rw [h] at hlen
      cases hlen
    exact ⟨dst.bytes.dropLast, dst.bytes.getLast hne, (List.dropLast_append_getLast hne).symm⟩
  have hlen : init.length = n := by
    have h := dst.length_eq
    rw [hdst, List.length_append, List.length_singleton] at h
    omega
  have hlast : b = 0 := by
    have h := dst.terminated
    rw [hdst, List.getLast?_append] at h
    exact Option.some.inj h
  show strncpy dst.bytes src n = _
  rw [strncpy, hdst, List.drop_left' hlen, hlast, List.append_assoc, ← List.replicate_succ',
    List.length_take]
  congr 2
  omega

/-! ### The settings -/

/-- The fields of type `uint32_t`. -/
inductive Number where
  | packetTimeoutMs
  | byteTimeoutMs
  | interBlockDelayMs
  | handshakeDelayMs
  | syncIntervalBlocks
  deriving Repr, DecidableEq

/-- The fields of type `bool`. -/
inductive Flag where
  | enableResume
  | autoStart
  | asyncStorage
  | progressBar
  | directoryTransfers
  | ringBuffer
  | abortKey
  | flowControl
  | mcubootUpdate
  | nvsCheckpoints
  | cryptoStream
  | uartDma
  | usbCdcAcm
  | mcubootValidate
  | signatureVerify
  | encryptedEnvelope
  | sessionDispatcher
  | logRotation
  | nfcTransport
  deriving Repr, DecidableEq

/-- `console_modem_settings_t`. The overwrite mode is a C enumeration, which takes any
value of its type. -/
structure Settings where
  number : Number → UInt32
  flag : Flag → Bool
  maxRetries : UInt8
  overwriteMode : UInt32
  abortKeyChar : UInt8
  defaultTargetDir : CharArray 128
  flashPartition : CharArray 32

/-- Values other than SKIP and ABORT are not looked for. -/
def Settings.mode (g : Settings) : OverwriteMode :=
  if g.overwriteMode = 1 then .skip else if g.overwriteMode = 2 then .abort else .always

/-- The settings that storing a file uses. -/
def Settings.storage (g : Settings) : StorageSettings :=
  ⟨g.mode, g.defaultTargetDir.str, g.flag .asyncStorage⟩

/-! ### `cmd_modem_config` -/

def ascii (s : String) : List UInt8 := s.toList.map fun c => UInt8.ofNat c.toNat

/-- What a parameter of `modem config` sets. -/
inductive Param where
  | number (n : Number)
  | flag (f : Flag)
  | maxRetries
  | overwriteMode
  | abortKeyChar
  | defaultTargetDir
  | flashPartition
  deriving Repr, DecidableEq

def paramNames : List (List UInt8 × Param) :=
  [(ascii "packet_timeout", .number .packetTimeoutMs), (ascii "pkt_timeout", .number .packetTimeoutMs),
    (ascii "byte_timeout", .number .byteTimeoutMs), (ascii "max_retries", .maxRetries),
    (ascii "retries", .maxRetries), (ascii "inter_block_delay", .number .interBlockDelayMs),
    (ascii "handshake_delay", .number .handshakeDelayMs), (ascii "overwrite_mode", .overwriteMode),
    (ascii "enable_resume", .flag .enableResume), (ascii "resume", .flag .enableResume),
    (ascii "target_dir", .defaultTargetDir), (ascii "sync_interval", .number .syncIntervalBlocks),
    (ascii "auto_start", .flag .autoStart), (ascii "async_storage", .flag .asyncStorage),
    (ascii "progress_bar", .flag .progressBar),
    (ascii "directory_transfers", .flag .directoryTransfers),
    (ascii "ring_buffer", .flag .ringBuffer), (ascii "abort_key", .flag .abortKey),
    (ascii "abort_char", .abortKeyChar), (ascii "abort_key_char", .abortKeyChar),
    (ascii "flow_control", .flag .flowControl), (ascii "flash_partition", .flashPartition),
    (ascii "partition", .flashPartition), (ascii "mcuboot_update", .flag .mcubootUpdate),
    (ascii "nvs_checkpoints", .flag .nvsCheckpoints), (ascii "crypto_stream", .flag .cryptoStream),
    (ascii "uart_dma", .flag .uartDma), (ascii "usb_cdc_acm", .flag .usbCdcAcm),
    (ascii "mcuboot_validate", .flag .mcubootValidate),
    (ascii "signature_verify", .flag .signatureVerify),
    (ascii "encrypted_envelope", .flag .encryptedEnvelope),
    (ascii "session_dispatcher", .flag .sessionDispatcher),
    (ascii "log_rotation", .flag .logRotation), (ascii "nfc_transport", .flag .nfcTransport),
    (ascii "nfc", .flag .nfcTransport)]

/-- The chain of `strcmp` on `argv[1]`. -/
def paramOf (param : List UInt8) : Option Param := (paramNames.find? (·.1 = param)).map (·.2)

variable (P : Platform)

/-- `strcmp(val_str, "true") == 0 || strcmp(val_str, "1") == 0`. -/
def isTrue (valStr : List UInt8) : Bool := valStr = ascii "true" ∨ valStr = ascii "1"

def Settings.assign (g : Settings) (valStr : List UInt8) : Param → Settings
  | .number n => { g with number := Function.update g.number n (UInt32.ofNat (strtoul P valStr)) }
  | .flag f => { g with flag := Function.update g.flag f (isTrue valStr) }
  | .maxRetries => { g with maxRetries := UInt8.ofNat (strtoul P valStr) }
  | .overwriteMode => { g with overwriteMode := UInt32.ofNat (strtoul P valStr) }
  | .abortKeyChar => { g with abortKeyChar := UInt8.ofNat (strtoul P valStr) }
  | .defaultTargetDir => { g with defaultTargetDir := g.defaultTargetDir.copy valStr }
  | .flashPartition => { g with flashPartition := g.flashPartition.copy valStr }

/-- `cmd_modem_config`, with the arguments behind the command's name. -/
def cmdModemConfig (args : List (List UInt8)) (g : Settings) : ℤ × Settings :=
  match args with
  | [] => (0, g)
  | [_] => (-1, g)
  | param :: valStr :: _ =>
    match paramOf param with
    | some p => (0, g.assign P valStr p)
    | none => (-1, g)

/-! ### The settings as registers -/

/-- What a field holds. -/
inductive Value where
  | number (n : UInt32)
  | flag (b : Bool)
  | byte (b : UInt8)
  | chars (s : List UInt8)
  deriving Repr, DecidableEq

def Settings.get (g : Settings) : Param → Value
  | .number n => .number (g.number n)
  | .flag f => .flag (g.flag f)
  | .maxRetries => .byte g.maxRetries
  | .overwriteMode => .number g.overwriteMode
  | .abortKeyChar => .byte g.abortKeyChar
  | .defaultTargetDir => .chars g.defaultTargetDir.bytes
  | .flashPartition => .chars g.flashPartition.bytes

/-- The contents of an array of `size` bytes after a copy. -/
def padded (size : ℕ) (src : List UInt8) : List UInt8 :=
  src.take (size - 1) ++ List.replicate (size - (src.take (size - 1)).length) 0

/-- What a value on the command line stands for. -/
def Param.read (valStr : List UInt8) : Param → Value
  | .number _ | .overwriteMode => .number (UInt32.ofNat (strtoul P valStr))
  | .flag _ => .flag (isTrue valStr)
  | .maxRetries | .abortKeyChar => .byte (UInt8.ofNat (strtoul P valStr))
  | .defaultTargetDir => .chars (padded 128 valStr)
  | .flashPartition => .chars (padded 32 valStr)

theorem Settings.get_assign_self (g : Settings) (valStr : List UInt8) (p : Param) :
    (g.assign P valStr p).get p = p.read P valStr := by
  cases p with
  | number n => exact congrArg Value.number (Function.update_self ..)
  | flag f => exact congrArg Value.flag (Function.update_self ..)
  | maxRetries => rfl
  | overwriteMode => rfl
  | abortKeyChar => rfl
  | defaultTargetDir => exact congrArg Value.chars (CharArray.copy_bytes ..)
  | flashPartition => exact congrArg Value.chars (CharArray.copy_bytes ..)

theorem Settings.get_assign_of_ne (g : Settings) (valStr : List UInt8) {p q : Param} (h : q ≠ p) :
    (g.assign P valStr p).get q = g.get q := by
  cases p with
  | number n =>
    cases q with
    | number m => exact congrArg Value.number (Function.update_of_ne (fun he => h (congrArg Param.number he)) _ _)
    | _ => rfl
  | flag f =>
    cases q with
    | flag e => exact congrArg Value.flag (Function.update_of_ne (fun he => h (congrArg Param.flag he)) _ _)
    | _ => rfl
  | _ =>
    cases q with
    | number n => rfl
    | flag f => rfl
    | _ => first | rfl | exact absurd rfl h

end ZephyrModem.Console
