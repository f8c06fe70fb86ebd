import ZephyrModem.Crc
import ZephyrModem.Reactive.Process
import ZephyrModem.Transfer.Callbacks

/-!
# ZMODEM frames (`src/zmodem.c`, lines 18-385 and 484-522)

Headers, data subpackets and the ZDLE escape, as they are sent and as they are
read. The functions that read are readers: their states are their calls of
`read_byte`. The `_rx` and `_tx` functions differ in `read_zdle_byte` only, where
the receiver also knows ZRUB0 and ZRUB1.
-/

namespace ZephyrModem.Zmodem
open ZephyrModem.Reactive ZephyrModem.Transfer

abbrev Byte := UInt8

abbrev Read := ReadResult Byte

/-! ### Bytes of `modem/zmodem.h` -/

def zpad : Byte := 0x2A
def zdle : Byte := 0x18
def zdlee : Byte := 0x58
def zbin : Byte := 0x41
def zhex : Byte := 0x42
def zbin32 : Byte := 0x43

def zrqinit : Byte := 0
def zrinit : Byte := 1
def zack : Byte := 3
def zfile : Byte := 4
def zfin : Byte := 8
def zrpos : Byte := 9
def zdata : Byte := 10
def zeof : Byte := 11

def zcrce : Byte := 0x68
def zcrcg : Byte := 0x69
def zcrcq : Byte := 0x6A
def zcrcw : Byte := 0x6B
def zrub0 : Byte := 0x6C
def zrub1 : Byte := 0x6D

inductive Status where
  | ok
  | error
  | errorTimeout
  | errorCancel
  | errorCrc
  | errorIo
  deriving Repr, DecidableEq

/-! ### Sending -/

def hexDigits : List Byte :=
  [0x30, 0x31, 0x32, 0x33, 0x34, 0x35, 0x36, 0x37, 0x38, 0x39, 0x61, 0x62, 0x63, 0x64, 0x65, 0x66]

def hexByte (b : Byte) : List Byte :=
  [hexDigits.getD ((b >>> 4) &&& 0x0F).toNat 0, hexDigits.getD (b &&& 0x0F).toNat 0]

section Send

variable (crc : CrcService)

/-- The frame that `send_hex_header` and `send_hex_header_tx` write. -/
def hexHeader (type : Byte) (flags : List Byte) : List Byte :=
  let hbuf := type :: flags
  let c := modemCrc16 crc hbuf
  [zpad, zpad, zdle, zhex] ++ hbuf.flatMap hexByte ++ [crcHi c, crcLo c].flatMap hexByte ++
    [0x0D, 0x0A] ++ (if type ≠ zfin ∧ type ≠ zack then [0x11] else [])

def sendHexHeader (type : Byte) (flags : List Byte) : List (Event Status) :=
  writeBytes (hexHeader crc type flags)

def sendHexHeaderTx (type : Byte) (flags : List Byte) : List (Event Status) :=
  writeBytes (hexHeader crc type flags)

/-- `send_zdle_byte_tx`. -/
def zdleByte (b : Byte) : List Byte :=
  if b = zdle ∨ b = 0x11 ∨ b = 0x13 ∨ b = 0x81 ∨ b = 0x83 then [zdle, b ^^^ 0x40] else [b]

def zdleCrc (c : UInt16) : List Byte := zdleByte (crcHi c) ++ zdleByte (crcLo c)

/-- `send_binary_header_tx`. -/
def binaryHeader (type : Byte) (flags : List Byte) : List Byte :=
  [zpad, zdle, zbin] ++ (type :: flags).flatMap zdleByte ++ zdleCrc (modemCrc16 crc (type :: flags))

/-- `send_subpacket_tx`. -/
def subpacket (buf : List Byte) (ender : Byte) : List Byte :=
  buf.flatMap zdleByte ++ [zdle, ender] ++
    zdleCrc (modemCrc16Update crc (modemCrc16 crc buf) [ender])

end Send

/-! ### Reading one byte -/

/-- Result of `read_zdle_byte`: 0 and the byte, 1 and the ender, -1 or -2. -/
inductive ZdleResult where
  | byte (b : Byte)
  | ender (b : Byte)
  | error
  | cancel
  deriving Repr, DecidableEq

/-- `read_zdle_byte_rx` with `rub`, `read_zdle_byte_tx` without; the state tells
whether ZDLE was read. -/
def readZdleByte (rub : Bool) : Reader Read Bool ZdleResult := fun esc r =>
  match esc, r with
  | false, .cancel => .done .cancel
  | false, .timeout => .done .error
  | false, .ok ch => if ch = zdle then .wait true else .done (.byte ch)
  | true, .ok ch =>
    if ch = zcrce ∨ ch = zcrcg ∨ ch = zcrcq ∨ ch = zcrcw then .done (.ender ch)
    else if ch = zdlee then .done (.byte zdle)
    else if rub ∧ ch = zrub0 then .done (.byte 0x7F)
    else if rub ∧ ch = zrub1 then .done (.byte 0xFF)
    else .done (.byte (ch ^^^ 0x40))
  | true, _ => .done .error

def readZdleByteRx : Reader Read Bool ZdleResult := readZdleByte true

def readZdleByteTx : Reader Read Bool ZdleResult := readZdleByte false

/-! ### Reading a header -/

structure Header where
  type : Byte
  flags : List Byte
  isCrc32 : Bool
  deriving Repr, DecidableEq

/-- The reads of `read_header`. -/
inductive HeaderSite where
  | pad                                                     -- line 193
  | padOrZdle                                               -- line 195
  | zdle                                                    -- line 198
  | format                                                  -- line 202
  | hex (hexbuf : List Byte)                                -- line 206
  | bin (crc32 : Bool) (buf : List Byte) (esc : Bool)       -- lines 232, 238, 246, 253
  deriving Repr, DecidableEq

/-- `hex_to_nibble`; -1 is `none`. -/
def hexToNibble (c : Byte) : Option Byte :=
  if 0x30 ≤ c ∧ c ≤ 0x39 then some (c - 0x30)
  else if 0x61 ≤ c ∧ c ≤ 0x66 then some (c - 0x61 + 10)
  else if 0x41 ≤ c ∧ c ≤ 0x46 then some (c - 0x41 + 10)
  else none

def hexBytes : List Byte → Option (List Byte)
  | hi :: lo :: rest => do
    let h ← hexToNibble hi
    let l ← hexToNibble lo
    let bs ← hexBytes rest
    some ((h <<< 4 ||| l) :: bs)
  | _ => some []

/-- The received CRC: two bytes, high byte first. -/
def rxCrc16 : List Byte → UInt16
  | c1 :: c2 :: _ => be16 c1 c2
  | _ => 0

/-- The received CRC: four bytes, low byte first. -/
def rxCrc32 : List Byte → UInt32
  | c0 :: c1 :: c2 :: c3 :: _ =>
    c0.toUInt32 ||| (c1.toUInt32 <<< 8) ||| (c2.toUInt32 <<< 16) ||| (c3.toUInt32 <<< 24)
  | _ => 0

section Read

variable (crc : CrcService)

/-- The CRC test of a header: `hbuf`, then the received CRC. -/
def checkHeader (crc32 : Bool) (buf : List Byte) : Option Header :=
  let hbuf := buf.take 5
  if (if crc32 then rxCrc32 (buf.drop 5) = modemCrc32 crc hbuf
      else rxCrc16 (buf.drop 5) = modemCrc16 crc hbuf) then
    some ⟨hbuf.headD 0, hbuf.tail, crc32⟩
  else none

/-- `read_header_rx` with `rub`, `read_header_tx` without; -1 is `none`. -/
def readHeader (rub : Bool) : Reader Read HeaderSite (Option Header) := fun s r =>
  match s, r with
  | .bin crc32 buf esc, r =>
    match readZdleByte rub esc r with
    | .wait esc => .wait (.bin crc32 buf esc)
    | .done (.byte b) | .done (.ender b) =>
      if (buf ++ [b]).length < (if crc32 then 9 else 7) then .wait (.bin crc32 (buf ++ [b]) false)
      else .done (checkHeader crc crc32 (buf ++ [b]))
    | .done _ => .done none
  | .pad, .ok b => if b = zpad then .wait .padOrZdle else .wait .pad
  | .padOrZdle, .ok b =>
    if b = zpad then .wait .zdle else if b = zdle then .wait .format else .wait .pad
  | .zdle, .ok b => if b = zdle then .wait .format else .wait .pad
  | .format, .ok format =>
    if format = zhex then .wait (.hex [])
    else if format = zbin then .wait (.bin false [] false)
    else if format = zbin32 then .wait (.bin true [] false)
    else .wait .pad
  | .hex hexbuf, .ok b =>
    if (hexbuf ++ [b]).length < 14 then .wait (.hex (hexbuf ++ [b]))
    else .done ((hexBytes (hexbuf ++ [b])).bind (checkHeader crc false))
  | _, _ => .done none

def readHeaderRx : Reader Read HeaderSite (Option Header) := readHeader crc true

def readHeaderTx : Reader Read HeaderSite (Option Header) := readHeader crc false

/-! ### Reading a subpacket -/

/-- The reads of `read_subpacket_rx`. -/
inductive PacketSite where
  | data (buf : List Byte) (esc : Bool)                                 -- line 353
  | check (buf : List Byte) (ender : Byte) (c : List Byte) (esc : Bool) -- lines 362, 371
  deriving Repr, DecidableEq

/-- The CRC test of a subpacket. -/
def checkSubpacket (isCrc32 : Bool) (buf : List Byte) (ender : Byte) (c : List Byte) : Bool :=
  if isCrc32 then
    rxCrc32 c == modemCrc32Finalize
      (modemCrc32Update crc (modemCrc32Update crc 0xFFFFFFFF buf) [ender])
  else rxCrc16 c == modemCrc16Update crc (modemCrc16 crc buf) [ender]

/-- `read_subpacket_rx`: the bytes and the ender; -1 is `none`. -/
def readSubpacketRx (maxLen : ℕ) (isCrc32 : Bool) :
    Reader Read PacketSite (Option (List Byte × Byte)) := fun s r =>
  match s with
  | .data buf esc =>
    match readZdleByteRx esc r with
    | .wait esc => .wait (.data buf esc)
    | .done (.byte b) =>
      if buf.length < maxLen then .wait (.data (buf ++ [b]) false) else .done none
    | .done (.ender b) => .wait (.check buf b [] false)
    | .done _ => .done none
  | .check buf ender c esc =>
    match readZdleByteRx esc r with
    | .wait esc => .wait (.check buf ender c esc)
    | .done (.byte b) | .done (.ender b) =>
      if (c ++ [b]).length < (if isCrc32 then 4 else 2) then
        .wait (.check buf ender (c ++ [b]) false)
      else if checkSubpacket crc isCrc32 buf ender (c ++ [b]) then .done (some (buf, ender))
      else .done none
    | .done _ => .done none

end Read

end ZephyrModem.Zmodem
