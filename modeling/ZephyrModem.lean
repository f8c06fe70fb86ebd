import ZephyrModem.Crc.Ccitt
import ZephyrModem.Crc.Streaming
import ZephyrModem.Xmodem.Recovery
import ZephyrModem.Xmodem.EndToEnd
import ZephyrModem.Xmodem.Safety
import ZephyrModem.Xmodem.CheckMode
import ZephyrModem.Xmodem.CancelSignal
import ZephyrModem.Xmodem.UnknownLength
import ZephyrModem.Xmodem.DeadLine
import ZephyrModem.Tools.SendReceive
import ZephyrModem.Console.ReadByte
import ZephyrModem.Console.Storage
import ZephyrModem.Ymodem.RoundTrip
import ZephyrModem.Ymodem.Integrity
import ZephyrModem.Ymodem.CallProtocol
import ZephyrModem.Ymodem.LateStart
import ZephyrModem.Ymodem.DoubleEot
import ZephyrModem.Ymodem.HeaderBlock
import ZephyrModem.Ymodem.Transcript
import ZephyrModem.Zmodem.HexBuffer
import ZephyrModem.Zmodem.Readers
import ZephyrModem.Zmodem.Subpackets
import ZephyrModem.Zmodem.Transparency
import ZephyrModem.Zmodem.Interop
import ZephyrModem.Zmodem.CallProtocol
import ZephyrModem.Zmodem.Transcript
import ZephyrModem.Zmodem.FileInfo
import ZephyrModem.Zmodem.Positions
import ZephyrModem.Zmodem.Resume
import ZephyrModem.BatchReceivers
import ZephyrModem.Cancellation
import ZephyrModem.ShortReads
import ZephyrModem.RetryLimit
import ZephyrModem.ErrorDetection
import ZephyrModem.Firmware.EraseAhead
import ZephyrModem.Firmware.Signature
import ZephyrModem.Transport.Receive
import ZephyrModem.Transport.NfcLink
import ZephyrModem.Transport.SessionDispatcher
import ZephyrModem.Console.Autostart
import ZephyrModem.Console.Shell
import ZephyrModem.Console.Directory
import ZephyrModem.Console.BrokenCopy
import ZephyrModem.Console.NoisyLine
import ZephyrModem.Console.WireStream
import ZephyrModem.Storage.LogRotation
import ZephyrModem.Stream.DeltaUpdate
import ZephyrModem.Stream.Encrypted
import ZephyrModem.Stream.RunLength
