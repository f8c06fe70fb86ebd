import ZephyrModem.Crc.Detection
import ZephyrModem.Xmodem.Frames
import ZephyrModem.Ymodem.Bounds
import ZephyrModem.Ymodem.Integrity

/-!
# Packets struck on the line

What the two packet receivers make of a packet whose payload and CRC bytes arrive with
wrong bits: they drain the line, unless the error is one that the CRC cannot tell.
-/

namespace ZephyrModem
open Gf2 Reactive
open Xmodem (RawPacket sentPacket)

/-- The packet of `payload`, with the bits of `e` wrong in the payload and those of `x` and
`y` in the CRC. -/
def struckPacket (crc : CrcService) (n : UInt8) (payload e : List UInt8) (x y : UInt8) : RawPacket :=
  { sentPacket crc true n payload with
    payload := corrupt payload e
    check := [crcHi (modemCrc16 crc payload) ^^^ x, crcLo (modemCrc16 crc payload) ^^^ y] }

section Struck

variable {crc : CrcService} {n : UInt8} {payload e : List UInt8} {x y : UInt8}

theorem struckPacket_framed (hsize : payload.length = 128 ∨ payload.length = 1024)
    (he : e.length = payload.length) : (struckPacket crc n payload e x y).Framed true := by
  have hsent := Xmodem.sentPacket_framed crc true n payload hsize
  refine ⟨hsent.header, ?_, rfl⟩
  show (corrupt payload e).length = _
  rw [length_corrupt he]
  exact hsent.payload

theorem struckPacket_check_iff (hcrc : CcittCrc crc) (he : e.length = payload.length) :
    (struckPacket crc n payload e x y).check =
        Xmodem.checkBytes crc true (struckPacket crc n payload e x y).payload ↔
      be16 x y = ccittRegister 0 e := by
  rw [← passes_iff hcrc he, be16_eq_iff]
  simp [struckPacket, Xmodem.checkBytes]

theorem struckPacket_verified_iff (hcrc : CcittCrc crc) (he : e.length = payload.length) :
    (struckPacket crc n payload e x y).Verified crc true ↔ be16 x y = ccittRegister 0 e := by
  rw [← struckPacket_check_iff hcrc he]
  exact and_iff_right (Xmodem.add_complement n)

end Struck

/-- Neither receiver takes a packet with an error that the CRC can tell: both drain the line
without a callback. -/
theorem struck_packet_rejected {υ : Type} (P : Platform) {crc : CrcService} (hcrc : CcittCrc crc)
    (xcbs : Xmodem.RxCallbacks υ) (cfg : Xmodem.Config) (ycbs : Ymodem.RxCallbacks υ) (n : UInt8)
    {payload e : List UInt8} {x y : UInt8} (hsize : payload.length = 128 ∨ payload.length = 1024)
    (he : e.length = payload.length) (hwrong : Noticeable e x y) :
    (∀ v : Xmodem.RxLocals υ, v.crcMode = true →
      feed (Xmodem.receiveStep P crc xcbs cfg) (.wait ⟨.header, v⟩)
        (struckPacket crc n payload e x y).bytes = ⟨[], .wait ⟨.purge false, v⟩⟩) ∧
    ∀ v : Ymodem.RxLocals υ, feed (Ymodem.receiveStep P crc ycbs) (.wait ⟨.header, v⟩)
      (struckPacket crc n payload e x y).bytes = ⟨[], .wait ⟨.purge, v⟩⟩ := by
  have hne : be16 x y ≠ ccittRegister 0 e := hwrong.ne (by omega)
  have hframed : (struckPacket crc n payload e x y).Framed true := struckPacket_framed hsize he
  constructor
  · intro v hmode
    rw [Xmodem.feed_packet P crc xcbs cfg v _ (hmode ▸ hframed), hmode, if_neg]
    rwa [struckPacket_verified_iff hcrc he]
  · intro v
    rw [Ymodem.feed_raw hframed, if_neg]
    rwa [struckPacket_check_iff hcrc he]

def zeroPayload : List UInt8 := List.replicate 128 0

/-- Three wrong bits of which the last one is in the CRC. -/
theorem struck_packet_rejected_three_bits :
    (∀ v : Xmodem.RxLocals Unit, v.crcMode = true →
      feed (Xmodem.receiveStep platform32 referenceCrc Xmodem.acceptingStorage Xmodem.configInit)
        (.wait ⟨.header, v⟩)
        (struckPacket referenceCrc 1 zeroPayload (0x05 :: List.replicate 127 0) 0x80 0).bytes =
          ⟨[], .wait ⟨.purge false, v⟩⟩) ∧
    ∀ v : Ymodem.RxLocals Unit,
      feed (Ymodem.receiveStep platform32 referenceCrc Ymodem.acceptingFiles) (.wait ⟨.header, v⟩)
        (struckPacket referenceCrc 1 zeroPayload (0x05 :: List.replicate 127 0) 0x80 0).bytes =
          ⟨[], .wait ⟨.purge, v⟩⟩ :=
  struck_packet_rejected platform32 ccittCrc_reference _ _ _ 1 (.inl rfl) rfl
    (.odd (by decide +kernel))

/-- Twelve bits are the most: every packet passes for another one after a certain burst of
thirteen bits, and its payload is accepted with a wrong bit. -/
theorem thirteen_bit_burst_passes {υ : Type} (P : Platform) {crc : CrcService} (hcrc : CcittCrc crc)
    (xcbs : Xmodem.RxCallbacks υ) (cfg : Xmodem.Config) (ycbs : Ymodem.RxCallbacks υ) (n : UInt8)
    {payload : List UInt8} (hsize : payload.length = 128 ∨ payload.length = 1024) :
    ∃ e x y, e.length = payload.length ∧ Burst 13 (lineBits (e ++ [x, y])) ∧
      corrupt payload e ≠ payload ∧
      (∀ v : Xmodem.RxLocals υ, v.crcMode = true →
        feed (Xmodem.receiveStep P crc xcbs cfg) (.wait ⟨.header, v⟩)
          (struckPacket crc n payload e x y).bytes =
            Xmodem.acceptPacket P xcbs v n (corrupt payload e)) ∧
      ∀ v : Ymodem.RxLocals υ, feed (Ymodem.receiveStep P crc ycbs) (.wait ⟨.header, v⟩)
        (struckPacket crc n payload e x y).bytes =
          Ymodem.packetDone P ycbs v n (corrupt payload e) := by
  obtain ⟨init, b, rfl⟩ : ∃ init b, payload = init ++ [b] := by
    have hne : payload ≠ [] := by
      rintro rfl
      simp at hsize
    exact ⟨payload.dropLast, payload.getLast hne, (List.dropLast_append_getLast hne).symm⟩
  obtain ⟨hsilent, hburst⟩ := silent_thirteen init.length
  have he : (List.replicate init.length 0 ++ [(0x80 : UInt8)]).length = (init ++ [b]).length := by
    rw [List.length_append, List.length_append, List.length_replicate]
    rfl
  have hframed : (struckPacket crc n (init ++ [b]) (List.replicate init.length 0 ++ [0x80]) 0x84
      0x08).Framed true := struckPacket_framed hsize he
  refine ⟨List.replicate init.length 0 ++ [0x80], 0x84, 0x08, he, hburst, ?_, ?_, ?_⟩
  · intro h
    rw [corrupt_append List.length_replicate] at h
    obtain ⟨-, hlast⟩ := List.append_inj' h rfl
    have hb : b ^^^ 0x80 = b := (List.cons.inj hlast).1
    have hzero : (0x80 : UInt8) = 0 := UInt8.xor_right_inj b |>.mp (hb.trans UInt8.xor_zero.symm)
    cases hzero
  · intro v hmode
    rw [Xmodem.feed_packet P crc xcbs cfg v _ (hmode ▸ hframed), hmode, if_pos]
    · rfl
    · exact (struckPacket_verified_iff hcrc he).mpr hsilent
  · intro v
    rw [Ymodem.feed_raw hframed, if_pos]
    · rfl
    · exact (struckPacket_check_iff hcrc he).mpr hsilent

theorem thirteen_bit_burst_passes_zeros : ∃ e x y, e.length = zeroPayload.length ∧
    Burst 13 (lineBits (e ++ [x, y])) ∧ corrupt zeroPayload e ≠ zeroPayload ∧
      (∀ v : Xmodem.RxLocals Unit, v.crcMode = true →
        feed (Xmodem.receiveStep platform32 referenceCrc Xmodem.acceptingStorage Xmodem.configInit)
          (.wait ⟨.header, v⟩) (struckPacket referenceCrc 1 zeroPayload e x y).bytes =
            Xmodem.acceptPacket platform32 Xmodem.acceptingStorage v 1 (corrupt zeroPayload e)) ∧
      ∀ v : Ymodem.RxLocals Unit,
        feed (Ymodem.receiveStep platform32 referenceCrc Ymodem.acceptingFiles) (.wait ⟨.header, v⟩)
          (struckPacket referenceCrc 1 zeroPayload e x y).bytes =
            Ymodem.packetDone platform32 Ymodem.acceptingFiles v 1 (corrupt zeroPayload e) :=
  thirteen_bit_burst_passes platform32 ccittCrc_reference _ _ _ 1 (.inl rfl)

end ZephyrModem
