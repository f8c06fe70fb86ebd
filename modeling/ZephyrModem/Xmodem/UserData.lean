import ZephyrModem.Reactive.Morphism
import ZephyrModem.Xmodem.Model

/-!
# The transmitter and its `user_data`

`xmodem_transmit` only hands `user_data` to `data_cb`. With a callback that does the same on
another representation it sends the same bytes.
-/

namespace ZephyrModem.Xmodem
open ZephyrModem.Reactive

variable {υ υ' : Type}

/-- The callbacks do the same, `φ` being the change of representation. -/
structure SameCallbacks (φ : υ → υ') (cbs : TxCallbacks υ) (cbs' : TxCallbacks υ') : Prop where
  data : ∀ n buf u, cbs'.dataCb n buf (φ u) =
    ((cbs.dataCb n buf u).1, (cbs.dataCb n buf u).2.1, φ (cbs.dataCb n buf u).2.2)

def TxLocals.map (φ : υ → υ') (v : TxLocals υ) : TxLocals υ' :=
  ⟨v.crcMode, v.blockNum, v.bytesSent, φ v.userData⟩

def TxSite.map (φ : υ → υ') : TxSite υ → TxSite υ'
  | .start retries u => .start retries (φ u)
  | .reply v retries payload => .reply (v.map φ) retries payload
  | .eotReply retries => .eotReply retries

variable {φ : υ → υ'} {cbs : TxCallbacks υ} {cbs' : TxCallbacks υ'} (P : Platform) (crc : CrcService)
  (cfg : Config) (totalLen : ℕ)

theorem sendEot_map (φ : υ → υ') (retries : Byte) :
    (sendEot cfg retries : TxOut υ') = (sendEot cfg retries).map (TxSite.map φ) id := by
  unfold sendEot
  split <;> rfl

theorem sendPacket_map (φ : υ → υ') (v : TxLocals υ) (retries : Byte) (payload : List Byte) :
    sendPacket crc cfg (v.map φ) retries payload =
      (sendPacket crc cfg v retries payload).map (TxSite.map φ) id := by
  unfold sendPacket
  split <;> rfl

theorem startAgain_map (φ : υ → υ') (retries : Byte) (u : υ) :
    startAgain cfg retries (φ u) = (startAgain cfg retries u).map (TxSite.map φ) id := by
  unfold startAgain
  dsimp only
  split <;> rfl

theorem nextBlock_map (h : SameCallbacks φ cbs cbs') (v : TxLocals υ) :
    nextBlock P crc cbs' cfg totalLen (v.map φ) =
      (nextBlock P crc cbs cfg totalLen v).map (TxSite.map φ) id := by
  obtain ⟨c, n, sent, u⟩ := v
  show nextBlock P crc cbs' cfg totalLen ⟨c, n, sent, φ u⟩ = _
  have hsend : ∀ w payload, sendPacket crc cfg ⟨c, n, sent, φ w⟩ 0 payload =
      (sendPacket crc cfg ⟨c, n, sent, w⟩ 0 payload).map (TxSite.map φ) id :=
    fun w payload => sendPacket_map crc cfg φ ⟨c, n, sent, w⟩ 0 payload
  simp only [nextBlock, h.data]
  split_ifs
  · rfl
  · rw [Out.map_after, ← sendEot_map]
  · rw [Out.map_after, ← hsend]
  · exact sendEot_map cfg φ 0

theorem mimics_transmitStep (h : SameCallbacks φ cbs cbs') :
    Mimics (TxSite.map φ) id (transmitStep P crc cbs cfg totalLen)
      (transmitStep P crc cbs' cfg totalLen) := by
  intro s r
  cases s with
  | start retries u =>
    cases r with
    | timeout => exact startAgain_map cfg φ retries u
    | cancel => exact startAgain_map cfg φ retries u
    | ok b =>
      simp only [TxSite.map, transmitStep]
      split_ifs
      · exact nextBlock_map P crc cfg totalLen h ⟨true, 1, 0, u⟩
      · exact nextBlock_map P crc cfg totalLen h ⟨false, 1, 0, u⟩
      · rfl
      · exact startAgain_map cfg φ retries u
  | reply v retries payload =>
    cases r with
    | timeout => exact sendPacket_map crc cfg φ v _ payload
    | cancel => rfl
    | ok b =>
      simp only [TxSite.map, transmitStep]
      split_ifs
      · exact nextBlock_map P crc cfg totalLen h { v with
          blockNum := v.blockNum + 1
          bytesSent := P.toSize (v.bytesSent + payload.length) }
      · rfl
      · exact sendPacket_map crc cfg φ v _ payload
  | eotReply retries =>
    simp only [TxSite.map, transmitStep]
    split_ifs
    · rfl
    · exact sendEot_map cfg φ _

end ZephyrModem.Xmodem
