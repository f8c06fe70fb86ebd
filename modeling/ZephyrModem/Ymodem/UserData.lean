import ZephyrModem.Reactive.Morphism
import ZephyrModem.Ymodem.Model

/-!
# The transmitter and its `user_data`

`ymodem_transmit` hands `user_data` to the callbacks and does not look into it. With
callbacks that do the same on another representation it sends the same bytes.
-/

namespace ZephyrModem.Ymodem
open ZephyrModem.Reactive ZephyrModem.Transfer
open ZephyrModem.Xmodem (Byte Read soh stx eot ack nak can charC)

variable {υ υ' : Type}

/-- The callbacks do the same, `φ` being the change of representation. -/
structure SameCallbacks (φ : υ → υ') (cbs : TxCallbacks υ) (cbs' : TxCallbacks υ') : Prop where
  info : ∀ i u, cbs'.getFileInfo i (φ u) =
    ((cbs.getFileInfo i u).1, (cbs.getFileInfo i u).2.1, φ (cbs.getFileInfo i u).2.2)
  data : ∀ i offset len u, cbs'.readData i offset len (φ u) =
    ((cbs.readData i offset len u).1, (cbs.readData i offset len u).2.1,
      φ (cbs.readData i offset len u).2.2)

def TxLocals.map (φ : υ → υ') (v : TxLocals υ) : TxLocals υ' :=
  ⟨v.fileIdx, v.hasFile, v.info, φ v.userData⟩

def TxSite.map (φ : υ → υ') : TxSite υ → TxSite υ'
  | .startC v retries => .startC (v.map φ) retries
  | .ackBlock0 v => .ackBlock0 (v.map φ)
  | .secondC v => .secondC (v.map φ)
  | .reply v b retries => .reply (v.map φ) b retries
  | .eotReply v => .eotReply (v.map φ)
  | .secondEotReply v => .secondEotReply (v.map φ)

variable {φ : υ → υ'} {cbs : TxCallbacks υ} {cbs' : TxCallbacks υ'} (P : Platform) (crc : CrcService)

theorem nextFile_map (h : SameCallbacks φ cbs cbs') (i : ℕ) (u : υ) :
    nextFile cbs' i (φ u) = (nextFile cbs i u).map (TxSite.map φ) id := by
  simp only [nextFile, h.info]
  rfl

theorem sendBlock_map (φ : υ → υ') (v : TxLocals υ) (b : TxBlock) (retries : Byte) :
    sendBlock crc (v.map φ) b retries = (sendBlock crc v b retries).map (TxSite.map φ) id := by
  unfold sendBlock
  split <;> rfl

theorem nextBlock_map (h : SameCallbacks φ cbs cbs') (v : TxLocals υ) (offset : ℕ) (n : Byte) :
    nextBlock P crc cbs' (v.map φ) offset n = (nextBlock P crc cbs v offset n).map (TxSite.map φ) id := by
  unfold nextBlock
  by_cases hlt : offset < v.info.size
  · rw [if_pos hlt, if_pos (show offset < (v.map φ).info.size from hlt)]
    have hsend := fun u b => sendBlock_map crc φ { v with userData := u } b 0
    simp only [TxLocals.map, h.data, Out.map_after] at hsend ⊢
    rw [hsend]
    rfl
  · rw [if_neg hlt, if_neg (show ¬ offset < (v.map φ).info.size from hlt)]
    rfl

theorem mimics_transmitStep (h : SameCallbacks φ cbs cbs') :
    Mimics (TxSite.map φ) id (transmitStep P crc cbs) (transmitStep P crc cbs') := by
  intro s r
  cases s with
  | startC v retries =>
    simp only [TxSite.map, transmitStep]
    split_ifs <;> rfl
  | ackBlock0 v =>
    have hfile : (v.map φ).HasFile ↔ v.HasFile := Iff.rfl
    simp only [TxSite.map, transmitStep, hfile]
    split_ifs <;> rfl
  | secondC v =>
    simp only [TxSite.map, transmitStep]
    split_ifs
    · rfl
    · exact nextBlock_map P crc h v 0 1
  | reply v b retries =>
    simp only [TxSite.map, transmitStep]
    split_ifs
    · exact nextBlock_map P crc h v _ _
    · rfl
    · exact sendBlock_map crc φ v b _
  | eotReply v =>
    simp only [TxSite.map, transmitStep]
    split_ifs
    · rfl
    · exact nextFile_map h _ _
  | secondEotReply v => exact nextFile_map h _ _

end ZephyrModem.Ymodem
