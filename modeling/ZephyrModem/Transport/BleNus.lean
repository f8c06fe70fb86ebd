import Mathlib.Data.Int.Notation
import ZephyrModem.Memory.Ring

/-!
# The BLE NUS transport adapter

`src/ble_nus_transport.c`: received data goes into a ring of 512 bytes, from which the
protocol engine reads.
-/

namespace ZephyrModem.Transport

open Memory

def bleNusDefaultBufSize : ℕ := 512

/-- The static variables of the file. -/
structure BleNus where
  rx : Ring UInt8 bleNusDefaultBufSize
  connected : Bool

namespace BleNus

/-- The variables before the first call. -/
def boot : BleNus := ⟨Ring.zeroed 0 (by decide), false⟩

/-- `ble_nus_transport_init`; the configuration is ignored. -/
def init (s : BleNus) : ℤ × BleNus := (0, { s with rx := s.rx.reset, connected := true })

/-- `ble_nus_transport_rx_callback`; the data may be NULL. -/
def rxCallback (s : BleNus) (data : Option (List UInt8)) : BleNus :=
  match data with
  | none => s
  | some data => { s with rx := s.rx.pushAll data }

/-- `ble_nus_transport_read_byte`: the result and the byte stored. `byte` is false for a
NULL pointer. -/
def readByte (s : BleNus) (byte : Bool) : ℤ × Option UInt8 × BleNus :=
  if byte = false then (-1, none, s)
  else if h : 0 < s.rx.count then
    (0, some (s.rx.shift h).1, { s with rx := (s.rx.shift h).2 })
  else (-1, none, s)

/-! ### Callbacks and reads in any order -/

inductive Call where
  | rxCallback (data : Option (List UInt8))
  | readByte (byte : Bool)
  deriving Repr, DecidableEq

def step (s : BleNus) : Call → BleNus
  | .rxCallback data => s.rxCallback data
  | .readByte byte => (s.readByte byte).2.2

def Call.delivered : Call → List UInt8
  | .rxCallback data => data.getD []
  | .readByte _ => []

def returned (s : BleNus) : Call → List UInt8
  | .rxCallback _ => []
  | .readByte byte => (s.readByte byte).2.1.toList

/-- What a call is to the queue; a read without a place for the byte is nothing. -/
def acts (s : BleNus) : Call → List (Fifo.Act UInt8)
  | .rxCallback data => [.offer (data.getD [])]
  | .readByte byte => if byte = false then [] else [.poll (s.readByte byte).2.1]

theorem contents_rxCallback (s : BleNus) (data : Option (List UInt8)) :
    (s.rxCallback data).rx.contents =
      Fifo.offer bleNusDefaultBufSize s.rx.contents (data.getD []) := by
  cases data with
  | none => exact (Fifo.offer_nil _ _).symm
  | some data => exact s.rx.contents_pushAll data

theorem readByte_run (s : BleNus) :
    Fifo.Run bleNusDefaultBufSize s.rx.contents [.poll (s.readByte true).2.1]
      (s.readByte true).2.2.rx.contents := by
  unfold readByte
  rw [if_neg (by decide)]
  by_cases h : 0 < s.rx.count
  · rw [dif_pos h]
    exact s.rx.run_shift h
  · rw [dif_neg h]
    exact s.rx.run_empty h

theorem step_run (s : BleNus) (c : Call) :
    Fifo.Run bleNusDefaultBufSize s.rx.contents (s.acts c) (s.step c).rx.contents := by
  cases c with
  | rxCallback data =>
    apply Fifo.Run.offer
    rw [← contents_rxCallback]
    exact .nil _
  | readByte byte =>
    cases byte with
    | false => exact .nil _
    | true => exact s.readByte_run

theorem offered_acts (s : BleNus) (c : Call) : Fifo.offered (s.acts c) = c.delivered := by
  cases c with
  | rxCallback data => exact List.append_nil _
  | readByte byte => cases byte <;> rfl

theorem polled_acts (s : BleNus) (c : Call) : Fifo.polled (s.acts c) = s.returned c := by
  cases c with
  | rxCallback data => rfl
  | readByte byte =>
    cases byte with
    | false => rfl
    | true => exact List.append_nil _

/-- What a list of calls is to the queue. -/
def history (s : BleNus) (calls : List Call) : List (Fifo.Act UInt8) :=
  Fifo.gather step acts s calls

def bytesDelivered (calls : List Call) : List UInt8 := calls.flatMap Call.delivered

def bytesReturned (s : BleNus) (calls : List Call) : List UInt8 :=
  Fifo.gather step returned s calls

def after (s : BleNus) (calls : List Call) : BleNus := calls.foldl step s

/-- From `init` on the ring serves as a bounded queue of 512 bytes. -/
theorem serves (s : BleNus) (calls : List Call) :
    Fifo.Serves bleNusDefaultBufSize (history s.init.2 calls) (bytesDelivered calls)
      (bytesReturned s.init.2 calls) (after s.init.2 calls).rx.contents where
  run := Fifo.Run.of_steps step_run s.init.2 calls
  offered_eq := by
    rw [bytesDelivered, ← Fifo.gather_stateless step Call.delivered s.init.2 calls]
    exact Fifo.gather_map step Fifo.offered rfl Fifo.offered_append offered_acts _ _
  polled_eq := Fifo.gather_map step Fifo.polled rfl Fifo.polled_append polled_acts _ _

end BleNus

end ZephyrModem.Transport
