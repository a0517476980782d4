import DeviceHttp.Storage.FileSystem
import DeviceHttp.Text.Utf8

/-!
# A block device and its regions

Cells that can be erased to all ones and written. Calls outside the device are refused, and chosen
calls fail; a call that fails changes no cell. Every call is noted, also one that fails.
-/

namespace DeviceHttp

/-- The addresses from `start` on, up to `stop` and without it. -/
structure Region where
  start : UInt32
  stop : UInt32
  deriving DecidableEq, Repr

namespace Region

/-- The number of addresses in a region; one that stops before it starts has none. -/
def length (r : Region) : Nat :=
  r.stop.toNat - r.start.toNat

/-- Whether a region has no address. -/
def isEmpty (r : Region) : Bool :=
  r.length = 0

/-- Whether an address lies in a region. -/
def contains (r : Region) (address : UInt32) : Bool :=
  r.start ≤ address && address < r.stop

end Region

/-- A call on a block device. -/
inductive FlashCall
  | erase (start stop : Nat)
  | write (offset : Nat) (bytes : Bytes)
  deriving DecidableEq, Repr

/-- Whether a call writes. -/
def FlashCall.isWrite : FlashCall → Bool
  | erase .. => false
  | write .. => true

/-- A block device. -/
structure FlashDevice where
  cells : Bytes
  /-- Whether the erase that has so many erases before it fails. -/
  eraseFault : Nat → Bool := fun _ => false
  /-- Whether the write that has so many writes before it fails. -/
  writeFault : Nat → Bool := fun _ => false
  calls : List FlashCall := []

namespace FlashDevice

/-- The content of an erased cell. -/
def erased : UInt8 := 0xFF

/-- Cells with some of them replaced, from an offset on. -/
def overwrite (cells : Bytes) (offset : Nat) (bytes : Bytes) : Bytes :=
  cells.take offset ++ bytes ++ cells.drop (offset + bytes.length)

/-- Erase the cells from `start` on, up to `stop` and without it. -/
def erase (start stop : Nat) : EStateM StorageError FlashDevice Unit := fun d =>
  let fails := d.eraseFault (d.calls.countP (!·.isWrite))
  let d := { d with calls := d.calls ++ [.erase start stop] }
  if fails then .error .eraseFailed d
  else if stop < start ∨ d.cells.length < stop then .error .outOfBounds d
  else .ok () { d with cells := overwrite d.cells start (List.replicate (stop - start) erased) }

/-- Write the cells from an offset on. -/
def write (offset : Nat) (bytes : Bytes) : EStateM StorageError FlashDevice Unit := fun d =>
  let fails := d.writeFault (d.calls.countP (·.isWrite))
  let d := { d with calls := d.calls ++ [.write offset bytes] }
  if fails then .error .writeFailed d
  else if d.cells.length < offset + bytes.length then .error .outOfBounds d
  else .ok () { d with cells := overwrite d.cells offset bytes }

end FlashDevice

end DeviceHttp
