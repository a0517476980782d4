import DeviceHttp.Body.Sink
import DeviceHttp.Flash.Device

/-!
# Keeping a body in a region of a block device

The region is erased at the start of a transaction and then written from its start on; what does not
fit is dropped. The sink closes itself when the body is complete, when the region is full and when
the device fails. A sink and the device that it writes to travel together.
-/

namespace DeviceHttp

/-- A body on its way into a region. -/
structure RegionSink where
  region : Region
  length : Nat := 0
  chunked : Bool := false
  /-- How many bytes of the region are written. -/
  written : Nat := 0
  /-- A sink takes nothing before its first reset. -/
  isOpen : Bool := false
  /-- Whether the device failed. -/
  failed : Bool := false
  deriving DecidableEq, Repr

namespace RegionSink

/-- A sink that takes nothing more. -/
def close (s : RegionSink) : RegionSink :=
  { s with isOpen := false }

/-- A sink that a failure of the device closed. -/
def fail (s : RegionSink) : RegionSink :=
  { s with isOpen := false, failed := true }

/-- Start over with an erased region. -/
def reset : FlashDevice × RegionSink → FlashDevice × RegionSink
  | (device, s) =>
    let fresh : RegionSink := { region := s.region, isOpen := true }
    match device.erase s.region.start.toNat s.region.stop.toNat with
    | .ok _ device => (device, fresh)
    | .error _ device => (device, fresh.fail)

/-- The announced length of the body; a body of no bytes is complete at once. -/
def setLength (n : Nat) (s : RegionSink) : RegionSink :=
  let s := { s with length := n }
  if s.chunked = false ∧ n = 0 then s.close else s

/-- Write the part of a slice that fits behind what is there. -/
def write (slice : Bytes) : FlashDevice × RegionSink → Nat × (FlashDevice × RegionSink)
  | (device, s) =>
    if s.isOpen = false then (0, device, s)
    else if slice = [] then (0, device, if s.chunked then s.close else s)
    else
      let kept := slice.take (s.region.length - s.written)
      match device.write (s.region.start.toNat + s.written) kept with
      | .error _ device => (0, device, s.fail)
      | .ok _ device =>
        let s := { s with written := s.written + kept.length }
        let complete := s.chunked = false ∧ s.length ≤ s.written
        (kept.length, device, if complete ∨ s.written = s.region.length then s.close else s)

instance : Sink (FlashDevice × RegionSink) where
  reset := reset
  setLength n w := (w.1, w.2.setLength n)
  setChunked on w := (w.1, { w.2 with chunked := on })
  setContentType _ w := w
  write := write

end RegionSink

end DeviceHttp
