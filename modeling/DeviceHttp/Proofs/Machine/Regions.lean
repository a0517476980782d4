import DeviceHttp.Proofs.Flash.RegionBodies
import DeviceHttp.Proofs.Machine.Words

/-!
# Writing to a region with checked words

The addresses of a block device and the count of a region sink are words of 32 bits. Here they are
added, subtracted and cut with checks, and the sink comes to the same as without them
(`tellRegionAll_eq`), because what it has written does not go past the end of its region. With that
the sink is described whole (`RegionSink.keeps_to_region`).
-/

namespace DeviceHttp

namespace Machine

/-! ## The sink -/

/-- Write the part of a slice that fits behind what is there. -/
def writeRegion (bytes : Bytes) :
    FlashDevice × RegionSink → Checked (Nat × (FlashDevice × RegionSink))
  | (device, s) =>
    if s.isOpen = false then pure (0, device, s)
    else if bytes = [] then pure (0, device, if s.chunked then s.close else s)
    else do
      let room ← sub s.region.length s.written
      let n := min bytes.length room
      let offset ← addShort s.region.start.toNat s.written
      let kept ← slice bytes 0 n
      match device.write offset kept with
      | .error _ device => pure (0, device, s.fail)
      | .ok _ device =>
        let count ← toShort n
        let written ← addShort s.written count
        let s := { s with written }
        let complete := s.chunked = false ∧ s.length ≤ s.written
        pure (n, device, if complete ∨ s.written = s.region.length then s.close else s)

/-- One call to the sink; only a write computes with words. -/
def tellRegion (w : FlashDevice × RegionSink) : Delivery → Checked (FlashDevice × RegionSink)
  | .write bytes => do
    let (_, w) ← writeRegion bytes w
    pure w
  | call => pure (Sink.accept w call)

/-- A list of calls to the sink. -/
def tellRegionAll (w : FlashDevice × RegionSink) (calls : List Delivery) :
    Checked (FlashDevice × RegionSink) :=
  calls.foldlM tellRegion w

variable {w : FlashDevice × RegionSink}

/-- A slice is written to a region with addresses that stay in their word: what is written so far
and the slice fit in the region, or nothing is added up. -/
theorem writeRegion_eq (h : RegionSink.Sane w) (bytes : Bytes) :
    writeRegion bytes w = pure (RegionSink.write bytes w) := by
  obtain ⟨device, s⟩ := w
  have hle : s.written ≤ s.region.length := h.written_le
  unfold writeRegion RegionSink.write
  dsimp only
  by_cases hclosed : s.isOpen = false
  · rw [if_pos hclosed, if_pos hclosed]
  · rw [if_neg hclosed, if_neg hclosed]
    by_cases hend : bytes = []
    · rw [if_pos hend, if_pos hend]
    · have hordered : s.region.start.toNat ≤ s.region.stop.toNat := h.ordered (by simpa using hclosed)
      have hword := s.region.stop.toNat_lt
      have hlength : s.region.start.toNat + s.region.length = s.region.stop.toNat :=
        Nat.add_sub_cancel' hordered
      have hkept : bytes.take (min bytes.length (s.region.length - s.written))
          = bytes.take (s.region.length - s.written) := by
        rw [List.take_eq_take_iff]
        omega
      have hcount : (bytes.take (s.region.length - s.written)).length
          = min bytes.length (s.region.length - s.written) := by
        rw [List.length_take, Nat.min_comm]
      rw [if_neg hend, if_neg hend, sub_eq hle, pure_bind,
        addShort_eq (by rw [UInt32.size]; omega), pure_bind,
        slice_zero (Nat.min_le_left _ _), pure_bind, hkept, hcount]
      cases device.write (s.region.start.toNat + s.written)
        (bytes.take (s.region.length - s.written)) with
      | error e later => rfl
      | ok done later =>
        dsimp only
        rw [toShort_eq (by rw [UInt32.size]; omega), pure_bind,
          addShort_eq (by rw [UInt32.size]; omega), pure_bind]

theorem tellRegion_eq (h : RegionSink.Sane w) (call : Delivery) :
    tellRegion w call = pure (Sink.accept w call) := by
  cases call with
  | write bytes =>
    rw [tellRegion, writeRegion_eq h, pure_bind]
    rfl
  | _ => rfl

/-- No sum, no difference and no cut leaves the words of 32 bits. -/
theorem tellRegionAll_eq (h : RegionSink.Sane w) (calls : List Delivery) :
    tellRegionAll w calls = pure (Sink.acceptAll w calls) := by
  induction calls generalizing w with
  | nil => rfl
  | cons call calls ih =>
    rw [tellRegionAll, List.foldlM_cons, tellRegion_eq h, pure_bind]
    exact ih (RegionSink.touches_accept h call).2

end Machine

namespace RegionSink

/-- A sink for a region, whatever it is called with and whichever calls the device refuses. Nothing
in it leaves the words of 32 bits. It writes in its region only, one call on the device at most for
each call that it gets, and behind what is written already. From a reset on whose erase succeeded,
the region has the front of what was handed over, as far as it is written, and erased cells behind
that; while the sink is open it is all of it. After a call that the device refused, the sink has
failed and leaves the device alone. -/
theorem keeps_to_region (device : FlashDevice) (region : Region) (calls : List Delivery) :
    let new : FlashDevice × RegionSink := (device, { region })
    let w := Sink.acceptAll new calls
    Machine.tellRegionAll new calls = pure w ∧
      w.2.region = region ∧ w.2.written ≤ region.length ∧
      region.Confines device.cells w.1.cells ∧
      (∀ call, Touches w (Sink.accept w call)) ∧
      (∀ before after later, calls = before ++ .reset :: after → .reset ∉ after →
        (Sink.acceptAll new before).1.erase region.start.toNat region.stop.toNat = .ok () later →
          w.2.written ≤ (Delivery.written after).length ∧
          (w.2.isOpen = true → w.2.written = (Delivery.written after).length) ∧
          region.cells w.1.cells = (Delivery.written after).take w.2.written
            ++ List.replicate (region.length - w.2.written) 0xFF) ∧
      (∀ before call after, calls = before ++ call :: after → .reset ∉ after →
        let v := Sink.acceptAll new before
        Refused v (Sink.accept v call) →
          w.2.failed = true ∧ w.1 = (Sink.accept v call).1) := by
  intro new w
  have hnew : Sane new := sane_new device region
  have hregion (some : List Delivery) : (Sink.acceptAll new some).2.region = region :=
    region_acceptAll some new
  refine ⟨Machine.tellRegionAll_eq hnew calls, hregion calls, ?_, confines_acceptAll hnew calls,
    fun call => (touches_accept (hnew.acceptAll calls) call).1, ?_, ?_⟩
  · rw [← hregion calls]
    exact (hnew.acceptAll calls).written_le
  · intro before after later hcalls hafter herase
    rw [← hregion before] at herase
    have hholding := (Holding.reset herase).acceptAll hafter
    rw [← Sink.acceptAll_cons, ← Sink.acceptAll_append, ← hcalls, List.nil_append] at hholding
    have hcells := hholding.cells
    rw [hregion calls] at hcells
    exact ⟨hholding.handed, hholding.whole, hcells⟩
  · intro before call after hcalls hafter v hrefused
    obtain ⟨hfailed, hdevice⟩ := hrefused.acceptAll (hnew.acceptAll before) hafter
    rw [← Sink.acceptAll_cons, ← Sink.acceptAll_append, ← hcalls] at hfailed hdevice
    exact ⟨hfailed, hdevice⟩

/-- The second write is refused; the first one stays. -/
theorem keeps_to_region_of_four_cells :
    let device : FlashDevice := { cells := List.replicate 8 0, writeFault := fun n => n = 1 }
    let w := Sink.acceptAll (device, ({ region := ⟨2, 6⟩ } : RegionSink))
      [.reset, .setChunked true, .write [1, 2, 3], .write [4]]
    Region.cells ⟨2, 6⟩ w.1.cells = [1, 2, 3, 0xFF] ∧ w.2.failed = true := by
  intro device w
  obtain ⟨-, -, -, -, -, hholding, hfailing⟩ := keeps_to_region device ⟨2, 6⟩
    [.reset, .setChunked true, .write [1, 2, 3], .write [4]]
  have hwritten : w.2.written = 3 := rfl
  obtain ⟨-, -, hcells⟩ := hholding [] [.setChunked true, .write [1, 2, 3], .write [4]] _ rfl
    (by decide) rfl
  obtain ⟨hfailed, -⟩ := hfailing [.reset, .setChunked true, .write [1, 2, 3]] (.write [4]) [] rfl
    (by decide) ⟨.write 5 [4], .writeFailed, rfl⟩
  change Region.cells ⟨2, 6⟩ w.1.cells = _ at hcells
  rw [hwritten] at hcells
  exact ⟨hcells, hfailed⟩

end RegionSink

end DeviceHttp
