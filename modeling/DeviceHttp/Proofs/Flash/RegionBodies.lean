import DeviceHttp.Flash.RegionSink
import DeviceHttp.Proofs.Transfer.Outline

/-!
# Bodies in regions

A sink that writes to a region makes at most one call on the device for each call that it gets, and
that lies in the region, behind what is written already (`RegionSink.touches_accept`). So no cell
outside of the region changes, and from an erase on the region holds what was handed over, as far as
it is written, and erased cells behind it (`RegionSink.Holding`).
-/

namespace DeviceHttp

/-! ## Cells -/

namespace FlashDevice

variable {cells bytes : Bytes} {offset : Nat}

theorem length_overwrite (h : offset + bytes.length ≤ cells.length) :
    (overwrite cells offset bytes).length = cells.length := by
  simp only [overwrite, List.length_append, List.length_take, List.length_drop]
  omega

/-- A cell outside of what is written stays as it is. -/
theorem getElem?_overwrite {i : Nat} (h : offset + bytes.length ≤ cells.length)
    (hi : i < offset ∨ offset + bytes.length ≤ i) : (overwrite cells offset bytes)[i]? = cells[i]? := by
  have hfront : (cells.take offset).length = offset := by
    rw [List.length_take]
    omega
  unfold overwrite
  rcases hi with hi | hi
  · rw [List.append_assoc, List.getElem?_append_left (by omega), List.getElem?_take_of_lt hi]
  · have hmiddle : (cells.take offset ++ bytes).length = offset + bytes.length := by
      rw [List.length_append, hfront]
    rw [List.getElem?_append_right (by omega), hmiddle, List.getElem?_drop,
      Nat.add_sub_cancel' hi]

/-- Carry a call out. -/
def perform : FlashCall → EStateM StorageError FlashDevice Unit
  | .erase start stop => erase start stop
  | .write offset bytes => write offset bytes

variable {d later : FlashDevice} {call : FlashCall} {start stop : Nat}

/-- A call that is refused changes no cell. -/
theorem eq_of_perform_error {e : StorageError} (h : d.perform call = .error e later) :
    later = { d with calls := d.calls ++ [call] } := by
  cases call with
  | erase start stop =>
    change erase start stop d = _ at h
    grind [erase]
  | write offset bytes =>
    change write offset bytes d = _ at h
    grind [write]

/-- A call of the device that succeeds is noted like any other. -/
theorem calls_of_perform_ok (h : d.perform call = .ok () later) :
    later.calls = d.calls ++ [call] := by
  cases call with
  | erase start stop =>
    change erase start stop d = _ at h
    grind [erase]
  | write offset bytes =>
    change write offset bytes d = _ at h
    grind [write]

theorem of_erase_ok (h : erase start stop d = .ok () later) :
    start ≤ stop ∧ stop ≤ d.cells.length ∧
      later.cells = overwrite d.cells start (List.replicate (stop - start) erased) := by
  grind [erase]

theorem of_write_ok (h : write offset bytes d = .ok () later) :
    offset + bytes.length ≤ d.cells.length ∧ later.cells = overwrite d.cells offset bytes := by
  grind [write]

end FlashDevice

/-! ## Regions -/

namespace Region

/-- The cells of a region. -/
def cells (r : Region) (all : Bytes) : Bytes :=
  (all.drop r.start.toNat).take r.length

/-- A device has as many cells as before, and those outside of the region are as they were. -/
structure Confines (r : Region) (before after : Bytes) : Prop where
  length : after.length = before.length
  outside : ∀ i, i < r.start.toNat ∨ r.stop.toNat ≤ i → after[i]? = before[i]?

theorem Confines.refl (r : Region) (all : Bytes) : r.Confines all all :=
  ⟨rfl, fun _ _ => rfl⟩

theorem Confines.trans {r : Region} {first second third : Bytes} (h : r.Confines first second)
    (h' : r.Confines second third) : r.Confines first third :=
  ⟨h'.length.trans h.length, fun i hi => (h'.outside i hi).trans (h.outside i hi)⟩

/-- What is written from the start of the region or behind it, and not past its end. -/
theorem confines_overwrite {r : Region} {all bytes : Bytes} {offset : Nat}
    (hstart : r.start.toNat ≤ offset) (hstop : offset + bytes.length ≤ r.stop.toNat)
    (hfits : offset + bytes.length ≤ all.length) :
    r.Confines all (FlashDevice.overwrite all offset bytes) :=
  ⟨FlashDevice.length_overwrite hfits, fun i hi =>
    FlashDevice.getElem?_overwrite hfits (by omega)⟩

/-- To the cells of a region, a write into it is a write at the place counted from its start. -/
theorem cells_overwrite {r : Region} {all bytes : Bytes} {k : Nat}
    (hk : k + bytes.length ≤ r.length) (hall : r.start.toNat + r.length ≤ all.length) :
    r.cells (FlashDevice.overwrite all (r.start.toNat + k) bytes)
      = FlashDevice.overwrite (r.cells all) k bytes := by
  have hfront : ((all.drop r.start.toNat).take k).length = k := by
    rw [List.length_take, List.length_drop]
    omega
  have htake : (all.take (r.start.toNat + k)).drop r.start.toNat
      = (all.drop r.start.toNat).take k := by
    rw [List.drop_take, Nat.add_sub_cancel_left]
  have hlength : (all.take (r.start.toNat + k)).length = r.start.toNat + k := by
    rw [List.length_take]
    omega
  calc r.cells (FlashDevice.overwrite all (r.start.toNat + k) bytes)
      = ((all.drop r.start.toNat).take k
          ++ (bytes ++ all.drop (r.start.toNat + k + bytes.length))).take r.length := by
        rw [cells, FlashDevice.overwrite, List.append_assoc,
          List.drop_append_of_le_length (by omega), htake]
    _ = (all.drop r.start.toNat).take k ++ (bytes
          ++ (all.drop (r.start.toNat + k + bytes.length)).take (r.length - k - bytes.length)) := by
        have hkept : ((all.drop r.start.toNat).take k).take r.length
            = (all.drop r.start.toNat).take k := List.take_of_length_le (by omega)
        have hwhole : bytes.take (r.length - k) = bytes := List.take_of_length_le (by omega)
        rw [List.take_append, hfront, hkept, List.take_append, hwhole]
    _ = FlashDevice.overwrite (r.cells all) k bytes := by
        rw [FlashDevice.overwrite, cells, List.take_take, Nat.min_eq_left (by omega),
          List.drop_take, List.drop_drop, List.append_assoc, Nat.add_assoc, Nat.sub_sub]

/-- What is written over the whole region is what it has. -/
theorem cells_overwrite_all {r : Region} {all bytes : Bytes} (hbytes : bytes.length = r.length)
    (hall : r.start.toNat + r.length ≤ all.length) :
    r.cells (FlashDevice.overwrite all r.start.toNat bytes) = bytes := by
  have hcells : (r.cells all).length ≤ r.length := List.length_take_le _ _
  have hsame := cells_overwrite (k := 0) (by omega : 0 + bytes.length ≤ r.length) hall
  rw [Nat.add_zero] at hsame
  rw [hsame, FlashDevice.overwrite, List.take_zero, List.drop_eq_nil_of_le (by omega),
    List.append_nil, List.nil_append]

/-- A write behind `front`, to cells that are erased. -/
theorem overwrite_erased (front bytes : Bytes) (n : Nat) :
    FlashDevice.overwrite (front ++ List.replicate n FlashDevice.erased) front.length bytes
      = front ++ bytes ++ List.replicate (n - bytes.length) FlashDevice.erased := by
  rw [FlashDevice.overwrite, List.take_left, ← List.drop_drop, List.drop_left,
    List.drop_replicate]

end Region

/-- A call keeps to a region of which so many cells are written: it erases the region, or it writes
behind those cells. -/
def FlashCall.KeepsTo (r : Region) (written : Nat) : FlashCall → Prop
  | erase start stop => start = r.start.toNat ∧ stop = r.stop.toNat
  | write offset bytes =>
    offset = r.start.toNat + written ∧ offset + bytes.length ≤ r.stop.toNat

namespace RegionSink

/-! ## What a sink does to its device -/

section Steps

variable {w v : FlashDevice × RegionSink}

/-- What a call to a sink does to its device: it makes no call or one, which keeps to the region; and
if that is refused, the sink has failed. -/
inductive Touches (w v : FlashDevice × RegionSink) : Prop
  | nothing (same : v.1 = w.1)
  | carried (call : FlashCall) (within : call.KeepsTo w.2.region w.2.written)
    (done : w.1.perform call = .ok () v.1)
  | refused (call : FlashCall) (within : call.KeepsTo w.2.region w.2.written) (e : StorageError)
    (error : w.1.perform call = .error e v.1) (failed : v.2.failed = true)
    (closed : v.2.isOpen = false)

/-- A sink has not written more than its region holds, and an open one has a region that does not
stop before it starts. -/
structure Sane (w : FlashDevice × RegionSink) : Prop where
  written_le : w.2.written ≤ w.2.region.length
  ordered : w.2.isOpen = true → w.2.region.start.toNat ≤ w.2.region.stop.toNat

theorem sane_new (device : FlashDevice) (region : Region) : Sane (device, { region }) :=
  ⟨Nat.zero_le _, nofun⟩

theorem Sane.setLength (h : Sane w) (n : Nat) : Sane (w.1, w.2.setLength n) := by
  unfold RegionSink.setLength
  dsimp only
  split
  · exact ⟨h.written_le, nofun⟩
  · exact ⟨h.written_le, h.ordered⟩

/-- A sink keeps its region, whatever it is called with. -/
theorem region_accept (w : FlashDevice × RegionSink) (call : Delivery) :
    (Sink.accept w call).2.region = w.2.region := by
  obtain ⟨device, s⟩ := w
  cases call with
  | reset =>
    show (reset (device, s)).2.region = s.region
    unfold reset
    dsimp only
    split <;> rfl
  | setLength n =>
    show (s.setLength n).region = s.region
    unfold RegionSink.setLength
    dsimp only
    split <;> rfl
  | setChunked on => rfl
  | setContentType value => rfl
  | write slice =>
    show (write slice (device, s)).2.2.region = s.region
    unfold write
    dsimp only
    split
    · rfl
    · split
      · split <;> rfl
      · split
        · rfl
        · dsimp only
          split <;> rfl

/-- A sink is reset: its region is erased, or the sink has failed. -/
theorem touches_reset (w : FlashDevice × RegionSink) : Touches w (reset w) ∧ Sane (reset w) := by
  obtain ⟨device, s⟩ := w
  unfold reset
  dsimp only
  split
  · next later h =>
    exact ⟨.carried (.erase s.region.start.toNat s.region.stop.toNat) ⟨rfl, rfl⟩ h,
      Nat.zero_le _, fun _ => (FlashDevice.of_erase_ok h).1⟩
  · next e later h =>
    exact ⟨.refused (.erase s.region.start.toNat s.region.stop.toNat) ⟨rfl, rfl⟩ e h rfl rfl,
      Nat.zero_le _, nofun⟩

/-- A slice is written behind what is written already, as far as the region has room for it. One
that does not fit closes the sink and touches nothing. -/
theorem touches_write (h : Sane w) (slice : Bytes) :
    Touches w (write slice w).2 ∧ Sane (write slice w).2 := by
  obtain ⟨device, s⟩ := w
  have hle : s.written ≤ s.region.length := h.written_le
  unfold write
  dsimp only
  split
  · exact ⟨.nothing rfl, h⟩
  · next hopen =>
    split
    · split
      · exact ⟨.nothing rfl, hle, nofun⟩
      · exact ⟨.nothing rfl, h⟩
    · have hordered : s.region.start.toNat ≤ s.region.stop.toNat := h.ordered (by simpa using hopen)
      have hkept : (slice.take (s.region.length - s.written)).length
          ≤ s.region.length - s.written := List.length_take_le _ _
      generalize slice.take (s.region.length - s.written) = kept at hkept ⊢
      have hkeeps : (FlashCall.write (s.region.start.toNat + s.written) kept).KeepsTo s.region
          s.written := by
        refine ⟨rfl, ?_⟩
        rw [Region.length] at hle hkept
        omega
      split
      · next e later herror => exact ⟨.refused _ hkeeps e herror rfl rfl, hle, nofun⟩
      · next later hdone =>
        have hwritten : s.written + kept.length ≤ s.region.length := by omega
        dsimp only
        split
        · exact ⟨.carried _ hkeeps hdone, hwritten, nofun⟩
        · exact ⟨.carried _ hkeeps hdone, hwritten, fun _ => hordered⟩

/-- A call to a sink touches the device in its region, or not at all. -/
theorem touches_accept (h : Sane w) (call : Delivery) :
    Touches w (Sink.accept w call) ∧ Sane (Sink.accept w call) := by
  cases call with
  | reset => exact touches_reset w
  | setLength n => exact ⟨.nothing rfl, h.setLength n⟩
  | setChunked on => exact ⟨.nothing rfl, h.written_le, h.ordered⟩
  | setContentType value => exact ⟨.nothing rfl, h⟩
  | write slice => exact touches_write h slice

/-- What a call changes lies in the region. -/
theorem Touches.confines (h : Touches w v) : w.2.region.Confines w.1.cells v.1.cells := by
  cases h with
  | nothing same =>
    rw [same]
    exact .refl _ _
  | refused call within e error =>
    rw [FlashDevice.eq_of_perform_error error]
    exact .refl _ _
  | carried call within done =>
    cases call with
    | erase start stop =>
      obtain ⟨rfl, rfl⟩ := within
      obtain ⟨hordered, hfits, hcells⟩ := FlashDevice.of_erase_ok done
      rw [hcells]
      apply Region.confines_overwrite (Nat.le_refl _) <;> rw [List.length_replicate] <;> omega
    | write offset bytes =>
      obtain ⟨rfl, hstop⟩ := within
      obtain ⟨hfits, hcells⟩ := FlashDevice.of_write_ok done
      rw [hcells]
      exact Region.confines_overwrite (Nat.le_add_right _ _) hstop hfits

end Steps

/-! ## Many calls -/

section Runs

variable {w : FlashDevice × RegionSink}

theorem region_acceptAll (calls : List Delivery) (w : FlashDevice × RegionSink) :
    (Sink.acceptAll w calls).2.region = w.2.region := by
  induction calls generalizing w with
  | nil => rfl
  | cons call calls ih => exact (ih _).trans (region_accept w call)

theorem Sane.acceptAll (h : Sane w) (calls : List Delivery) : Sane (Sink.acceptAll w calls) := by
  induction calls generalizing w with
  | nil => exact h
  | cons call calls ih => exact ih (touches_accept h call).2

/-- Whatever a sink is called with, cells outside of its region are as they were. -/
theorem confines_acceptAll (h : Sane w) (calls : List Delivery) :
    w.2.region.Confines w.1.cells (Sink.acceptAll w calls).1.cells := by
  induction calls generalizing w with
  | nil => exact .refl _ _
  | cons call calls ih =>
    obtain ⟨htouches, hnext⟩ := touches_accept h call
    have hrest := ih hnext
    rw [region_accept] at hrest
    exact htouches.confines.trans hrest

/-- A sink that is closed leaves the device alone until it is reset, and does not forget whether it
has failed. -/
theorem closed_accept {call : Delivery} (h : w.2.isOpen = false) (hcall : call ≠ .reset) :
    (Sink.accept w call).1 = w.1 ∧ (Sink.accept w call).2.isOpen = false ∧
      (Sink.accept w call).2.failed = w.2.failed := by
  obtain ⟨device, s⟩ := w
  cases call with
  | reset => exact absurd rfl hcall
  | setLength n =>
    show device = device ∧ (s.setLength n).isOpen = false ∧ (s.setLength n).failed = s.failed
    unfold RegionSink.setLength
    dsimp only
    split
    · exact ⟨rfl, rfl, rfl⟩
    · exact ⟨rfl, h, rfl⟩
  | setChunked on => exact ⟨rfl, h, rfl⟩
  | setContentType value => exact ⟨rfl, h, rfl⟩
  | write slice =>
    show (write slice (device, s)).2.1 = device ∧ (write slice (device, s)).2.2.isOpen = false ∧
      (write slice (device, s)).2.2.failed = s.failed
    unfold write
    dsimp only
    rw [if_pos h]
    exact ⟨rfl, h, rfl⟩

/-- A closed sink does nothing until it is reset, and so neither the device nor the failure on
record changes. -/
theorem closed_acceptAll {calls : List Delivery} (h : w.2.isOpen = false)
    (hcalls : .reset ∉ calls) :
    (Sink.acceptAll w calls).1 = w.1 ∧ (Sink.acceptAll w calls).2.failed = w.2.failed := by
  induction calls generalizing w with
  | nil => exact ⟨rfl, rfl⟩
  | cons call calls ih =>
    rw [List.mem_cons, not_or] at hcalls
    obtain ⟨hdevice, hclosed, hfailed⟩ := closed_accept h fun hcall => hcalls.1 hcall.symm
    obtain ⟨hdevice', hfailed'⟩ := ih hclosed hcalls.2
    exact ⟨hdevice'.trans hdevice, hfailed'.trans hfailed⟩

/-- A call to a sink made a call on the device, which was refused. -/
def Refused (w v : FlashDevice × RegionSink) : Prop :=
  ∃ call e, w.1.perform call = .error e v.1

/-- After a call that the device refused, the sink has failed and leaves it alone, whatever else
comes of the body. -/
theorem Refused.acceptAll {call : Delivery} {calls : List Delivery} (hsane : Sane w)
    (h : Refused w (Sink.accept w call)) (hcalls : .reset ∉ calls) :
    (Sink.acceptAll (Sink.accept w call) calls).2.failed = true ∧
      (Sink.acceptAll (Sink.accept w call) calls).1 = (Sink.accept w call).1 := by
  obtain ⟨made, e, herror⟩ := h
  have hmade := FlashDevice.eq_of_perform_error herror
  cases (touches_accept hsane call).1 with
  | nothing same =>
    have hlength := congrArg (fun d : FlashDevice => d.calls.length) (same.symm.trans hmade)
    simp at hlength
  | carried other within done =>
    have hcalls := FlashDevice.calls_of_perform_ok done
    rw [hmade] at hcalls
    obtain rfl : made = other := by simpa using hcalls
    cases herror.symm.trans done
  | refused other within e' error failed closed =>
    obtain ⟨hdevice, hfailed⟩ := closed_acceptAll closed hcalls
    exact ⟨hfailed.trans failed, hdevice⟩

end Runs

/-! ## What is in the region -/

/-- The region has been erased and the sink has been handed `body`; the region has the front of it,
as far as it is written, and is erased behind that. An open sink has written all of it. -/
structure Holding (body : Bytes) (w : FlashDevice × RegionSink) : Prop where
  ordered : w.2.region.start.toNat ≤ w.2.region.stop.toNat
  fits : w.2.region.stop.toNat ≤ w.1.cells.length
  written_le : w.2.written ≤ w.2.region.length
  handed : w.2.written ≤ body.length
  cells : w.2.region.cells w.1.cells = body.take w.2.written
    ++ List.replicate (w.2.region.length - w.2.written) FlashDevice.erased
  whole : w.2.isOpen = true → w.2.written = body.length

namespace Holding

variable {w : FlashDevice × RegionSink} {body : Bytes}

/-- A sink whose region was erased has nothing in it. -/
theorem reset {later : FlashDevice} (h : w.1.erase w.2.region.start.toNat w.2.region.stop.toNat
    = .ok () later) : Holding [] (Sink.accept w .reset) := by
  obtain ⟨device, s⟩ := w
  obtain ⟨hordered, hfits, hcells⟩ := FlashDevice.of_erase_ok h
  have hreset : Sink.accept (device, s) .reset
      = (later, { region := s.region, isOpen := true }) := by
    show RegionSink.reset (device, s) = _
    unfold RegionSink.reset
    dsimp only at h ⊢
    rw [h]
  dsimp only at hordered hfits hcells
  have hroom : s.region.start.toNat + s.region.length ≤ device.cells.length := by
    rw [Region.length]
    omega
  rw [hreset]
  refine ⟨hordered, ?_, Nat.zero_le _, Nat.zero_le _, ?_, fun _ => rfl⟩
  · show s.region.stop.toNat ≤ later.cells.length
    rw [hcells, FlashDevice.length_overwrite]
    · exact hfits
    · rw [List.length_replicate]
      omega
  · show s.region.cells later.cells = List.replicate s.region.length FlashDevice.erased
    rw [hcells, ← Region.length]
    exact Region.cells_overwrite_all List.length_replicate hroom

/-- A sink that goes on with its device as it is holds what it held, if it does not open again. -/
theorem of_same {v : FlashDevice × RegionSink} (h : Holding body w) (hdevice : v.1.cells = w.1.cells)
    (hregion : v.2.region = w.2.region) (hwritten : v.2.written = w.2.written)
    (hopen : v.2.isOpen = true → w.2.isOpen = true) : Holding body v := by
  obtain ⟨device, s⟩ := w
  obtain ⟨device', s'⟩ := v
  dsimp only at hdevice hregion hwritten hopen
  refine ⟨?_, ?_, ?_, ?_, ?_, fun h' => ?_⟩
  · show s'.region.start.toNat ≤ s'.region.stop.toNat
    rw [hregion]
    exact h.ordered
  · show s'.region.stop.toNat ≤ device'.cells.length
    rw [hregion, hdevice]
    exact h.fits
  · show s'.written ≤ s'.region.length
    rw [hregion, hwritten]
    exact h.written_le
  · show s'.written ≤ body.length
    rw [hwritten]
    exact h.handed
  · show s'.region.cells device'.cells = body.take s'.written ++ _
    rw [hregion, hdevice, hwritten]
    exact h.cells
  · show s'.written = body.length
    rw [hwritten]
    exact h.whole (hopen h')

/-- What is handed to a closed sink changes nothing. -/
theorem of_closed (h : Holding body w) (hclosed : w.2.isOpen = false) (slice : Bytes) :
    Holding (body ++ slice) w := by
  refine ⟨h.ordered, h.fits, h.written_le, ?_, ?_, fun hopen => ?_⟩
  · rw [List.length_append]
    exact Nat.le_trans h.handed (Nat.le_add_right _ _)
  · rw [List.take_append_of_le_length h.handed]
    exact h.cells
  · cases hclosed.symm.trans hopen

/-- A slice is written behind what the region holds, if it fits and the device takes it. Otherwise
the sink is closed, and the region keeps the front that it has. -/
theorem write (h : Holding body w) (slice : Bytes) :
    Holding (body ++ slice) (RegionSink.write slice w).2 := by
  obtain ⟨device, s⟩ := w
  unfold RegionSink.write
  dsimp only
  split
  · next hclosed => exact h.of_closed hclosed slice
  · next hopen =>
    have hwhole : s.written = body.length := h.whole (by simpa using hopen)
    split
    · next hend =>
      rw [hend, List.append_nil]
      split
      · exact h.of_same rfl rfl rfl nofun
      · exact h
    · split
      · next e later herror =>
        have hlater := FlashDevice.eq_of_perform_error
          (show device.perform (.write _ _) = .error e later from herror)
        have hcells : later.cells = device.cells := by rw [hlater]
        have hfailed : Holding body (later, s.fail) := h.of_same hcells rfl rfl nofun
        exact hfailed.of_closed rfl slice
      · next later hdone =>
        obtain ⟨hordered, hfits, hle, -, hcells, -⟩ := h
        dsimp only at hordered hfits hle hcells
        obtain ⟨hroom, hlater⟩ := FlashDevice.of_write_ok hdone
        have hkept : (slice.take (s.region.length - s.written)).length
            = min (s.region.length - s.written) slice.length := List.length_take
        have hfront : slice.take (slice.take (s.region.length - s.written)).length
            = slice.take (s.region.length - s.written) := by
          rw [hkept, List.take_eq_take_iff]
          omega
        generalize slice.take (s.region.length - s.written) = kept at *
        have hhanded : s.written + kept.length ≤ (body ++ slice).length := by
          rw [List.length_append]
          omega
        have hstop : s.region.stop.toNat ≤ later.cells.length := by
          rw [hlater, FlashDevice.length_overwrite hroom]
          exact hfits
        have hnow : s.region.cells later.cells = (body ++ slice).take (s.written + kept.length)
            ++ List.replicate (s.region.length - (s.written + kept.length))
              FlashDevice.erased := by
          rw [hwhole, List.take_length] at hcells
          rw [hlater, Region.cells_overwrite (by omega) (by rw [Region.length]; omega), hcells,
            hwhole, Region.overwrite_erased, List.take_length_add_append, hfront, Nat.sub_sub]
        dsimp only
        split
        · exact ⟨hordered, hstop, by dsimp only [close]; omega, hhanded, hnow, nofun⟩
        · next hmore =>
          refine ⟨hordered, hstop, by dsimp only; omega, hhanded, hnow, fun _ => ?_⟩
          -- a region that is not full has taken the whole slice
          have hfull : s.written + kept.length ≠ s.region.length := fun h => hmore (.inr h)
          dsimp only
          rw [List.length_append]
          omega

theorem setLength (h : Holding body w) (n : Nat) : Holding body (w.1, w.2.setLength n) := by
  unfold RegionSink.setLength
  dsimp only
  split
  · exact h.of_same rfl rfl rfl nofun
  · exact h.of_same rfl rfl rfl id

theorem acceptAll {calls : List Delivery} (h : Holding body w) (hcalls : .reset ∉ calls) :
    Holding (body ++ Delivery.written calls) (Sink.acceptAll w calls) :=
  Sink.acceptAll_written (fun n h => h.setLength n) (fun _ h => h.of_same rfl rfl rfl id)
    (fun _ h => h) (fun slice h => h.write slice) h hcalls

end Holding

end RegionSink

end DeviceHttp
