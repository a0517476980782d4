import DeviceHttp.Text.Utf8
import Mathlib.Data.List.SplitLengths

/-!
# Taking bytes in portions

A body that is there whole is taken in portions, each as large as there is room for it at the time.
Portions that go on until nothing comes are all of the body (`Portions.flatten_of_nil_mem`), and it
comes to that (`Portions.nil_mem`).
-/

namespace DeviceHttp.Portions

variable {rooms : List Nat} {bytes : Bytes}

/-- A portion with room for something is empty only at the end, so all was taken before. -/
theorem flatten_of_nil_mem (hrooms : ∀ room ∈ rooms, 0 < room)
    (hover : [] ∈ rooms.splitLengths bytes) : (rooms.splitLengths bytes).flatten = bytes := by
  induction rooms generalizing bytes with
  | nil => cases hover
  | cons room rooms ih =>
    obtain ⟨hroom, hrooms⟩ := List.forall_mem_cons.1 hrooms
    rw [List.splitLengths_cons] at hover ⊢
    rcases List.mem_cons.1 hover with hnil | hlater
    · obtain rfl : bytes = [] :=
        (List.take_eq_nil_iff.1 hnil.symm).resolve_left (Nat.ne_of_gt hroom)
      rw [← List.splitLengths_cons]
      exact List.flatten_splitLengths [] (room :: rooms) (Nat.zero_le _)
    · rw [List.flatten_cons, ih hrooms hlater, List.take_append_drop]

/-- Every portion before takes at least one byte. -/
theorem nil_mem (hrooms : ∀ room ∈ rooms, 0 < room) (hlength : bytes.length < rooms.length) :
    [] ∈ rooms.splitLengths bytes := by
  induction rooms generalizing bytes with
  | nil => cases hlength
  | cons room rooms ih =>
    obtain ⟨hroom, hrooms⟩ := List.forall_mem_cons.1 hrooms
    rw [List.splitLengths_cons]
    by_cases hend : bytes = []
    · rw [hend, List.take_nil]
      exact List.mem_cons_self
    · have hsome := List.length_pos_iff.2 hend
      refine List.mem_cons_of_mem _ (ih hrooms ?_)
      rw [List.length_drop]
      rw [List.length_cons] at hlength
      omega

end DeviceHttp.Portions
