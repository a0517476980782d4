import DeviceHttp.Body.Fixed
import DeviceHttp.Json.Sink
import DeviceHttp.Proofs.Json.Written
import DeviceHttp.Text.Portions

/-!
# A JSON body sent and received

A value is written into a source if its text fits there. Reads give the text in portions, of any
sizes, and a sink keeps the front of what it is handed, in slices of any sizes (`JsonSink.Keeps`). A
sink with room for the text reads the value back from it. A sink without notes that, and then reads
nothing, even where what it kept would be a value by itself (`Json.Survives`).
-/

namespace DeviceHttp

namespace FixedBody

/-- What reads with room for so many bytes give, one after the other. -/
def reads : List Nat → FixedBody → List Bytes
  | [], _ => []
  | room :: rooms, b => (b.read room).1 :: reads rooms (b.read room).2

/-- Reads take what is still to be read in portions. -/
theorem reads_eq (rooms : List Nat) (b : FixedBody) :
    b.reads rooms = rooms.splitLengths b.rest := by
  induction rooms generalizing b with
  | nil => rfl
  | cons room rooms ih => rw [reads, ih, List.splitLengths_cons, read]

/-- A value becomes a body exactly if its text fits, and the body is then that text. -/
theorem ofJson_eq_ok_iff {capacity : Nat} {value : Json.Value} {body : FixedBody} :
    ofJson capacity value = .ok body ↔
      value.write.length ≤ capacity ∧ body = ⟨Json.contentType, value.write, value.write⟩ := by
  unfold ofJson
  dsimp only
  split
  · next hle => simp [hle, eq_comm]
  · next hlong => simp [hlong]

end FixedBody

namespace JsonSink

/-- A sink with room for so many bytes has the front of a body, and notes whether that is not all. -/
structure Keeps (room : Nat) (body : Bytes) (s : JsonSink) : Prop where
  size : s.capacity = room
  front : s.body = body.take room
  cut : s.truncated = decide (room < body.length)

namespace Keeps

variable {room : Nat} {body : Bytes} {s : JsonSink}

/-- A slice comes behind what the sink holds, as far as there is room, and a slice that is cut marks
the sink. -/
theorem write (h : Keeps room body s) (slice : Bytes) :
    Keeps room (body ++ slice) (s.write slice).2 := by
  have hroom : s.capacity - s.body.length = room - body.length := by
    rw [h.size, h.front, List.length_take]
    omega
  refine ⟨h.size, ?_, ?_⟩
  · simp only [JsonSink.write]
    rw [hroom, h.front, List.take_append]
  · simp only [JsonSink.write]
    rw [hroom, h.cut, Bool.eq_iff_iff]
    simp only [Bool.or_eq_true, decide_eq_true_eq, List.length_take, List.length_append]
    omega

theorem writeAll (h : Keeps room body s) (slices : List Bytes) :
    Keeps room (body ++ slices.flatten) (Sink.acceptAll s (slices.map .write)) := by
  induction slices generalizing body s with
  | nil => simpa using h
  | cons slice slices ih =>
    have hlater := ih (h.write slice)
    rwa [List.append_assoc] at hlater

/-- A body that a sink has room for is read as it is. -/
theorem parse_of_fits {α : Type} {reader : Json.Reader α} (h : Keeps room body s)
    (hfits : body.length ≤ room) : s.truncated = false ∧ s.parse reader = Json.read reader body := by
  have hwhole : s.truncated = false := h.cut.trans (decide_eq_false (Nat.not_lt.2 hfits))
  refine ⟨hwhole, ?_⟩
  rw [parse, hwhole, h.front, List.take_of_length_le hfits]
  rfl

/-- A body that a sink has no room for is not read. -/
theorem parse_of_long {α : Type} {reader : Json.Reader α} (h : Keeps room body s)
    (hlong : room < body.length) : s.truncated = true ∧ s.parse reader = .error .endInValue := by
  have hcut : s.truncated = true := h.cut.trans (decide_eq_true hlong)
  refine ⟨hcut, ?_⟩
  rw [parse, hcut]
  rfl

end Keeps

/-- What a sink has of the slices that came behind a reset. -/
theorem keeps_acceptAll (slices : List Bytes) (s : JsonSink) :
    Keeps s.capacity slices.flatten (Sink.acceptAll (Sink.reset s) (slices.map .write)) := by
  have hstart : Keeps s.capacity [] (Sink.reset s) := ⟨rfl, List.take_nil.symm, rfl⟩
  exact hstart.writeAll slices

end JsonSink

/-- The value is read back from its text, wherever it is read and however it is cut on its way. -/
structure Json.Survives {α : Type} (value : Json.Value) (reader : Json.Reader α) (a : α) :
    Prop where
  /-- The text is put into a source exactly if it fits. -/
  source : ∀ capacity,
    (∃ body, FixedBody.ofJson capacity value = .ok body) ↔ value.write.length ≤ capacity
  /-- Reads come to an end, and give the text. -/
  reads : ∀ capacity body rooms, FixedBody.ofJson capacity value = .ok body →
    (∀ room ∈ rooms, 0 < room) →
    (value.write.length < rooms.length → [] ∈ body.reads rooms) ∧
      ([] ∈ body.reads rooms → (body.reads rooms).flatten = value.write)
  /-- A sink with room for the text has the value. -/
  fits : ∀ (slices : List Bytes) (s : JsonSink), slices.flatten = value.write →
    value.write.length ≤ s.capacity →
    let t := Sink.acceptAll (Sink.reset s) (slices.map .write)
    t.truncated = false ∧ t.parse reader = .ok a
  /-- A sink without has none. -/
  long : ∀ (slices : List Bytes) (s : JsonSink), slices.flatten = value.write →
    s.capacity < value.write.length →
    let t := Sink.acceptAll (Sink.reset s) (slices.map .write)
    t.truncated = true ∧ ∃ e, t.parse reader = .error e

namespace Json

/-- A value whose text is read back survives: it is sent as it is written, and a sink with room for
the text gives it to the reader. -/
theorem survives_of_read {α : Type} {value : Value} {reader : Reader α} {a : α}
    (h : read reader value.write = .ok a) : Survives value reader a where
  source capacity := by
    simp only [FixedBody.ofJson_eq_ok_iff, exists_and_left, exists_eq, and_true]
  reads capacity body rooms hbody hrooms := by
    obtain ⟨-, rfl⟩ := FixedBody.ofJson_eq_ok_iff.1 hbody
    rw [FixedBody.reads_eq]
    exact ⟨Portions.nil_mem hrooms, Portions.flatten_of_nil_mem hrooms⟩
  fits slices s hslices hfits := by
    have hkeeps := JsonSink.keeps_acceptAll slices s
    rw [hslices] at hkeeps
    exact h ▸ hkeeps.parse_of_fits hfits
  long slices s hslices hlong := by
    have hkeeps := JsonSink.keeps_acceptAll slices s
    rw [hslices] at hkeeps
    obtain ⟨hcut, hparse⟩ := hkeeps.parse_of_long hlong
    exact ⟨hcut, _, hparse⟩

/-- The records of a device come through, whatever is in their texts but what would be escaped. -/
theorem records_survive :
    (∀ r : Reading, IsPlain r.sensor → -0x80000000 ≤ r.value → r.value < 0x80000000 →
      Survives r.toJson Reading.read r) ∧
    ∀ d : DeviceStatus, IsPlain d.state → d.uptime < UInt32.size →
      Survives d.toJson DeviceStatus.read d := by
  constructor
  · intro r hsensor hlow hhigh
    exact survives_of_read (Reading.read_write hsensor hlow hhigh)
  · intro d hstate huptime
    exact survives_of_read (DeviceStatus.read_write hstate huptime)

/-- The least value there is, beside a character of two bytes. -/
theorem records_survive_of_least_value :
    let r : Reading := ⟨"Fühler", -2147483648⟩
    r.toJson.write = Utf8.ofString "\x7b\"sensor\":\"Fühler\",\"value\":-2147483648\x7d" ∧
      Survives r.toJson Reading.read r :=
  ⟨by decide +kernel, records_survive.1 _ (by decide) (by decide) (by decide)⟩

end Json

end DeviceHttp
