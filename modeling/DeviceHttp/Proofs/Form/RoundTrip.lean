import DeviceHttp.Form.Body
import DeviceHttp.Proofs.Form.Decoding
import DeviceHttp.Text.Portions

/-!
# A form sent and received

A form body is read in whatever sizes its reader has room for, and a form sink gets it in whatever
slices the network makes of it. The reads give the encoding of the pairs in portions
(`FormBody.reads_eq`), all of it if they go on until nothing comes, and the entries of the encoding
are the pairs (`Form.entries_encode`). The pairs come back as they were (`FormBody.reads_decoded`).
-/

namespace DeviceHttp

open Form (Entry Pair entries)

namespace FormBody

variable {rooms : List Nat}

/-- What reads with room for so many bytes give, one after the other. -/
def reads : List Nat → FormBody → List Bytes
  | [], _ => []
  | room :: rooms, b => (b.read room).1 :: reads rooms (b.read room).2

/-- Reads take what remains in portions. -/
theorem reads_eq (rooms : List Nat) (b : FormBody) :
    b.reads rooms = rooms.splitLengths b.remaining := by
  induction rooms generalizing b with
  | nil => rfl
  | cons room rooms ih => rw [reads, ih, List.splitLengths_cons, read_fst, remaining_read]

/-- Reads that go on until nothing comes give all that remains. -/
theorem flatten_reads_of_nil_mem {b : FormBody} (hrooms : ∀ room ∈ rooms, 0 < room)
    (hover : [] ∈ b.reads rooms) : (b.reads rooms).flatten = b.remaining := by
  rw [reads_eq] at hover ⊢
  exact Portions.flatten_of_nil_mem hrooms hover

/-- Nothing comes at last: every read before takes at least one byte of what remains. -/
theorem nil_mem_reads {b : FormBody} (hrooms : ∀ room ∈ rooms, 0 < room)
    (hlength : b.remaining.length < rooms.length) : [] ∈ b.reads rooms := by
  rw [reads_eq]
  exact Portions.nil_mem hrooms hlength

end FormBody

theorem Form.Entry.ofPair_injective {p q : Pair} (h : Entry.ofPair p = Entry.ofPair q) :
    p = q := by
  obtain ⟨hkey, hvalue⟩ := Prod.mk.inj h
  exact Prod.ext (Utf8.ofString_injective hkey) (Utf8.ofString_injective hvalue)

namespace FormSink

variable {ps : List Pair} {s : FormSink} {slices : List Bytes} {framing : Framing}

theorem isWhole_ofPair {p : Pair} (hkey : p.1.utf8ByteSize ≤ 64) (hvalue : p.2.utf8ByteSize ≤ 128) :
    isWhole (Entry.ofPair p) = true := by
  rw [isWhole_iff, Entry.ofPair, Utf8.length_ofString, Utf8.length_ofString,
    Utf8.toString?_ofString, Utf8.toString?_ofString]
  exact ⟨hkey, hvalue, rfl, rfl⟩

/-- A sink has the pairs of a body whose entries they are, if it has room for them. -/
theorem acceptAll_of_entries (hslices : ∀ slice ∈ slices, slice ≠ [])
    (hframing : framing.Announces slices.flatten)
    (hentries : entries slices.flatten = ps.map Entry.ofPair) (hcount : ps.length ≤ s.capacity)
    (hkey : ∀ p ∈ ps, p.1.utf8ByteSize ≤ 64) (hvalue : ∀ p ∈ ps, p.2.utf8ByteSize ≤ 128) :
    (Sink.acceptAll s (framing.calls slices)).pairs = ps ∧
      (Sink.acceptAll s (framing.calls slices)).overflowed = false := by
  have hclear : (Sink.acceptAll s (framing.calls slices)).overflowed = false := by
    rw [overflowed_acceptAll hslices hframing, hentries, List.forall_mem_map, List.length_map]
    exact ⟨fun p hp => isWhole_ofPair (hkey p hp) (hvalue p hp), hcount⟩
  have hpairs := map_ofPair_acceptAll_of_clear hslices hframing s hclear
  rw [hentries] at hpairs
  exact ⟨(List.map_inj_right fun p q => Entry.ofPair_injective).1 hpairs, hclear⟩

end FormSink

/-- Pairs that a sink has room for come back from their encoding. Whatever room each read has, the
reads come to an end and give as many bytes as were announced; and whatever slices are made of the
bytes, with that length announced or in chunks, the sink has the pairs in their order and notes
nothing. -/
theorem FormBody.reads_decoded {ps : List Pair} {s : FormSink} {rooms : List Nat}
    (hcount : ps.length ≤ s.capacity) (hkey : ∀ p ∈ ps, p.1.utf8ByteSize ≤ 64)
    (hvalue : ∀ p ∈ ps, p.2.utf8ByteSize ≤ 128) (hsome : ∀ p ∈ ps, p ≠ ("", ""))
    (hrooms : ∀ room ∈ rooms, 0 < room) :
    let body := FormBody.ofPairs ps
    (body.length < rooms.length → [] ∈ body.reads rooms) ∧
    ([] ∈ body.reads rooms →
      (body.reads rooms).flatten.length = body.length ∧
      ∀ (slices : List Bytes) (framing : Framing), (∀ slice ∈ slices, slice ≠ []) →
        slices.flatten = (body.reads rooms).flatten →
        framing = .chunked ∨ framing = .length body.length →
        (Sink.acceptAll s (framing.calls slices)).pairs = ps ∧
          (Sink.acceptAll s (framing.calls slices)).overflowed = false) := by
  intro body
  have hlength : (Form.encode ps).length = body.length := by
    have hpairs : body.pairs = ps := by cases ps <;> rfl
    rw [Form.length_encode, FormBody.length, hpairs]
  refine ⟨fun hmany => ?_, fun hover => ?_⟩
  · refine FormBody.nil_mem_reads hrooms ?_
    rwa [FormBody.remaining_ofPairs, hlength]
  · have hbytes : (body.reads rooms).flatten = Form.encode ps := by
      rw [FormBody.flatten_reads_of_nil_mem hrooms hover, FormBody.remaining_ofPairs]
    refine ⟨by rw [hbytes, hlength], fun slices framing hslices hsame hframing => ?_⟩
    rw [hbytes] at hsame
    refine FormSink.acceptAll_of_entries hslices ?_ ?_ hcount hkey hvalue
    · rwa [Framing.Announces, hsame, hlength]
    · rw [hsame, Form.entries_encode hsome]

/-- Texts with every separator, a space and a character of two bytes. The reads and the slices cut
escapes at different places. -/
theorem FormBody.reads_decoded_of_separators :
    let ps := [("a&b", "=+%"), ("ü", "x y")]
    let body := FormBody.ofPairs ps
    let rooms := List.replicate 12 3
    let slices := [Utf8.ofString "a%2", Utf8.ofString "6b=%3D%2B%", Utf8.ofString "25&%C",
      Utf8.ofString "3%BC=x+y"]
    let t := Sink.acceptAll ({ capacity := 2 } : FormSink)
      ((Framing.length body.length).calls slices)
    ([] ∈ body.reads rooms) ∧ slices.flatten = (body.reads rooms).flatten ∧
      (body.reads rooms).flatten.length = body.length ∧ t.pairs = ps ∧ t.overflowed = false := by
  intro ps body rooms slices t
  obtain ⟨-, hread⟩ := @FormBody.reads_decoded ps { capacity := 2 } rooms (by decide) (by decide)
    (by decide) (by decide) (by decide)
  have hover : [] ∈ body.reads rooms := by decide
  have hsame : slices.flatten = (body.reads rooms).flatten := by decide
  obtain ⟨hlength, hdecoded⟩ := hread hover
  exact ⟨hover, hsame, hlength, hdecoded slices _ (by decide) hsame (.inr rfl)⟩

end DeviceHttp
