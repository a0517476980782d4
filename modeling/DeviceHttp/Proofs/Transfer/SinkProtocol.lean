import DeviceHttp.Proofs.Transfer.Attended
import DeviceHttp.Proofs.Transfer.Trails

/-!
# The protocol between a transaction and its sink

A sink is reset, and then it is told about one response or about none: `Delivery.Handover` is the
form of the calls that hand a response over. Only the last attempt of a transaction comes to that,
and only with a block of headers that was read to its end (`Client.execute_hands_over`), so nothing
of a response that is followed, refused or broken off in its headers reaches the sink.
-/

namespace DeviceHttp

open Window (crlf)

namespace Delivery

/-- The calls that hand a response to a sink: what its body is, its type if that is known, and the
body in slices that hold something and are not wider than the window. A body of known length does not
get longer than that, and is there whole if and only if the transaction succeeds; a body in chunks is
ended by an empty slice if and only if it does. -/
inductive Handover (capacity : Nat) (succeeds : Prop) : List Delivery → Prop
  | sized (n : Nat) (type : Option String) (slices : List Bytes)
    (nonempty : ∀ s ∈ slices, s ≠ []) (narrow : ∀ s ∈ slices, s.length ≤ capacity)
    (within : slices.flatten.length ≤ n) (whole : slices.flatten.length = n ↔ succeeds) :
    Handover capacity succeeds
      (.setLength n :: (type.map .setContentType).toList ++ slices.map .write)
  | chunked (type : Option String) (slices : List Bytes) (mark : List Delivery)
    (nonempty : ∀ s ∈ slices, s ≠ []) (narrow : ∀ s ∈ slices, s.length ≤ capacity)
    (ended : mark = [.write []] ∧ succeeds ∨ mark = [] ∧ ¬ succeeds) :
    Handover capacity succeeds
      (.setChunked true :: (type.map .setContentType).toList ++ slices.map .write ++ mark)

section Handed

variable {capacity : Nat} {block : HeaderBlock} {rest content : Bytes} {whole : Bool}
  {slices : List Bytes}

/-- The announcements, the slices and the end mark of a body are a handover, if the slices make up
the content and are neither empty nor too wide. Success and a whole body are the same here. -/
theorem handover_of_content {succeeds : Prop}
    (hframed : Content capacity rest block.framing content whole) (hcut : slices.flatten = content)
    (hne : ∀ s ∈ slices, s ≠ []) (hnarrow : ∀ s ∈ slices, s.length ≤ capacity)
    (hwhole : whole = true ↔ succeeds) :
    Handover capacity succeeds
      (block.announcement ++ slices.map .write ++ block.framing.endMark whole) := by
  unfold HeaderBlock.announcement
  generalize block.framing = framing at *
  cases hframed with
  | length n =>
    have hlength : slices.flatten.length = min n rest.length := by rw [hcut, List.length_take]
    have hmark : (Framing.length n).endMark (decide (n ≤ rest.length)) = [] := rfl
    rw [hmark, List.append_nil]
    refine .sized n block.contentType slices hne hnarrow ?_ ?_
    · rw [hlength]
      exact Nat.min_le_left _ _
    · rw [hlength, ← hwhole, decide_eq_true_iff]
      omega
  | chunks accepts =>
    exact .chunked block.contentType slices [.write []] hne hnarrow (.inl ⟨rfl, hwhole.1 rfl⟩)
  | cut rejects =>
    refine .chunked block.contentType slices [] hne hnarrow (.inr ⟨rfl, ?_⟩)
    intro hsucceeds
    cases hwhole.2 hsucceeds

/-- Of the calls for a body, the announcements are those that the header block makes. -/
theorem announcements_of_handed (slices : List Bytes) (framing : Framing) (whole : Bool) :
    announcements (block.announcement ++ slices.map .write ++ framing.endMark whole)
      = block.announcement := by
  have hkept : announcements block.announcement = block.announcement := by
    apply List.filter_eq_self.2
    intro call hcall
    have := HeaderBlock.isAnnouncement_of_mem hcall
    cases call with
    | write bytes => exact this.elim
    | _ => rfl
  have hslices : announcements (slices.map .write) = [] := by
    apply List.filter_eq_nil_iff.2
    intro call hcall
    obtain ⟨s, -, rfl⟩ := List.mem_map.1 hcall
    exact Bool.false_ne_true
  have hmark : announcements (framing.endMark whole) = [] := by
    rcases framing.endMark_cases whole with h | h <;> rw [h] <;> rfl
  rw [announcements, List.filter_append, List.filter_append]
  show announcements _ ++ announcements _ ++ announcements _ = _
  rw [hkept, hslices, hmark, List.append_nil, List.append_nil]

/-- Of the calls for a body, what is written is the slices one behind the other; the mark at the end
adds nothing. -/
theorem written_of_handed (block : HeaderBlock) (framing : Framing) (whole : Bool) :
    written (block.announcement ++ slices.map .write ++ framing.endMark whole)
      = slices.flatten := by
  have hannouncement : written block.announcement = [] := by
    apply List.flatMap_eq_nil_iff.2
    intro call hcall
    have := HeaderBlock.isAnnouncement_of_mem hcall
    cases call with
    | write bytes => exact this.elim
    | _ => rfl
  have hslices : written (slices.map .write) = slices.flatten := by
    induction slices with
    | nil => rfl
    | cons s slices ih => exact congrArg (s ++ ·) ih
  have hmark : written (framing.endMark whole) = [] := by
    rcases framing.endMark_cases whole with h | h <;> rw [h] <;> rfl
  rw [written_append, written_append, hannouncement, hslices, hmark, List.append_nil,
    List.nil_append]

end Handed

end Delivery

/-- What the last attempt of a transaction says to the sink: nothing, if it fails in front of a body,
or it hands its response over. -/
theorem Visit.hands_over {v : Visit} {method : Method} {timeout : Nat}
    (hends : ∀ location, (v.attempt method timeout).result ≠ .ok (.redirect location)) :
    let t := v.attempt method timeout
    t.deliveries = [] ∧ (∃ e, t.result = .error e) ∨
      Delivery.Handover v.capacity (t.result = .ok .complete) t.deliveries ∧
      ∃ code ls block rest content whole,
        Opens v.capacity (heard t.events) code ls block (crlf ++ rest) ∧
        (v.follows = true → block.location = none) ∧
        Content v.capacity rest block.framing content whole ∧
        Delivery.announcements t.deliveries = block.announcement ∧
        Delivery.written t.deliveries = content := by
  intro t
  cases v.attempt_ended method timeout with
  | refused result unopened calls => exact .inl ⟨calls, _, result⟩
  | fault result opens stay stuck calls => exact .inl ⟨calls, _, result⟩
  | redirect result => exact absurd result (hends _)
  | @body code ls block rest content whole slices result opens stay framed cut nonempty narrow
      calls =>
    rw [calls]
    refine .inr ⟨Delivery.handover_of_content framed cut nonempty narrow
      (complete_iff_whole result).symm, code, ls, block, rest, content, whole, opens, stay, framed,
      Delivery.announcements_of_handed slices block.framing whole, ?_⟩
    exact (Delivery.written_of_handed block block.framing whole).trans cut

/-- The sink of a transaction is reset and then told nothing, in which case the transaction fails, or
it is handed a response. That response is the one of the last attempt, whose status is accepted and
whose headers came to their end without a location to follow. Whatever the sink answers under way,
the transaction is the same. -/
theorem Client.execute_hands_over (c : Client) (method : Method) (address : String)
    (source : Option Source) (timeout : Nat) :
    let t := c.execute method address source timeout
    (∃ before last calls,
      Visit.Trail method timeout (c.firstVisit address source) (before ++ [last]) ∧
      t.events = .deliver .reset :: Visit.eventsOf method timeout (before ++ [last]) ∧
      t.deliveries = .reset :: calls ∧
      (calls = [] ∧ (∃ e, t.result = .error e) ∨
        Delivery.Handover c.window.capacity (t.result = .ok ()) calls ∧
        ∃ code ls block rest content whole,
          Opens c.window.capacity (heard (last.attempt method timeout).events) code ls block
            (crlf ++ rest) ∧
          (last.follows = true → block.location = none) ∧
          Content c.window.capacity rest block.framing content whole ∧
          Delivery.announcements calls = block.announcement ∧
          Delivery.written calls = content)) ∧
    ∀ (σ : Type) [Sink σ] (s : σ),
      c.executeInto method address source timeout s = (t, t.into s) := by
  intro t
  refine ⟨?_, fun σ _ s => executeInto_eq method address source timeout s c⟩
  obtain ⟨vs, htrail⟩ := Visit.exists_trail method timeout (c.firstVisit address source)
  obtain ⟨before, last, rfl, hcapacity, hends, hquiet, htransaction⟩ := htrail.concludes
  have hresult : t.result = (last.attempt method timeout).result.map fun _ => () :=
    congrArg Transaction.result htransaction
  have hevents : t.events = .deliver .reset :: Visit.eventsOf method timeout (before ++ [last]) :=
    congrArg (Event.deliver .reset :: Transaction.events ·) htransaction
  have hcalls : t.deliveries = .reset :: (last.attempt method timeout).deliveries := by
    have hlast : Visit.eventsOf method timeout (before ++ [last])
        = Visit.eventsOf method timeout before ++ (last.attempt method timeout).events := by
      simp [Visit.eventsOf]
    show deliveries t.events = _
    rw [hevents, hlast]
    show Delivery.reset :: deliveries (Visit.eventsOf method timeout before ++ _) = _
    rw [deliveries_append, hquiet]
    rfl
  refine ⟨before, last, _, htrail, hevents, hcalls, ?_⟩
  have hcapacity : last.capacity = c.window.capacity := hcapacity
  have hsucceeds : ((last.attempt method timeout).result = .ok .complete) = (t.result = .ok ()) := by
    rw [hresult, Visit.succeeds_iff hends]
  rw [← hcapacity, ← hsucceeds]
  rcases Visit.hands_over hends with ⟨hnone, e, herror⟩ | hhanded
  · exact .inl ⟨hnone, e, by rw [hresult, herror]; rfl⟩
  · exact .inr hhanded

end DeviceHttp
