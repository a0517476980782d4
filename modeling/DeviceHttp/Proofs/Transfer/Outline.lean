import DeviceHttp.Transfer.Event

/-!
# Events without their cuts

How often a client receives, and into how many slices it cuts a body, is decided by the pieces in
which the response arrives. The outline of a list of events leaves the receives out and cuts every
slice into single bytes; an empty slice, which ends a chunked body, stays. What an outline still
tells is told by the projections below: the requests, and the three kinds of calls to a sink.
-/

namespace DeviceHttp

/-- The bytes of a body, each one in a slice of its own. -/
def bytewise (body : Bytes) : List Event :=
  body.map fun b => .deliver (.write [b])

namespace Event

/-- An event without its cuts. -/
def outline : Event → List Event
  | receive _ _ _ _ => []
  | deliver (.write (b :: bs)) => bytewise (b :: bs)
  | e => [e]

/-- Whether an event opens a connection, sends on it or closes it. -/
def isRequest : Event → Bool
  | connect _ _ _ => true
  | send _ _ _ => true
  | close => true
  | _ => false

/-- The bytes that an event brings. -/
def received : Event → Bytes
  | receive _ _ _ bytes => bytes.getD []
  | _ => []

end Event

/-- A list of events without their cuts. -/
def outline (events : List Event) : List Event :=
  events.flatMap Event.outline

/-- What a list of events does to connections, the receives left out. -/
def requests (events : List Event) : List Event :=
  events.filter Event.isRequest

/-- How many bytes a list of events brings. -/
def received (events : List Event) : Nat :=
  (events.flatMap Event.received).length

namespace Delivery

/-- The calls that announce a body. -/
def announcements (calls : List Delivery) : List Delivery :=
  calls.filter fun
    | write _ => false
    | _ => true

/-- The bytes of the body, of all slices together. -/
def written (calls : List Delivery) : Bytes :=
  calls.flatMap fun
    | write bytes => bytes
    | _ => []

/-- How often the end of a chunked body was marked. -/
def endMarks (calls : List Delivery) : Nat :=
  calls.count (.write [])

end Delivery

@[simp] theorem Delivery.written_append (xs ys : List Delivery) :
    written (xs ++ ys) = written xs ++ written ys := by
  simp [written]

/-- What holds of a sink and the bytes it was handed goes on to hold until the next reset, if a slice
adds to those bytes and the other calls keep it. -/
theorem Sink.acceptAll_written {σ : Type} [Sink σ] {P : Bytes → σ → Prop}
    (hlength : ∀ {body s} (n : Nat), P body s → P body (Sink.setLength n s))
    (hchunked : ∀ {body s} (on : Bool), P body s → P body (Sink.setChunked on s))
    (htype : ∀ {body s} (value : String), P body s → P body (Sink.setContentType value s))
    (hwrite : ∀ {body s} (slice : Bytes), P body s → P (body ++ slice) (Sink.write slice s).2)
    {body : Bytes} {s : σ} {calls : List Delivery} (h : P body s) (hcalls : .reset ∉ calls) :
    P (body ++ Delivery.written calls) (acceptAll s calls) := by
  induction calls generalizing body s with
  | nil => simpa [Delivery.written] using h
  | cons call calls ih =>
    rw [List.mem_cons, not_or] at hcalls
    cases call with
    | reset => exact absurd rfl hcalls.1
    | setLength n => exact ih (hlength n h) hcalls.2
    | setChunked on => exact ih (hchunked on h) hcalls.2
    | setContentType value => exact ih (htype value h) hcalls.2
    | write slice =>
      have hrest := ih (hwrite slice h) hcalls.2
      rwa [List.append_assoc] at hrest

@[simp] theorem Delivery.endMarks_append (xs ys : List Delivery) :
    endMarks (xs ++ ys) = endMarks xs + endMarks ys := by
  simp [endMarks]

/-- The calls hand a body to a sink in slices, none of them empty, and do nothing else. -/
def Slices (calls : List Delivery) (body : Bytes) : Prop :=
  ∃ slices : List Bytes, calls = slices.map .write ∧ (∀ s ∈ slices, s ≠ []) ∧ slices.flatten = body

@[simp] theorem bytewise_nil : bytewise [] = [] := rfl

@[simp] theorem bytewise_append (xs ys : Bytes) :
    bytewise (xs ++ ys) = bytewise xs ++ bytewise ys := by
  simp [bytewise]

@[simp] theorem outline_nil : outline [] = [] := rfl

@[simp] theorem outline_append (xs ys : List Event) :
    outline (xs ++ ys) = outline xs ++ outline ys := by
  simp [outline]

@[simp] theorem outline_cons (e : Event) (events : List Event) :
    outline (e :: events) = e.outline ++ outline events := by
  simp [outline]

@[simp] theorem outline_receive (room minimum timeout : Nat) (bytes : Option Bytes) :
    (Event.receive room minimum timeout bytes).outline = [] := rfl

theorem outline_write {bytes : Bytes} (h : bytes ≠ []) :
    (Event.deliver (.write bytes)).outline = bytewise bytes := by
  cases bytes with
  | nil => exact absurd rfl h
  | cons b bs => rfl

@[simp] theorem received_append (xs ys : List Event) :
    received (xs ++ ys) = received xs + received ys := by
  simp [received]

theorem received_receive (room minimum timeout : Nat) (bytes : Option Bytes) :
    received [.receive room minimum timeout bytes] = (bytes.getD []).length := by
  simp [received, Event.received]

theorem received_deliver (calls : List Delivery) : received (calls.map Event.deliver) = 0 := by
  induction calls with
  | nil => rfl
  | cons call calls ih => exact ih

/-! ## What an outline still tells -/

theorem deliveries_bytewise (body : Bytes) :
    deliveries (bytewise body) = body.map fun b => .write [b] := by
  induction body with
  | nil => rfl
  | cons b bs ih => exact congrArg (Delivery.write [b] :: ·) ih

theorem written_bytewise (body : Bytes) : Delivery.written (deliveries (bytewise body)) = body := by
  rw [deliveries_bytewise]
  induction body with
  | nil => rfl
  | cons b bs ih => exact congrArg (b :: ·) ih

theorem endMarks_bytewise (body : Bytes) :
    Delivery.endMarks (deliveries (bytewise body)) = 0 := by
  rw [deliveries_bytewise, Delivery.endMarks, List.count_eq_zero]
  simp

/-- A function that goes through a list of events one by one, passes over receives and does not see
where a slice is cut, is a function of the outline. -/
theorem eq_of_outline {α : Type} (f : List Event → α) (join : α → α → α)
    (hjoin : ∀ xs ys, f (xs ++ ys) = join (f xs) (f ys))
    (hreceive : ∀ room minimum timeout bytes, f [.receive room minimum timeout bytes] = f [])
    (hslice : ∀ b bs, f [.deliver (.write (b :: bs))] = f (bytewise (b :: bs)))
    (events : List Event) : f (outline events) = f events := by
  induction events with
  | nil => rfl
  | cons e events ih =>
    have hcut : f e.outline = f [e] := by
      cases e with
      | receive room minimum timeout bytes => exact (hreceive room minimum timeout bytes).symm
      | deliver call =>
        cases call with
        | write bytes =>
          cases bytes with
          | nil => rfl
          | cons b bs => exact (hslice b bs).symm
        | _ => rfl
      | _ => rfl
    rw [outline_cons, hjoin, ih, hcut, ← hjoin]
    rfl

/-- An outline shows all bytes of the body, one by one, and so what they make up. -/
theorem written_outline (events : List Event) :
    Delivery.written (deliveries (outline events)) = Delivery.written (deliveries events) := by
  apply eq_of_outline (fun events => Delivery.written (deliveries events)) (· ++ ·)
  case hjoin =>
    intro xs ys
    rw [deliveries_append, Delivery.written_append]
  case hreceive =>
    intro room minimum timeout bytes
    rfl
  case hslice =>
    intro b bs
    rw [written_bytewise]
    exact List.append_nil _

/-- An outline shows the marks at the end of a body, which are the writes without bytes. -/
theorem endMarks_outline (events : List Event) :
    Delivery.endMarks (deliveries (outline events)) = Delivery.endMarks (deliveries events) := by
  apply eq_of_outline (fun events => Delivery.endMarks (deliveries events)) (· + ·)
  case hjoin =>
    intro xs ys
    rw [deliveries_append, Delivery.endMarks_append]
  case hreceive =>
    intro room minimum timeout bytes
    rfl
  case hslice =>
    intro b bs
    exact (endMarks_bytewise (b :: bs)).symm

/-! ## The slices behind an outline -/

theorem bytewise_cons (b : UInt8) (bs : Bytes) :
    bytewise (b :: bs) = .deliver (.write [b]) :: bytewise bs := rfl

/-- The bytes at the front of an outline are a part of the body, unless it goes on with something
that is no byte. -/
theorem append_of_bytewise_append {slice body : Bytes} {rest tail : List Event}
    (htail : ∀ b, tail.head? ≠ some (.deliver (.write [b])))
    (h : bytewise slice ++ rest = bytewise body ++ tail) :
    ∃ later, body = slice ++ later ∧ rest = bytewise later ++ tail := by
  induction slice generalizing body with
  | nil => exact ⟨body, rfl, h⟩
  | cons b bs ih =>
    cases body with
    | nil => exact absurd (by rw [bytewise_nil, List.nil_append] at h; rw [← h]; rfl) (htail b)
    | cons c cs =>
      simp only [bytewise_cons, List.cons_append, List.cons.injEq, Event.deliver.injEq,
        Delivery.write.injEq, and_true] at h
      obtain ⟨later, rfl, hrest⟩ := ih h.2
      exact ⟨later, by rw [h.1]; rfl, hrest⟩

/-- Where an outline shows nothing the sink was not called. -/
theorem deliveries_of_outline_eq_nil {events : List Event} (h : outline events = []) :
    deliveries events = [] := by
  induction events with
  | nil => rfl
  | cons e events ih =>
    rw [outline_cons, List.append_eq_nil_iff] at h
    cases e with
    | receive room minimum timeout bytes => exact ih h.2
    | deliver call =>
      rcases call with _ | _ | _ | _ | (_ | ⟨b, bs⟩)
      all_goals exact absurd h.1 (List.cons_ne_nil _ _)
    | _ => exact absurd h.1 (List.cons_ne_nil _ _)

/-- A body and the mark of its end start with a slice. -/
theorem eq_write_of_cons_eq {e : Event} {events tail : List Event} {body : Bytes}
    (htail : tail = [] ∨ tail = [.deliver (.write [])])
    (h : e :: events = bytewise body ++ tail) : ∃ bytes, e = .deliver (.write bytes) := by
  cases body with
  | nil =>
    rcases htail with rfl | rfl
    · cases h
    · exact ⟨[], (List.cons.inj h).1⟩
  | cons b bs => exact ⟨[b], (List.cons.inj h).1⟩

theorem Slices.nil : Slices [] [] :=
  ⟨[], rfl, by simp, rfl⟩

theorem Slices.cons {calls : List Delivery} {slice body : Bytes} (hslice : slice ≠ [])
    (h : Slices calls body) : Slices (.write slice :: calls) (slice ++ body) := by
  rcases h with ⟨slices, rfl, hne, rfl⟩
  exact ⟨slice :: slices, rfl, List.forall_mem_cons.2 ⟨hslice, hne⟩, rfl⟩

/-- Events whose outline is a body and a tail hand the body over in slices. The tail is empty, or it
is the mark of the end. -/
theorem slices_of_outline {events tail : List Event} {body : Bytes}
    (htail : tail = [] ∨ tail = [.deliver (.write [])])
    (h : outline events = bytewise body ++ tail) :
    ∃ calls, Slices calls body ∧ deliveries events = calls ++ deliveries tail := by
  have hhead : ∀ b, tail.head? ≠ some (.deliver (.write [b])) := by
    rcases htail with rfl | rfl <;> simp
  induction events generalizing body with
  | nil =>
    rcases List.append_eq_nil_iff.1 h.symm with ⟨hbody, rfl⟩
    obtain rfl : body = [] := List.map_eq_nil_iff.1 hbody
    exact ⟨[], .nil, rfl⟩
  | cons e events ih =>
    rw [outline_cons] at h
    cases e with
    | receive room minimum timeout bytes => exact ih h
    | deliver call =>
      rcases call with _ | _ | _ | _ | (_ | ⟨b, bs⟩)
      case write.nil =>
        cases body with
        | nil =>
          rcases htail with rfl | rfl
          · cases h
          · refine ⟨[], .nil, congrArg (Delivery.write [] :: ·) ?_⟩
            exact deliveries_of_outline_eq_nil (List.cons.inj h).2
        | cons c cs => cases h
      case write.cons =>
        obtain ⟨later, rfl, hrest⟩ := append_of_bytewise_append hhead h
        obtain ⟨calls, hcalls, hdeliveries⟩ := ih hrest
        exact ⟨_, hcalls.cons (List.cons_ne_nil b bs),
          congrArg (Delivery.write (b :: bs) :: ·) hdeliveries⟩
      all_goals
        obtain ⟨bytes, hbytes⟩ := eq_write_of_cons_eq htail h
        cases hbytes
    | _ =>
      obtain ⟨bytes, hbytes⟩ := eq_write_of_cons_eq htail h
      cases hbytes

end DeviceHttp
