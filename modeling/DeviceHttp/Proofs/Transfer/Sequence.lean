import DeviceHttp.Transfer.Client

/-!
# One step after the other

A function that sends or reads is a chain of smaller ones: the next one goes on from a success, and a
failure ends the chain. `andThen` is one link. The functions that are chains without a loop are
written as such here, so that what is known of the links is all that a proof about them needs.
-/

namespace DeviceHttp

/-- Go on from a success. -/
def andThen {σ α β : Type} (first : EStateM.Result TransferError σ α)
    (next : α → σ → EStateM.Result TransferError σ β) : EStateM.Result TransferError σ β :=
  match first with
  | .ok a s => next a s
  | .error e s => .error e s

/-- A chain succeeds through successes. -/
theorem ok_of_andThen {σ α β : Type} {first : EStateM.Result TransferError σ α}
    {next : α → σ → EStateM.Result TransferError σ β} {b : β} {t : σ}
    (h : andThen first next = .ok b t) : ∃ a s, first = .ok a s ∧ next a s = .ok b t := by
  cases first with
  | ok a s => exact ⟨a, s, rfl, h⟩
  | error e s => cases h

namespace Exchange

theorem Outcome.exchange_of_ok {α : Type} {o : Outcome α} {a : α} {x : Exchange}
    (h : o = .ok a x) : o.exchange = x := by
  rw [h]
  rfl

theorem Outcome.exchange_of_error {α : Type} {o : Outcome α} {e : TransferError} {x : Exchange}
    (h : o = .error e x) : o.exchange = x := by
  rw [h]
  rfl

/-! ## Chains of readers -/

/-- The code of a status line that is pending whole. -/
def takeStatus (n : Nat) (x : Exchange) : Outcome Nat :=
  match StatusLine.parse (x.front n) with
  | .error e => .error e x
  | .ok code => .ok code { x.consume (n + 2) with status := code }

/-- The size of a chunk whose first line is pending whole. -/
def takeChunkSize (n : Nat) (x : Exchange) : Outcome Nat :=
  match Chunk.parseSize (x.front n) with
  | .error e => .error e x
  | .ok size => .ok size (x.consume (n + 2))

/-- What is behind a block of headers. -/
def finish (next : Next) (x : Exchange) : Outcome Client.Step :=
  match next with
  | .redirect location => .ok (.redirect location) x
  | .body framing => andThen (x.readBody framing) fun _ x => .ok .complete x

/-- What is behind a status line. -/
def judge (follow : Bool) (status : Nat) (x : Exchange) : Outcome Client.Step :=
  if Client.accepts status then andThen (x.readHeaders follow {}) finish
  else .error (.status status) x

theorem readStatus_eq (x : Exchange) : x.readStatus = andThen x.readLine takeStatus := by
  unfold readStatus
  cases x.readLine <;> rfl

theorem readChunkSize_eq (x : Exchange) : x.readChunkSize = andThen x.readLine takeChunkSize := by
  unfold readChunkSize
  cases x.readLine <;> rfl

/-- A response as a chain of readers: the status line, and what is made of the code. -/
theorem readResponse_eq (follow : Bool) (x : Exchange) :
    Client.readResponse follow x = andThen x.readStatus (judge follow) := by
  unfold Client.readResponse
  cases x.readStatus with
  | error e y => rfl
  | ok status y =>
    unfold andThen judge
    dsimp only
    split
    · cases y.readHeaders follow {} with
      | error e z => rfl
      | ok next z =>
        cases next with
        | redirect location => rfl
        | body framing =>
          unfold andThen finish
          dsimp only
          cases z.readBody framing <;> rfl
    · rfl

end Exchange

end DeviceHttp
