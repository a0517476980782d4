import DeviceHttp.Proofs.Transfer.Trails

/-!
# The loop over the attempts

`Client.follow` counts redirects down by recursion. Here the same is a loop that carries its state
along: a budget of attempts from which one is taken in front of each, and the location that the client
remembers, which is looked up again when it is to be followed. Such a loop could take from an empty
budget, or find no location. `Controller.Sound` is the invariant that it never does, and
`Controller.steps_execute` says that the loop comes to what the recursion comes to.
-/

namespace DeviceHttp

/-- What the loop over the attempts does next. -/
inductive Controller.Phase
  | attempt
  | redirecting
  | done
  | failed (e : TransferError)
  deriving DecidableEq, Repr

/-- The phase behind an attempt with this result. -/
def Controller.Phase.behind : Except TransferError Client.Step → Controller.Phase
  | .ok .complete => .done
  | .ok (.redirect _) => .redirecting
  | .error e => .failed e

/-- The phase in which a transaction with this result is over. -/
def Controller.Phase.over : Except TransferError Unit → Controller.Phase
  | .ok () => .done
  | .error e => .failed e

/-- The state of the loop over the attempts. -/
structure Controller where
  phase : Controller.Phase
  /-- How many attempts may still be made. -/
  budget : Nat
  /-- The location that was followed last. -/
  redirected : Option String
  source : Option Source
  client : Client
  events : List Event

namespace Controller

/-- The start of a transaction of this client. -/
def start (c : Client) (source : Option Source) : Controller where
  phase := .attempt
  budget := c.attempts
  redirected := none
  source
  client := { c with status := 0 }
  events := [.deliver .reset]

/-- One round of the loop. -/
def step (method : Method) (address : String) (timeout : Nat) (s : Controller) : Controller :=
  match s.phase with
  | .attempt =>
    let budget := s.budget - 1
    let t := s.client.attempt method (s.redirected.getD address) s.source (decide (0 < budget))
      timeout
    { s with
      phase := .behind t.result
      budget
      source := t.source
      client := t.client
      events := s.events ++ t.events }
  | .redirecting =>
    match s.client.location with
    | some location => { s with phase := .attempt, redirected := some location }
    | none => { s with phase := .failed .protocol }
  | .done => s
  | .failed _ => s

/-- So many rounds of the loop. -/
def steps (method : Method) (address : String) (timeout : Nat) : Nat → Controller → Controller
  | 0, s => s
  | n + 1, s => steps method address timeout n (s.step method address timeout)

/-- What holds in front of every round: there is an attempt to take from the budget, and a location
to follow. -/
structure Sound (s : Controller) : Prop where
  budget : s.phase = .attempt ∨ s.phase = .redirecting → 0 < s.budget
  location : s.phase = .redirecting → ∃ location, s.client.location = some location

variable {method : Method} {address : String} {timeout : Nat}

/-- Where the transaction stands in front of an attempt of the loop. -/
def visit (address : String) (s : Controller) : Visit where
  redirects := s.budget - 1
  address := s.redirected.getD address
  source := s.source
  client := s.client

theorem follows_visit (s : Controller) :
    (s.visit address).follows = decide (0 < s.budget - 1) :=
  decide_eq_decide.2 Nat.pos_iff_ne_zero.symm

/-- A round that makes an attempt makes the one of the transaction. -/
theorem step_of_attempt {s : Controller} (h : s.phase = .attempt) :
    s.step method address timeout =
      let t := (s.visit address).attempt method timeout
      { s with
        phase := .behind t.result
        budget := s.budget - 1
        source := t.source
        client := t.client
        events := s.events ++ t.events } := by
  rw [Visit.attempt, follows_visit, step, h]
  rfl

theorem step_of_redirecting {s : Controller} {location : String} (h : s.phase = .redirecting)
    (hlocation : s.client.location = some location) :
    s.step method address timeout = { s with phase := .attempt, redirected := some location } := by
  rw [step, h]
  dsimp only
  rw [hlocation]

/-- The location of a response that is followed is the one that the client remembers. -/
theorem location_of_followed {v : Visit} {location : String}
    (h : (v.attempt method timeout).result = .ok (.redirect location)) :
    (v.attempt method timeout).client.location = some location := by
  obtain ⟨-, -, -, hlocation⟩ := (v.attempt_ended method timeout).of_followed h
  exact hlocation

/-- One attempt keeps the invariant. A location that is followed is one that was found in this
attempt, so the budget is spent only where there was some left and the next address is the location
just found. -/
theorem Sound.step {s : Controller} (h : s.Sound) : (s.step method address timeout).Sound := by
  cases hphase : s.phase with
  | attempt =>
    rw [step_of_attempt hphase]
    cases hresult : ((s.visit address).attempt method timeout).result with
    | error e => exact ⟨by simp [Phase.behind, hresult], by simp [Phase.behind, hresult]⟩
    | ok next =>
      cases next with
      | complete => exact ⟨by simp [Phase.behind, hresult], by simp [Phase.behind, hresult]⟩
      | redirect location =>
        obtain ⟨redirects, hredirects⟩ := Visit.redirects_of_followed hresult
        have hleft : s.budget - 1 = redirects + 1 := hredirects
        exact ⟨fun _ => by simp [hleft], fun _ => ⟨location, location_of_followed hresult⟩⟩
  | redirecting =>
    obtain ⟨location, hlocation⟩ := h.location hphase
    rw [step_of_redirecting hphase hlocation]
    exact ⟨fun _ => h.budget (.inr hphase), by simp⟩
  | done =>
    have hstep : s.step method address timeout = s := by rw [Controller.step, hphase]
    rwa [hstep]
  | failed e =>
    have hstep : s.step method address timeout = s := by rw [Controller.step, hphase]
    rwa [hstep]

/-- The invariant holds in front of every round. -/
theorem Sound.steps {s : Controller} (h : s.Sound) (n : Nat) :
    (s.steps method address timeout n).Sound := by
  induction n generalizing s with
  | zero => exact h
  | succ n ih => exact ih h.step

theorem steps_add (k n : Nat) (s : Controller) :
    s.steps method address timeout (k + n)
      = (s.steps method address timeout k).steps method address timeout n := by
  induction k generalizing s with
  | zero => rw [Nat.zero_add, steps]
  | succ k ih => rw [Nat.succ_add, steps, steps, ih]

/-- The loop is over, and leaves what this transaction leaves. -/
structure Concluded (s : Controller) (t : Transaction Unit) : Prop where
  phase : s.phase = .over t.result
  client : s.client = t.client
  source : s.source = t.source
  events : s.events = t.events

variable {s : Controller}

/-- The loop is over behind an attempt that is the last one, with the result of the transaction from
there on. -/
theorem concluded_of_last (h : s.phase = .attempt)
    (hlast : ∀ location, ((s.visit address).attempt method timeout).result
      ≠ .ok (.redirect location)) :
    (s.step method address timeout).Concluded
      (((s.visit address).transaction method timeout).after s.events) := by
  rw [step_of_attempt h, Visit.transaction_of_last hlast]
  refine ⟨?_, rfl, rfl, rfl⟩
  show Phase.behind _ = Phase.over (Except.map (fun _ => ()) _)
  cases hresult : ((s.visit address).attempt method timeout).result with
  | error e => rfl
  | ok next =>
    cases next with
    | complete => rfl
    | redirect location => exact absurd hresult (hlast location)

/-- Two rounds take the loop from an attempt to the one that follows its location: the first makes
the attempt, and the second takes the budget and the address from what it left. -/
theorem visit_of_followed {location : String} (h : s.phase = .attempt)
    (hresult : ((s.visit address).attempt method timeout).result = .ok (.redirect location)) :
    (s.steps method address timeout 2).phase = .attempt ∧
      (s.steps method address timeout 2).visit address
        = (s.visit address).hop method timeout location ∧
      (s.steps method address timeout 2).events
        = s.events ++ ((s.visit address).attempt method timeout).events := by
  have hfirst : s.step method address timeout = _ := step_of_attempt h
  have hphase : (s.step method address timeout).phase = .redirecting := by
    rw [hfirst]
    exact congrArg Phase.behind hresult
  have hlocation : (s.step method address timeout).client.location = some location := by
    rw [hfirst]
    exact location_of_followed hresult
  rw [steps, steps, steps, step_of_redirecting hphase hlocation, hfirst]
  exact ⟨rfl, rfl, rfl⟩

/-- In front of an attempt the loop has the rest of the transaction before it, and comes to its end
after finitely many rounds. -/
theorem steps_transaction (h : s.phase = .attempt) :
    ∃ n, (s.steps method address timeout n).Concluded
      (((s.visit address).transaction method timeout).after s.events) := by
  induction hn : (s.visit address).redirects generalizing s with
  | zero =>
    refine ⟨1, concluded_of_last h ?_⟩
    intro location hresult
    obtain ⟨redirects, hredirects⟩ := Visit.redirects_of_followed hresult
    omega
  | succ n ih =>
    by_cases hlast : ∀ location, ((s.visit address).attempt method timeout).result
        ≠ .ok (.redirect location)
    · exact ⟨1, concluded_of_last h hlast⟩
    · obtain ⟨location, hresult⟩ := Classical.not_forall_not.1 hlast
      obtain ⟨hphase, hvisit, hevents⟩ := visit_of_followed h hresult
      have hleft : ((s.steps method address timeout 2).visit address).redirects = n := by
        rw [hvisit, Visit.hop, hn]
        rfl
      obtain ⟨k, hk⟩ := ih hphase hleft
      refine ⟨2 + k, ?_⟩
      rw [steps_add, Visit.transaction_of_followed hresult]
      rw [hvisit, hevents] at hk
      exact ⟨hk.phase, hk.client, hk.source, hk.events.trans (List.append_assoc _ _ _)⟩

/-- A transaction starts with an attempt in its budget. -/
theorem sound_start (c : Client) (source : Option Source) (h : 0 < c.attempts) :
    (start c source).Sound :=
  ⟨fun _ => h, fun hphase => by cases hphase⟩

/-- The loop comes to what the transaction comes to. -/
theorem steps_execute (c : Client) (method : Method) (address : String) (source : Option Source)
    (timeout : Nat) :
    ∃ n, ((start c source).steps method address timeout n).Concluded
      (c.execute method address source timeout) := by
  rw [Client.execute_eq]
  exact steps_transaction (s := start c source) rfl

end Controller

end DeviceHttp
