import DeviceHttp.Proofs.Machine.Words
import DeviceHttp.Proofs.Transfer.Rounds

/-!
# Waiting and reading lines on a device

`Rig` is an exchange as it stands in memory, and an `Act` changes it step by step: it may fail, it
may trap and it may run forever. `Follows` says that it does neither of the last two and comes to
what an exchange comes to. The loops that wait are loops here (`Round.loop`), without a measure that
would end them; they end because those of the exchange do.
-/

namespace DeviceHttp.Machine

/-- An exchange as it stands in memory. -/
structure Rig where
  peer : Peer
  cells : Cells
  timeout : Nat
  status : Nat
  location : Option String
  trace : List Event

/-- What is done with a rig. -/
abbrev Act := ExceptT TransferError (StateT Rig Checked)

namespace Rig

/-- The rig is this exchange, whatever is left of its source. -/
structure Mirrors (r : Rig) (x : Exchange) : Prop where
  peer : r.peer = x.peer
  cells : r.cells.Holds x.window
  timeout : r.timeout = x.timeout
  status : r.status = x.status
  location : r.location = x.location
  trace : r.trace = x.trace

end Rig

/-! ## Loops -/

/-- What a round of a loop comes to. -/
inductive Turn (σ α : Type)
  | again (s : σ)
  | done (a : α)

/-- A round of a loop, which goes on with what the round leaves. -/
def Round (σ α : Type) : Type :=
  σ → Act (Turn σ α)

/-- Go round until a round is the last one. A loop without a last round runs forever. -/
def Round.loop {σ α : Type} (round : Round σ α) (s : σ) : Act α := do
  match ← round s with
  | .again s => round |>.loop s
  | .done a => pure a
partial_fixpoint

/-- What comes behind a round. -/
def Round.next {σ α : Type} (round : Round σ α) : Turn σ α → Act α
  | .again s => round.loop s
  | .done a => pure a

theorem Round.loop_eq {σ α : Type} (round : Round σ α) (s : σ) :
    round.loop s = round s >>= round.next := by
  rw [Round.loop]
  exact bind_congr fun turn => by cases turn <;> rfl

/-- A round of a loop that has no rig. -/
def Cycle (σ α : Type) : Type :=
  σ → Checked (Turn σ α)

namespace Cycle

variable {σ α : Type} {cycle : Cycle σ α} {s t : σ} {a : α}

/-- Go round until a round is the last one. -/
def loop (cycle : Cycle σ α) (s : σ) : Checked α := do
  match ← cycle s with
  | .again s => cycle |>.loop s
  | .done a => pure a
partial_fixpoint

theorem loop_of_again (h : cycle s = pure (.again t)) : cycle.loop s = cycle.loop t := by
  rw [loop, h, pure_bind]

theorem loop_of_done (h : cycle s = pure (.done a)) : cycle.loop s = pure a := by
  rw [loop, h, pure_bind]

end Cycle

/-! ## Acts that come to an end -/

/-- The act comes to an end with this result, and leaves this rig. -/
def Does {α : Type} (act : Act α) (r : Rig) (result : Except TransferError α) (s : Rig) : Prop :=
  act.run.run r = pure (result, s)

section Does

variable {α β : Type} {act : Act α} {next : α → Act β} {r s t : Rig} {a : α} {e : TransferError}
  {result : Except TransferError β}

theorem Does.bind (h : Does act r (.ok a) s) (hnext : Does (next a) s result t) :
    Does (act >>= next) r result t := by
  unfold Does at *
  rw [ExceptT.run_bind, StateT.run_bind, h, pure_bind]
  exact hnext

theorem Does.bind_error (h : Does act r (.error e) s) : Does (act >>= next) r (.error e) s := by
  unfold Does at *
  rw [ExceptT.run_bind, StateT.run_bind, h, pure_bind]
  rfl

theorem does_get (r : Rig) : Does get r (.ok r) r := rfl

theorem does_set (r s : Rig) : Does (set s) r (.ok ()) s := rfl

theorem does_pure (a : α) (r : Rig) : Does (pure a) r (.ok a) r := rfl

theorem does_throw (e : TransferError) (r : Rig) : Does (throw e : Act α) r (.error e) r := rfl

theorem does_lift {c : Checked α} (h : c = pure a) (r : Rig) : Does (liftM c) r (.ok a) r := by
  rw [h]
  rfl

end Does

/-- The act comes to what the exchange comes to. -/
inductive Follows {α : Type} (act : Act α) (r : Rig) : Exchange.Outcome α → Prop
  | ok {a : α} {s : Rig} {y : Exchange} (does : Does act r (.ok a) s) (mirrors : s.Mirrors y) :
    Follows act r (.ok a y)
  | error {e : TransferError} {s : Rig} {y : Exchange} (does : Does act r (.error e) s)
    (mirrors : s.Mirrors y) : Follows act r (.error e y)

/-- On every rig that is this exchange, the act comes to what the exchange comes to. -/
def Mimics {α : Type} (act : Act α) (x : Exchange) (o : Exchange.Outcome α) : Prop :=
  ∀ r : Rig, r.Mirrors x → Follows act r o

namespace Follows

variable {α β : Type} {act : Act α} {next : α → Act β} {r s : Rig} {x y : Exchange} {a : α}
  {e : TransferError} {o : Exchange.Outcome β}

theorem pure (h : r.Mirrors x) (a : α) : Follows (pure a) r (.ok a x) :=
  .ok (does_pure a r) h

theorem throw (h : r.Mirrors x) (e : TransferError) : Follows (throw e : Act α) r (.error e x) :=
  .error (does_throw e r) h

/-- A step that only the act has. -/
theorem step (h : Does act r (.ok a) s) (hnext : Follows (next a) s o) :
    Follows (act >>= next) r o := by
  cases hnext with
  | ok does mirrors => exact .ok (h.bind does) mirrors
  | error does mirrors => exact .error (h.bind does) mirrors

theorem get {next : Rig → Act β} (h : Follows (next r) r o) : Follows (get >>= next) r o :=
  step (does_get r) h

theorem set {next : Unit → Act β} (h : Follows (next ()) s o) : Follows (set s >>= next) r o :=
  step (does_set r s) h

theorem lift {c : Checked α} (hc : c = Pure.pure a) (h : Follows (next a) r o) :
    Follows (liftM c >>= next) r o :=
  step (does_lift hc r) h

/-- A failure ends the act. -/
theorem stop (h : Follows act r (.error e x)) : Follows (act >>= next) r (.error e x) := by
  cases h with
  | error does mirrors => exact .error does.bind_error mirrors

/-- Behind a success the act goes on. -/
theorem goOn (h : Follows act r (.ok a x)) (hnext : Mimics (next a) x o) :
    Follows (act >>= next) r o := by
  cases h with
  | ok does mirrors => exact step does (hnext _ mirrors)

/-- Behind a link the act goes along with what is behind it. -/
theorem bind {first : Exchange.Outcome α} {later : α → Exchange → Exchange.Outcome β}
    (h : Follows act r first) (hnext : ∀ a y, first = .ok a y → Mimics (next a) y (later a y)) :
    Follows (act >>= next) r (andThen first later) := by
  cases first with
  | ok a y => exact h.goOn (hnext a y rfl)
  | error e y => exact h.stop

/-- A loop goes round once, and then as the round says. -/
theorem loop {σ : Type} {round : Round σ β} {t : σ}
    (h : Follows (round t >>= round.next) r o) : Follows (round.loop t) r o := by
  rwa [Round.loop_eq]

theorem again {σ : Type} {round : Round σ β} {t : σ} (h : Follows (round.loop t) r o) :
    Follows (Pure.pure (.again t) >>= round.next) r o := by
  rwa [pure_bind]

theorem done {σ : Type} {round : Round σ α} (h : r.Mirrors x) (a : α) :
    Follows (Pure.pure (.done a) >>= round.next) r (.ok a x) := by
  rw [pure_bind]
  exact .pure h a

end Follows

/-! ## Waiting -/

/-- Receive into the free cells. -/
def receive (minimum : Nat) : Act (Option Bytes) := do
  let r ← get
  let free ← slice r.cells.bytes r.cells.filled r.cells.bytes.length
  let received := r.peer.receive free.length
  let bytes ← put r.cells.bytes r.cells.filled (received.1.getD [])
  set { r with
    peer := received.2
    cells := { r.cells with bytes }
    trace := r.trace ++ [Event.receive free.length minimum r.timeout received.1] }
  pure received.1

/-- Count bytes that arrived as such that wait. -/
def grow (n : Nat) : Act Unit := do
  let r ← get
  let filled ← add r.cells.filled n
  set { r with cells := { r.cells with filled } }

/-- Count what was received. -/
def takeReceived : Option Bytes → Act (Turn Unit Unit)
  | none => throw .connection
  | some [] => throw .closed
  | some (b :: bs) => do
    grow (b :: bs).length
    pure (.again ())

/-- Receive, unless so many bytes wait. -/
def refillRound (goal : Nat) : Round Unit Unit := fun _ => do
  let r ← get
  let held ← r.cells.held
  if held < goal then
    if r.peer.isConnected then do
      let cells ← r.cells.compact
      let missing ← sub goal cells.filled
      set { r with cells }
      let received ← receive missing
      takeReceived received
    else throw .closed
  else pure (.done ())

/-- Receive until so many bytes wait. -/
def refill (goal : Nat) : Act Unit :=
  (refillRound goal).loop ()

/-- Receive until so many bytes wait, or as many as there are cells. -/
def fillTo (want : Nat) : Act Unit := do
  let r ← get
  refill (min want r.cells.bytes.length)

/-- Receive at least one more byte. -/
def fill : Act Unit := do
  let r ← get
  let held ← r.cells.held
  let want ← add held 1
  fillTo want

/-- Receive, unless a line waits. -/
def readLineRound : Round Unit Nat := fun _ => do
  let r ← get
  match ← r.cells.findCrlf with
  | some n => pure (.done n)
  | none =>
    if ← r.cells.isFull then throw .protocol
    else do
      fill
      pure (.again ())

/-- Receive until a line waits, and find out how long it is. -/
def readLine : Act Nat :=
  readLineRound.loop ()

/-- The rig with so many more bytes that wait. -/
def Rig.grown (n : Nat) (r : Rig) : Rig :=
  { r with cells := { r.cells with filled := r.cells.filled + n } }

section Waiting

variable {r : Rig} {x : Exchange}

/-- What is received lies in the free cells, and is what the exchange receives; the peer is offered
as many as are free. -/
theorem does_receive (h : r.Mirrors { x with window := x.window.compact }) (minimum : Nat) :
    ∃ s, Does (receive minimum) r (.ok (x.receive minimum).1) s ∧
      (s.grown ((x.receive minimum).1.getD []).length).Mirrors (x.receive minimum).2 := by
  have hfree : ((r.cells.bytes.take r.cells.bytes.length).drop r.cells.filled).length
      = x.window.compact.room := by
    rw [List.take_length, List.length_drop, h.cells.size, h.cells.filled]
    rfl
  have hpeer : r.peer = x.peer := h.peer
  have hgot : ((x.peer.receive x.window.compact.room).1.getD []).length ≤ x.window.compact.room :=
    Peer.length_receive_le _ _
  obtain ⟨bytes, hput, hholds⟩ := h.cells.extend hgot
  let s : Rig := { r with
    peer := (x.peer.receive x.window.compact.room).2
    cells := { r.cells with bytes }
    trace := r.trace ++ [.receive x.window.compact.room minimum r.timeout
      (x.peer.receive x.window.compact.room).1] }
  refine ⟨s, ?_, rfl, hholds, h.timeout, h.status, h.location, ?_⟩
  · refine (does_get r).bind ?_
    refine (does_lift (slice_eq h.cells.filled_le (Nat.le_refl _)) r).bind ?_
    rw [hfree, hpeer]
    refine (does_lift hput r).bind ?_
    exact (does_set r s).bind (does_pure _ s)
  · show r.trace ++ [Event.receive _ _ r.timeout _] = x.trace ++ [Event.receive _ _ x.timeout _]
    rw [h.trace, h.timeout]

theorem does_grow (n : Nat) (h : (r.grown n).Mirrors x) : Does (grow n) r (.ok ()) (r.grown n) := by
  have hword : r.cells.filled + n < UInt64.size :=
    Nat.lt_of_le_of_lt h.cells.filled_le (h.cells.size ▸ h.cells.word)
  exact (does_get r).bind ((does_lift (add_eq hword) r).bind (does_set r (r.grown n)))

/-- A round that waits is one receive. -/
theorem refill_round {goal : Nat} (h : r.Mirrors x) (hlt : x.window.pending.length < goal)
    (hconnected : x.peer.isConnected = true) :
    ∃ s, (s.grown ((x.receive (goal - x.window.pending.length)).1.getD []).length).Mirrors
        (x.receive (goal - x.window.pending.length)).2 ∧
      ∀ o, Follows (takeReceived (x.receive (goal - x.window.pending.length)).1
          >>= (refillRound goal).next) s o → Follows (refill goal) r o := by
  obtain ⟨cells, hcompact, hholds, hfilled⟩ := h.cells.compact_eq
  have hmirrors : Rig.Mirrors { r with cells } { x with window := x.window.compact } :=
    ⟨h.peer, hholds, h.timeout, h.status, h.location, h.trace⟩
  obtain ⟨s, hreceive, hs⟩ := does_receive hmirrors (goal - x.window.pending.length)
  refine ⟨s, hs, fun o ho => ?_⟩
  have hconnected : r.peer.isConnected = true := h.peer ▸ hconnected
  refine .loop ?_
  simp only [refillRound, bind_assoc]
  refine .get (.lift h.cells.held_eq ?_)
  simp only [if_pos hlt, if_pos hconnected, bind_assoc]
  refine .lift hcompact (.lift (sub_eq (hfilled ▸ Nat.le_of_lt hlt)) (.set ?_))
  rw [hfilled]
  exact .step hreceive ho

/-- The loop that waits for bytes comes to what waiting comes to. It has no measure of its own;
the induction is over the receives of the exchange, and each round of the one is a round of the
other. -/
theorem mimics_refill (want : Nat) (x : Exchange) :
    Mimics (refill (min want x.window.capacity)) x (x.fillTo want) := by
  fun_induction Exchange.fillTo want x with
  | case1 x goal hlt hconnected y hy =>
    intro r h
    obtain ⟨s, hs, hround⟩ := refill_round h hlt hconnected
    rw [hy] at hs hround
    exact hround _ (.stop (.throw hs .connection))
  | case2 x goal hlt hconnected y hy =>
    intro r h
    obtain ⟨s, hs, hround⟩ := refill_round h hlt hconnected
    rw [hy] at hs hround
    exact hround _ (.stop (.throw hs .closed))
  | case3 x goal hlt hconnected b bs y hy ih =>
    intro r h
    obtain ⟨s, hs, hround⟩ := refill_round h hlt hconnected
    have hcapacity : y.window.capacity = x.window.capacity := by
      have := x.capacity_receive (goal - x.window.pending.length)
      rwa [hy] at this
    rw [hy] at hs hround
    rw [hcapacity] at ih
    refine hround _ ?_
    rw [takeReceived, bind_assoc]
    exact .step (does_grow _ hs) (.again (ih _ hs))
  | case4 x goal hlt hconnected =>
    intro r h
    have hconnected : ¬ r.peer.isConnected = true := h.peer ▸ hconnected
    refine .loop ?_
    simp only [refillRound, bind_assoc]
    refine .get (.lift h.cells.held_eq ?_)
    rw [if_pos hlt, if_neg hconnected]
    exact .stop (.throw h .closed)
  | case5 x goal hge =>
    intro r h
    refine .loop ?_
    simp only [refillRound, bind_assoc]
    refine .get (.lift h.cells.held_eq ?_)
    rw [if_neg hge]
    exact .done h ()

theorem mimics_fillTo (want : Nat) (x : Exchange) : Mimics (fillTo want) x (x.fillTo want) := by
  intro r h
  have hgoal : min want r.cells.bytes.length = min want x.window.capacity := by rw [h.cells.size]
  refine .get ?_
  rw [hgoal]
  exact mimics_refill want x r h

/-- To wait for one more byte is to count it first. -/
theorem mimics_fill_of_word (hword : x.window.pending.length + 1 < UInt64.size) :
    Mimics fill x x.fill := by
  intro r h
  exact .get (.lift h.cells.held_eq (.lift (add_eq hword) (mimics_fillTo _ x r h)))

/-- A buffer that has room can count one more byte. -/
theorem mimics_fill (hroom : x.window.pending.length < x.window.capacity) :
    Mimics fill x x.fill := by
  intro r h
  exact mimics_fill_of_word (Nat.lt_of_le_of_lt hroom h.cells.word) r h

/-- A round without a line is a wait for more bytes. -/
theorem readLine_round {o : Exchange.Outcome Nat} (h : r.Mirrors x)
    (hnone : x.window.lineLength? = none) (hfull : ¬ x.window.isFull = true)
    (ho : Follows (fill >>= fun _ => readLine) r o) : Follows readLine r o := by
  refine .loop ?_
  simp only [readLineRound, bind_assoc]
  refine .get (.lift h.cells.findCrlf_eq ?_)
  rw [hnone]
  simp only [bind_assoc]
  refine .lift h.cells.isFull_eq ?_
  rw [if_neg hfull]
  simp only [bind_assoc, pure_bind]
  exact ho

/-- The loop that looks for a line comes to what looking for one comes to, with the window extended
in each round. -/
theorem mimics_readLine (x : Exchange) : Mimics readLine x x.readLine := by
  fun_induction Exchange.readLine x with
  | case1 x n hn =>
    intro r h
    refine .loop ?_
    simp only [readLineRound, bind_assoc]
    refine .get (.lift h.cells.findCrlf_eq ?_)
    rw [hn]
    exact .done h n
  | case2 x hnone hfull =>
    intro r h
    refine .loop ?_
    simp only [readLineRound, bind_assoc]
    refine .get (.lift h.cells.findCrlf_eq ?_)
    rw [hnone]
    simp only [bind_assoc]
    refine .lift h.cells.isFull_eq ?_
    rw [if_pos hfull]
    exact .stop (.throw h .protocol)
  | case3 x hnone hfull e y hy =>
    intro r h
    have hfill := mimics_fill (Window.lt_of_not_isFull hfull) r h
    exact readLine_round h hnone hfull ((hy ▸ hfill).stop)
  | case4 x hnone hfull u y hy ih =>
    intro r h
    have hfill := mimics_fill (Window.lt_of_not_isFull hfull) r h
    exact readLine_round h hnone hfull ((hy ▸ hfill).goOn ih)

end Waiting

end DeviceHttp.Machine
