import DeviceHttp.Proofs.Transfer.Trails
import DeviceHttp.Proofs.Transfer.Views

/-!
# What a transaction leaves of a source

A source that was read in part is one over the same data as before (`Source.SameData`), and a reset
takes it back to the start. Only what sends the body of a request reads from it, and every attempt
resets it first; so what a transaction leaves can be sent again (`Visit.Trail.holds_transaction`).
-/

namespace DeviceHttp

/-- Two sources over the same data, wherever each of them stands. -/
inductive Source.SameData : Source → Source → Prop
  | fixed (contentType : String) (content rest rest' : Bytes) :
    SameData (.fixed ⟨contentType, content, rest⟩) (.fixed ⟨contentType, content, rest'⟩)
  | form (pairs : List Form.Pair) (ready ready' : Bytes) (later later' : List Form.Pair) :
    SameData (.form ⟨pairs, ready, later⟩) (.form ⟨pairs, ready', later'⟩)

namespace Source.SameData

variable {s s' : Source}

theorem symm (h : s.SameData s') : s'.SameData s := by
  cases h <;> constructor

theorem reset_eq (h : s.SameData s') : s.reset = s'.reset := by
  cases h <;> rfl

theorem reset (h : s.SameData s') : s.SameData s'.reset := by
  cases h with
  | fixed contentType content rest rest' => exact .fixed _ _ _ _
  | form pairs ready ready' later later' => cases pairs <;> exact .form _ _ _ _ _

theorem read (h : s.SameData s') (room : Nat) : s.SameData (s'.read room).2 := by
  cases h with
  | fixed contentType content rest rest' => exact .fixed _ _ _ _
  | form pairs ready ready' later later' => exact .form _ _ _ _ _

theorem rel_symm {source fresh : Option Source} (h : Option.Rel SameData source fresh) :
    Option.Rel SameData fresh source := by
  cases h with
  | none => exact .none
  | some h => exact .some h.symm

theorem map_reset_eq {source fresh : Option Source} (h : Option.Rel SameData source fresh) :
    source.map Source.reset = fresh.map Source.reset := by
  cases h with
  | none => rfl
  | some h => exact congrArg some h.reset_eq

end Source.SameData

namespace Exchange

/-- The exchange with this source. -/
def holding (source : Option Source) (x : Exchange) : Exchange :=
  { x with source }

/-- Which source an exchange holds is nothing that reading a response looks at. -/
theorem unread_holding (source : Option Source) : Unread (holding source) where
  window _ := rfl
  peer _ := rfl
  receive _ _ := rfl
  clear _ := rfl
  consume _ _ := rfl
  deliverAll _ _ := rfl
  status _ _ := rfl
  location _ _ := rfl

/-- Reading a response leaves the source alone. -/
theorem source_readResponse (follow : Bool) (x : Exchange) :
    (Outcome.exchange (Client.readResponse follow x)).source = x.source := by
  have hview : Client.readResponse follow x
      = onState (holding x.source) (Client.readResponse follow x) :=
    (unread_holding x.source).readResponse follow x
  rw [hview]
  cases Client.readResponse follow x <;> rfl

/-- The exchange still has a source over this data. -/
def Holds (source : Option Source) (x : Exchange) : Prop :=
  Option.Rel Source.SameData source x.source

namespace Holds

variable {source : Option Source} {s : Source} {x y : Exchange}

theorem of_source (h : Holds source x) (hy : y.source = x.source) : Holds source y := by
  unfold Holds
  rwa [hy]

theorem send (h : Holds source x) (bytes : Bytes) : Holds source (x.send bytes).exchange := by
  rw [exchange_send]
  exact h

/-- Pieces that are sent as they are leave the source where it stands. -/
theorem sendAll (h : Holds source x) (pieces : List Bytes) :
    Holds source (x.sendAll pieces).exchange := by
  induction pieces generalizing x with
  | nil => exact h
  | cons piece pieces ih =>
    have hpiece := h.send piece
    rw [Exchange.sendAll]
    cases hy : x.send piece with
    | error e y =>
      rw [hy] at hpiece
      exact hpiece
    | ok u y =>
      rw [hy] at hpiece
      exact ih hpiece

/-- The exchange with what a read leaves of a source. -/
theorem of_read {source : Source} (h : s.SameData source) (room : Nat) (x : Exchange) :
    Holds (some s) { x with source := some (source.read room).2 } :=
  .some (h.read room)

/-- What sends a body of known length leaves a source over the same data: each round goes on with
what a read of the last one has left. -/
theorem sendLength (remaining : Nat) (source : Source) (hs : s.SameData source)
    (h : Holds (some s) x) : Holds (some s) (x.sendLength remaining source).exchange := by
  fun_induction Exchange.sendLength remaining source x with
  | case1 source x => exact h
  | case2 remaining source x h0 read y hnil => exact of_read hs _ x
  | case3 remaining source x h0 read y hread e z hz => exact hz ▸ (of_read hs _ x).send read.1
  | case4 remaining source x h0 read y hread u z hz ih =>
    have hy := (of_read hs (min remaining x.window.capacity) x).send read.1
    rw [hz] at hy
    exact ih (hs.read _) hy

/-- What sends a body in chunks leaves a source over the same data, also where a chunk is not
taken. -/
theorem sendChunks (source : Source) (hs : s.SameData source) (x : Exchange) :
    Holds (some s) (x.sendChunks source).exchange := by
  fun_induction Exchange.sendChunks source x with
  | case1 source x read y e z hz => exact hz ▸ (of_read hs _ x).send _
  | case2 source x read y u z hz hnil =>
    have hy := (of_read hs x.window.capacity x).send (Chunk.sizeLine read.1.length)
    rw [hz] at hy
    exact hy.send _
  | case3 source x read y u z hz hne e w hw =>
    have hy := (of_read hs x.window.capacity x).send (Chunk.sizeLine read.1.length)
    rw [hz] at hy
    exact hw ▸ hy.sendAll _
  | case4 source x read y u z hz hne v w hw ih => exact ih (hs.read _)

/-- Whichever way a body is sent, the source that is left is over the same data. -/
theorem sendBody (h : Holds source x) : Holds source x.sendBody.exchange := by
  unfold Exchange.sendBody
  cases hx : x.source with
  | none => exact h
  | some s' =>
    have hsource : Option.Rel Source.SameData source (some s') := hx ▸ h
    cases hsource with
    | some hs =>
      dsimp only
      cases s'.framing with
      | chunked => exact sendChunks s' hs x
      | length n => exact sendLength n s' hs h

/-- Links that keep the source over its data make a chain that does. -/
theorem andThen {α β : Type} {first : Outcome α} {next : α → Exchange → Outcome β}
    (h : Holds source first.exchange)
    (hnext : ∀ a y, Holds source y → Holds source (next a y).exchange) :
    Holds source (Outcome.exchange (DeviceHttp.andThen first next)) := by
  cases first with
  | ok a y => exact hnext a y h
  | error e y => exact h

/-- A conversation leaves a source over the same data. -/
theorem converse (h : Holds source x) (head : RequestHead) (follow : Bool) :
    Holds source (Outcome.exchange (Client.converse head follow x)) := by
  have hhead : Holds source (x.sendHead head).exchange := h.sendAll _
  have hrequest : Holds source (x.sendRequest head).exchange :=
    hhead.andThen fun _ _ hy => hy.sendBody
  rw [converse_eq]
  exact hrequest.andThen fun _ y hy =>
    hy.of_source (source_readResponse follow { y with window := y.window.clear })

end Holds

end Exchange

namespace Visit

variable {v : Visit} {vs : List Visit} {source : Option Source} {method : Method} {timeout : Nat}

/-- An attempt leaves a source over the same data, however it ends. It is reset in front of the
request, and a response does not touch it. -/
theorem holds_attempt (h : Option.Rel Source.SameData source v.source) :
    Option.Rel Source.SameData source (v.attempt method timeout).source := by
  have hcourse := v.attempt_course method timeout
  generalize v.attempt method timeout = t at *
  cases hcourse with
  | malformed unusable => exact h
  | refused address http network => exact h
  | @connected url peer o address http network converse =>
    have hstart : Exchange.Holds source (v.start peer timeout) := by
      show Option.Rel Source.SameData source (v.source.map Source.reset)
      generalize v.source = s at h
      cases h with
      | none => exact .none
      | some hs => exact .some hs.reset
    exact converse ▸ hstart.converse (v.head method url) v.follows

/-- A transaction leaves a source over the same data. -/
theorem Trail.holds_transaction (h : Trail method timeout v vs)
    (hsource : Option.Rel Source.SameData source v.source) :
    Option.Rel Source.SameData source (v.transaction method timeout).source := by
  induction h with
  | last ends =>
    rw [transaction_of_last ends]
    exact holds_attempt hsource
  | hop followed rest ih =>
    rw [transaction_of_followed followed]
    exact ih (holds_attempt hsource)

end Visit

end DeviceHttp
