import DeviceHttp.Proofs.Transfer.Responses

/-!
# All attempts of a transaction

A transaction is the list of its attempts. `Visit.Trail` is that list: every visit but the last is
left for the location that its response leads to. Every transaction has one (`Visit.exists_trail`),
and is nothing but its attempts in order with the result of the last one (`Visit.Trail.concludes`);
so what is known of one attempt (`Visit.attempt_ended`) is known of all.
-/

namespace DeviceHttp.Visit

variable {v w : Visit} {method : Method} {timeout : Nat}

/-- The visit at which a transaction goes on when it follows a location from this one. -/
def hop (method : Method) (timeout : Nat) (location : String) (v : Visit) : Visit where
  redirects := v.redirects - 1
  address := location
  source := (v.attempt method timeout).source
  client := (v.attempt method timeout).client

/-- The visits of a transaction from this one on, in order. -/
inductive Trail (method : Method) (timeout : Nat) : Visit → List Visit → Prop
  /-- The attempt is the last one. -/
  | last {v : Visit}
    (ends : ∀ location, (v.attempt method timeout).result ≠ .ok (.redirect location)) :
    Trail method timeout v [v]
  /-- The response leads to a location, which is followed. -/
  | hop {v : Visit} {location : String} {later : List Visit}
    (followed : (v.attempt method timeout).result = .ok (.redirect location))
    (rest : Trail method timeout (v.hop method timeout location) later) :
    Trail method timeout v (v :: later)

/-- A location is followed only while the budget lasts. -/
theorem redirects_of_followed {location : String}
    (h : (v.attempt method timeout).result = .ok (.redirect location)) :
    ∃ redirects, v.redirects = redirects + 1 := by
  have hfollows : v.follows = true := (attempt_follows_iff.1 h).1
  exact Nat.exists_eq_succ_of_ne_zero (of_decide_eq_true hfollows)

/-- An attempt whose location is followed had the connection of the peer whose turn it was. -/
theorem network_of_followed {location : String}
    (h : (v.attempt method timeout).result = .ok (.redirect location)) :
    (v.attempt method timeout).client.network = v.client.network.tail := by
  rcases v.attempt_cases method timeout with hsilent | ⟨x, url, hbegun, hattempt⟩
  · obtain ⟨e, he⟩ := hsilent.result
    cases h.symm.trans he
  · rw [hattempt]
    rfl

/-- Every transaction is a finite list of attempts, because each location that is followed costs one
of the budget. -/
theorem exists_trail (method : Method) (timeout : Nat) (v : Visit) :
    ∃ vs, Trail method timeout v vs := by
  induction hn : v.redirects generalizing v with
  | zero =>
    refine ⟨[v], .last ?_⟩
    intro location h
    obtain ⟨redirects, hredirects⟩ := redirects_of_followed h
    omega
  | succ n ih =>
    by_cases h : ∃ location, (v.attempt method timeout).result = .ok (.redirect location)
    · obtain ⟨location, hlocation⟩ := h
      obtain ⟨later, hlater⟩ := ih (v.hop method timeout location) (by simp [hop, hn])
      exact ⟨v :: later, .hop hlocation hlater⟩
    · exact ⟨[v], .last fun location hlocation => h ⟨location, hlocation⟩⟩

/-- A transaction that follows a location is the transaction from there on, behind the events of the
attempt that led there. -/
theorem transaction_of_followed {location : String}
    (h : (v.attempt method timeout).result = .ok (.redirect location)) :
    v.transaction method timeout
      = ((v.hop method timeout location).transaction method timeout).after
          (v.attempt method timeout).events := by
  obtain ⟨redirects, hredirects⟩ := redirects_of_followed h
  rw [transaction_eq]
  dsimp only
  rw [h, hredirects, hop, hredirects]
  rfl

/-- A transaction that does not go on is its attempt. -/
theorem transaction_of_last
    (h : ∀ location, (v.attempt method timeout).result ≠ .ok (.redirect location)) :
    v.transaction method timeout
      = ⟨(v.attempt method timeout).result.map fun _ => (), (v.attempt method timeout).client,
        (v.attempt method timeout).source, (v.attempt method timeout).events⟩ := by
  rw [transaction_eq]
  dsimp only
  cases hresult : (v.attempt method timeout).result with
  | error e => rfl
  | ok step =>
    cases step with
    | complete => rfl
    | redirect location => exact absurd hresult (h location)

/-- A transaction that ends with an attempt succeeds exactly if that comes to its end. -/
theorem succeeds_iff {result : Except TransferError Client.Step}
    (h : ∀ location, result ≠ .ok (.redirect location)) :
    (result.map fun _ => ()) = .ok () ↔ result = .ok .complete := by
  cases result with
  | error e => exact iff_of_false nofun nofun
  | ok step =>
    cases step with
    | complete => exact iff_of_true rfl rfl
    | redirect location => exact absurd rfl (h location)

/-- What is done at a list of visits. -/
def eventsOf (method : Method) (timeout : Nat) (vs : List Visit) : List Event :=
  vs.flatMap fun v => (v.attempt method timeout).events

namespace Trail

variable {vs : List Visit}

theorem head?_eq (h : Trail method timeout v vs) : vs.head? = some v := by
  cases h <;> rfl

theorem length_pos (h : Trail method timeout v vs) : 0 < vs.length := by
  cases h <;> exact Nat.succ_pos _

/-- A transaction has one list of visits. -/
theorem unique {ws : List Visit} (h : Trail method timeout v vs) (h' : Trail method timeout v ws) :
    vs = ws := by
  induction h generalizing ws with
  | last ends =>
    cases h' with
    | last => rfl
    | hop followed => exact absurd followed (ends _)
  | @hop v location later followed rest ih =>
    cases h' with
    | last ends => exact absurd followed (ends _)
    | hop followed' rest' =>
      cases followed.symm.trans followed'
      exact congrArg (v :: ·) (ih rest')

/-- The last visit of a trail: nothing was said to the sink before it, and the transaction ends as
its attempt does. -/
theorem concludes (h : Trail method timeout v vs) :
    ∃ before w, vs = before ++ [w] ∧ w.capacity = v.capacity ∧
      (∀ location, (w.attempt method timeout).result ≠ .ok (.redirect location)) ∧
      deliveries (eventsOf method timeout before) = [] ∧
      v.transaction method timeout
        = ⟨(w.attempt method timeout).result.map fun _ => (), (w.attempt method timeout).client,
          (w.attempt method timeout).source, eventsOf method timeout vs⟩ := by
  induction h with
  | @last v ends =>
    refine ⟨[], v, rfl, rfl, ends, rfl, ?_⟩
    rw [transaction_of_last ends]
    simp [eventsOf]
  | @hop v location later followed rest ih =>
    obtain ⟨before, w, rfl, hcapacity, hends, hquiet, htransaction⟩ := ih
    refine ⟨v :: before, w, rfl, hcapacity.trans (v.capacity_attempt method timeout), hends, ?_, ?_⟩
    · obtain ⟨-, -, hcalls, -⟩ := (v.attempt_ended method timeout).of_followed followed
      have hevents : deliveries (eventsOf method timeout (v :: before))
          = (v.attempt method timeout).deliveries
            ++ deliveries (eventsOf method timeout before) := deliveries_append _ _
      rw [hevents, hcalls, hquiet]
      rfl
    · rw [transaction_of_followed followed, htransaction]
      rfl

/-- Where an attempt fails the transaction ends, and nothing was said to the sink before it. -/
theorem transaction_of_failed {e : TransferError} (h : Trail method timeout v vs) (hw : w ∈ vs)
    (hfailed : (w.attempt method timeout).result = .error e) :
    (v.transaction method timeout).result = .error e ∧
      (v.transaction method timeout).client = (w.attempt method timeout).client ∧
      (v.transaction method timeout).deliveries = (w.attempt method timeout).deliveries := by
  induction h with
  | @last v ends =>
    obtain rfl := List.mem_singleton.1 hw
    rw [transaction_of_last ends, hfailed]
    exact ⟨rfl, rfl, rfl⟩
  | @hop v location later followed rest ih =>
    rcases List.mem_cons.1 hw with rfl | hlater
    · cases hfailed.symm.trans followed
    · obtain ⟨hresult, hclient, hcalls⟩ := ih hlater
      obtain ⟨-, -, hquiet, -⟩ := (v.attempt_ended method timeout).of_followed followed
      rw [transaction_of_followed followed]
      refine ⟨hresult, hclient, ?_⟩
      rw [← hcalls, Transaction.deliveries, Transaction.after, deliveries_append]
      exact congrArg (· ++ _) hquiet

/-- The visit at a place of a trail has the budget that the visits before it have left, and the same
window. -/
theorem getElem {i : Nat} (h : Trail method timeout v vs) (hi : i < vs.length) :
    vs[i].redirects + i = v.redirects ∧ vs[i].capacity = v.capacity := by
  induction h generalizing i with
  | last ends =>
    obtain rfl : i = 0 := Nat.lt_one_iff.1 hi
    exact ⟨rfl, rfl⟩
  | @hop v location later followed rest ih =>
    cases i with
    | zero => exact ⟨rfl, rfl⟩
    | succ i =>
      obtain ⟨redirects, hredirects⟩ := redirects_of_followed followed
      obtain ⟨hleft, hcapacity⟩ := ih (Nat.lt_of_succ_lt_succ hi)
      refine ⟨?_, hcapacity.trans (v.capacity_attempt method timeout)⟩
      simp only [List.getElem_cons_succ, Visit.hop] at hleft ⊢
      omega

/-- In front of the attempt at a place of a trail, the peers of the attempts before it are gone, one
for each. -/
theorem network_eq {i : Nat} (h : Trail method timeout v vs) (hi : i < vs.length) :
    vs[i].client.network = v.client.network.drop i := by
  induction h generalizing i with
  | last ends =>
    obtain rfl : i = 0 := Nat.lt_one_iff.1 hi
    rfl
  | @hop v location later followed rest ih =>
    cases i with
    | zero => rfl
    | succ i =>
      have hnetwork : (v.hop method timeout location).client.network = v.client.network.drop 1 :=
        (network_of_followed followed).trans List.drop_one.symm
      rw [List.getElem_cons_succ, ih (Nat.lt_of_succ_lt_succ hi), hnetwork, List.drop_drop,
        Nat.add_comm 1 i]

/-- From every visit but the last the trail goes on to the location that was named there. -/
theorem goes_on {i : Nat} (h : Trail method timeout v vs) (hi : i + 1 < vs.length) :
    ∃ location, (vs[i].attempt method timeout).result = .ok (.redirect location) ∧
      vs[i + 1] = vs[i].hop method timeout location := by
  induction h generalizing i with
  | last ends => exact absurd hi (by simp)
  | @hop v location later followed rest ih =>
    cases i with
    | zero =>
      refine ⟨location, followed, ?_⟩
      have hhead := rest.head?_eq
      rw [List.head?_eq_getElem?, List.getElem?_eq_some_iff] at hhead
      exact hhead.2
    | succ i => exact ih (Nat.lt_of_succ_lt_succ hi)

end Trail

end DeviceHttp.Visit
