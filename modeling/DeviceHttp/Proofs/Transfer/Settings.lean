import DeviceHttp.Proofs.Transfer.History
import DeviceHttp.Proofs.Transfer.RedirectedRequests
import DeviceHttp.Proofs.Transfer.Tokens

/-!
# What the caller chose

Credentials, headers and the budget are set by calls, between which there are transactions. Each of
them is what the last call that sets it made it (`Client.LastSet`), whatever failed in between: a
setter puts together what it sets before it changes the client (`Client.replaceCredentials`,
`Client.replaceHeaders`), and no transaction changes it. The head of a request carries it line by
line (`Client.lines_of_settings`), at every attempt of a transaction
(`Client.requests_carry_settings`).
-/

namespace DeviceHttp

open Window (crlf)

/-! ## What can be set -/

namespace Credentials

variable {user password : String}

/-- Both parts have room. -/
def Fit (user password : String) : Prop :=
  (Utf8.ofString user).length ≤ 64 ∧ (Utf8.ofString password).length ≤ 64

instance (user password : String) : Decidable (Fit user password) :=
  inferInstanceAs (Decidable (_ ∧ _))

/-- The token of credentials: the base64 form of the user, a colon and the password. -/
def spelled (user password : String) : String :=
  String.ofList (Base64.encode
    (Utf8.ofString user ++ Utf8.ofString ":" ++ Utf8.ofString password))

theorem token_of_fit (h : Fit user password) :
    token user password = .ok (spelled user password) := by
  rw [Fit, Utf8.length_ofString, Utf8.length_ofString] at h
  rw [token_of_le h.1 h.2, encodeWithin, if_pos (encodedLength_pair_le h.1 h.2),
    Utf8.ofString_append, Utf8.ofString_append]
  rfl

theorem token_of_not_fit (h : ¬ Fit user password) : token user password = .error .overflow := by
  rw [Fit, Utf8.length_ofString, Utf8.length_ofString] at h
  refine token_of_lt ?_
  simp only [userCapacity, passwordCapacity]
  omega

end Credentials

namespace Header

variable {done : List Header} {p : String × String} {pairs : List (String × String)}

/-- The name and the value of a header have room. -/
def HasRoom (p : String × String) : Prop :=
  (Utf8.ofString p.1).length ≤ 64 ∧ (Utf8.ofString p.2).length ≤ 128

instance (p : String × String) : Decidable (HasRoom p) :=
  inferInstanceAs (Decidable (_ ∧ _))

/-- There are no more than eight headers, and each of them has room. -/
def Fit (pairs : List (String × String)) : Prop :=
  pairs.length ≤ 8 ∧ ∀ p ∈ pairs, HasRoom p

instance (pairs : List (String × String)) : Decidable (Fit pairs) :=
  inferInstanceAs (Decidable (_ ∧ _))

/-- Headers as they stand. -/
def ofPairs (pairs : List (String × String)) : List Header :=
  pairs.map fun p => ⟨p.1, p.2⟩

/-- A header in two places of bounded size. -/
def copy (name value : String) : Except TransferError Header := do
  let name ← Credentials.appendWithin nameCapacity "" name
  let value ← Credentials.appendWithin valueCapacity "" value
  pure ⟨name, value⟩

/-- Headers behind those in a list that has room for eight, copied one by one. -/
def copyAll (done : List Header) : List (String × String) → Except TransferError (List Header)
  | [] => pure done
  | (name, value) :: pairs => do
    let header ← copy name value
    if done.length < maxCount then copyAll (done ++ [header]) pairs else throw .overflow

theorem appendWithin_of_fits {capacity : Nat} {text : String}
    (h : (Utf8.ofString text).length ≤ capacity) :
    Credentials.appendWithin capacity "" text = .ok text := by
  rw [Utf8.length_ofString] at h
  have hempty : ("" : String).utf8ByteSize = 0 := rfl
  rw [Credentials.appendWithin_of_le (by omega), String.empty_append]

theorem appendWithin_of_not_fits {capacity : Nat} {text : String}
    (h : ¬ (Utf8.ofString text).length ≤ capacity) :
    Credentials.appendWithin capacity "" text = .error .overflow := by
  rw [Utf8.length_ofString] at h
  have hempty : ("" : String).utf8ByteSize = 0 := rfl
  exact if_neg (by omega)

/-- A header with room is made, and so is its copy. -/
theorem of_hasRoom {name value : String} (h : HasRoom (name, value)) :
    of name value = .ok ⟨name, value⟩ ∧ copy name value = .ok ⟨name, value⟩ := by
  have hname : Credentials.appendWithin nameCapacity "" name = .ok name := appendWithin_of_fits h.1
  have hvalue : Credentials.appendWithin valueCapacity "" value = .ok value :=
    appendWithin_of_fits h.2
  refine ⟨if_pos ?_, ?_⟩
  · rw [Bool.and_eq_true, Utf8.fits_iff, Utf8.fits_iff]
    exact h
  · rw [copy, hname]
    show (Credentials.appendWithin valueCapacity "" value >>= _) = _
    rw [hvalue]
    rfl

theorem of_not_hasRoom {name value : String} (h : ¬ HasRoom (name, value)) :
    of name value = .error .overflow ∧ copy name value = .error .overflow := by
  refine ⟨if_neg ?_, ?_⟩
  · rw [Bool.and_eq_true, Utf8.fits_iff, Utf8.fits_iff]
    exact h
  · rw [copy]
    by_cases hfits : (Utf8.ofString name).length ≤ 64
    · have hname : Credentials.appendWithin nameCapacity "" name = .ok name :=
        appendWithin_of_fits hfits
      have hvalue : Credentials.appendWithin valueCapacity "" value = .error .overflow :=
        appendWithin_of_not_fits fun hroom => h ⟨hfits, hroom⟩
      rw [hname]
      show (Credentials.appendWithin valueCapacity "" value >>= _) = _
      rw [hvalue]
      rfl
    · have hname : Credentials.appendWithin nameCapacity "" name = .error .overflow :=
        appendWithin_of_not_fits hfits
      rw [hname]
      rfl

theorem copyAll_of_fit (hcount : done.length + pairs.length ≤ 8) (hroom : ∀ p ∈ pairs, HasRoom p) :
    copyAll done pairs = .ok (done ++ ofPairs pairs) := by
  induction pairs generalizing done with
  | nil => rw [copyAll, ofPairs, List.map_nil, List.append_nil]; rfl
  | cons p pairs ih =>
    obtain ⟨hp, hpairs⟩ := List.forall_mem_cons.1 hroom
    obtain ⟨name, value⟩ := p
    rw [List.length_cons] at hcount
    have hspace : done.length < maxCount := by simp only [maxCount]; omega
    have hlater := @ih (done ++ [⟨name, value⟩])
      (by rw [List.length_append, List.length_singleton]; omega) hpairs
    rw [copyAll, (of_hasRoom hp).2]
    show (if done.length < maxCount then _ else _) = _
    rw [if_pos hspace, hlater, List.append_assoc]
    rfl

/-- The copies end at the first header without room, or at the ninth; either way none of them is
kept. -/
theorem copyAll_of_not_fit (hdone : done.length ≤ 8)
    (h : ¬ (done.length + pairs.length ≤ 8 ∧ ∀ p ∈ pairs, HasRoom p)) :
    copyAll done pairs = .error .overflow := by
  induction pairs generalizing done with
  | nil => exact absurd ⟨hdone, by simp⟩ h
  | cons p pairs ih =>
    obtain ⟨name, value⟩ := p
    rw [copyAll]
    by_cases hp : HasRoom (name, value)
    · rw [(of_hasRoom hp).2]
      show (if done.length < maxCount then _ else _) = _
      by_cases hspace : done.length < maxCount
      · rw [if_pos hspace]
        simp only [maxCount] at hspace
        refine ih (by rw [List.length_append, List.length_singleton]; omega) fun hlater => h ?_
        rw [List.length_append, List.length_singleton] at hlater
        exact ⟨by rw [List.length_cons]; omega, List.forall_mem_cons.2 ⟨hp, hlater.2⟩⟩
      · rw [if_neg hspace]
        rfl
    · rw [(of_not_hasRoom hp).2]
      rfl

/-- The headers of a list are taken as they stand. -/
theorem list_of_fit (h : Fit pairs) : list pairs = .ok (ofPairs pairs) := by
  obtain ⟨hcount, hroom⟩ := h
  refine (if_pos hcount).trans ?_
  clear hcount
  induction pairs with
  | nil => rfl
  | cons p pairs ih =>
    obtain ⟨hp, hpairs⟩ := List.forall_mem_cons.1 hroom
    obtain ⟨name, value⟩ := p
    rw [List.mapM_cons, ih hpairs]
    show (of name value >>= _) = _
    rw [(of_hasRoom hp).1]
    rfl

theorem list_of_not_fit (h : ¬ Fit pairs) : list pairs = .error .overflow := by
  unfold list
  split
  · next hcount =>
    have hroom : ¬ ∀ p ∈ pairs, HasRoom p := fun hroom => h ⟨hcount, hroom⟩
    clear h hcount
    induction pairs with
    | nil => exact absurd (by simp) hroom
    | cons p pairs ih =>
      obtain ⟨name, value⟩ := p
      rw [List.mapM_cons]
      show (of name value >>= _) = _
      by_cases hp : HasRoom (name, value)
      · rw [(of_hasRoom hp).1, ih fun hpairs => hroom (List.forall_mem_cons.2 ⟨hp, hpairs⟩)]
        rfl
      · rw [(of_not_hasRoom hp).1]
        rfl
  · rfl

end Header

/-! ## Setters in place -/

namespace Client

/-- Put a token together, and then set it. -/
def replaceCredentials (user password : String) : EStateM TransferError Client Unit := do
  let token ← MonadExcept.ofExcept (Credentials.assemble user password)
  modify fun c => { c with authorization := some token }

/-- Copy headers into a list, and then set it. -/
def replaceHeaders (pairs : List (String × String)) : EStateM TransferError Client Unit := do
  let headers ← MonadExcept.ofExcept (Header.copyAll [] pairs)
  modify fun c => { c with headers }

section Replace

variable (c : Client) {user password : String} {pairs : List (String × String)}

/-- Credentials with room are set, in place too. -/
theorem setCredentials_of_fit (h : Credentials.Fit user password) :
    let d := { c with authorization := some (Credentials.spelled user password) }
    c.setCredentials user password = .ok d ∧
      (replaceCredentials user password).run c = .ok () d := by
  have htoken := Credentials.token_of_fit h
  constructor
  · rw [setCredentials, htoken]
  · rw [replaceCredentials, Credentials.assemble_eq_token, htoken]
    rfl

theorem setCredentials_of_not_fit (h : ¬ Credentials.Fit user password) :
    c.setCredentials user password = .error .overflow ∧
      (replaceCredentials user password).run c = .error .overflow c := by
  have htoken := Credentials.token_of_not_fit h
  constructor
  · rw [setCredentials, htoken]
  · rw [replaceCredentials, Credentials.assemble_eq_token, htoken]
    rfl

/-- Headers with room are set as they stand, in place too. -/
theorem setHeaders_of_fit (h : Header.Fit pairs) :
    let d := { c with headers := Header.ofPairs pairs }
    c.setHeaders pairs = .ok d ∧ (replaceHeaders pairs).run c = .ok () d := by
  constructor
  · rw [setHeaders, Header.list_of_fit h]
  · rw [replaceHeaders, Header.copyAll_of_fit (Nat.zero_add _ ▸ h.1) h.2]
    rfl

theorem setHeaders_of_not_fit (h : ¬ Header.Fit pairs) :
    c.setHeaders pairs = .error .overflow ∧ (replaceHeaders pairs).run c = .error .overflow c := by
  constructor
  · rw [setHeaders, Header.list_of_not_fit h]
  · have hcopies : Header.copyAll [] pairs = .error .overflow :=
      Header.copyAll_of_not_fit (Nat.zero_le _) fun hfit =>
        h ⟨Nat.zero_add pairs.length ▸ hfit.1, hfit.2⟩
    rw [replaceHeaders, hcopies]
    rfl

end Replace

/-! ## What a call sets -/

/-- What a call makes of the token, if it sets or clears it. -/
def Call.token? : Call → Option (Option String)
  | .setCredentials user password =>
    if Credentials.Fit user password then some (some (Credentials.spelled user password)) else none
  | .clearCredentials => some none
  | _ => none

/-- What a call makes of the headers, if it sets or clears them. -/
def Call.headers? : Call → Option (List Header)
  | .setHeaders pairs => if Header.Fit pairs then some (Header.ofPairs pairs) else none
  | .clearHeaders => some []
  | _ => none

/-- What a call makes of the budget, if it sets it. -/
def Call.attempts? : Call → Option Nat
  | .setAttempts n => some (max n 1)
  | _ => none

/-- A call sets what it sets, and leaves the rest of what the caller chose. A transaction sets
nothing, and neither does a call that fails. -/
theorem settings_call (c : Client) (call : Call) :
    (c.call call).1.settings
      = ((Call.token? call).getD c.authorization, (Call.headers? call).getD c.headers,
        (Call.attempts? call).getD c.attempts) := by
  cases call with
  | setCredentials user password =>
    by_cases h : Credentials.Fit user password
    · rw [Call.token?, if_pos h, Client.call, (c.setCredentials_of_fit h).1]
      rfl
    · rw [Call.token?, if_neg h, Client.call, (c.setCredentials_of_not_fit h).1]
      rfl
  | setHeaders pairs =>
    by_cases h : Header.Fit pairs
    · rw [Call.headers?, if_pos h, Client.call, (c.setHeaders_of_fit h).1]
      rfl
    · rw [Call.headers?, if_neg h, Client.call, (c.setHeaders_of_not_fit h).1]
      rfl
  | clearCredentials => rfl
  | clearHeaders => rfl
  | setAttempts n => rfl
  | addConnections peers => rfl
  | execute method address source timeout => exact settings_execute method address source timeout c
  | getText address buffer limit timeout => exact settings_execute .get address none timeout c

/-- A value is what the last of some calls made it that set it, and what it was before if none
did. -/
inductive LastSet {α : Type} (set? : Call → Option α) (start : α) (calls : List Call) : α → Prop
  | untouched (none : ∀ call ∈ calls, set? call = none) : LastSet set? start calls start
  | last {earlier later : List Call} {call : Call} {a : α}
    (split : calls = earlier ++ call :: later) (sets : set? call = some a)
    (none : ∀ call ∈ later, set? call = none) : LastSet set? start calls a

section History

variable {α : Type} {set? : Call → Option α} {start a : α} {calls : List Call}

theorem LastSet.cons {call : Call} (h : LastSet set? ((set? call).getD start) calls a) :
    LastSet set? start (call :: calls) a := by
  generalize hbefore : (set? call).getD start = before at h
  cases h with
  | untouched none =>
    cases hcall : set? call with
    | none =>
      rw [hcall] at hbefore
      exact hbefore ▸ .untouched (List.forall_mem_cons.2 ⟨hcall, none⟩)
    | some b =>
      rw [hcall] at hbefore
      exact hbefore ▸ .last (List.nil_append _).symm hcall none
  | @last earlier later last _ split sets none =>
    have hsplit : call :: calls = call :: earlier ++ last :: later := congrArg (call :: ·) split
    exact .last hsplit sets none

/-- What every call sets or keeps is what the last call of a history made it that set it. -/
theorem lastSet_callAll {field : Client → α}
    (hstep : ∀ c call, field (c.call call).1 = (set? call).getD (field c)) (start : Client)
    (calls : List Call) : LastSet set? (field start) calls (field (start.callAll calls).1) := by
  induction calls generalizing start with
  | nil => exact .untouched (by simp)
  | cons call calls ih =>
    refine .cons ?_
    rw [← hstep]
    exact ih (start.call call).1

end History

end Client

/-! ## What a request carries -/

/-- The lines about a body that is sent as it stands, if there is one. -/
def Source.framingLines (source : Option Source) : List String :=
  source.toList.flatMap fun s =>
    RequestHead.framingLine s.framing :: s.contentType.toList.map ("Content-Type: " ++ ·)

/-- The lines of a head, spelled out of what the caller chose. -/
theorem Client.lines_of_settings (c : Client) (method : Method) (url : Url)
    (source : Option Source) :
    (c.requestHead method url source).lines
      = [requestLine method url, hostLine url, "Connection: keep-alive"]
        ++ c.authorization.toList.map ("Authorization: Basic " ++ ·)
        ++ c.headers.map (fun header => header.name ++ ": " ++ header.value)
        ++ Source.framingLines source := by
  cases source <;> rfl

/-- A visit sends its head and its body, as far as they are taken. -/
theorem Visit.taken_request (v : Visit) (method : Method) (timeout : Nat) {url : Url}
    (haddress : Url.parse v.address = .ok url) :
    let log := (v.attempt method timeout).events
    let head := v.client.requestHead method url (v.source.map Source.reset)
    ∃ body, takenBytes log <+: textLines head.lines ++ crlf ++ body ∧
      (.connect url.host url.port true ∈ log → AllTaken log →
        takenBytes log = textLines head.lines ++ crlf ++ body) := by
  intro log head
  rcases v.connected_or_quiet method timeout haddress with
    ⟨hhttp, peer, later, hnetwork⟩ | ⟨hnothing, hrefused⟩
  · obtain ⟨sends, replies, failure, hlog, hposts, hreplies, -⟩ :=
      @Client.posts_request v.client method v.address v.source v.follows timeout url peer later
        haddress hhttp hnetwork
    obtain ⟨hpart, hwhole⟩ := Client.taken_of_posts timeout hlog hposts hreplies
    rw [Exchange.requestPieces, List.flatten_append, flatten_pieces (Window.capacity_pos _),
      RequestHead.ofString_text] at hpart hwhole
    exact ⟨_, hpart, fun _ => hwhole⟩
  · exact ⟨[], hnothing ▸ List.nil_prefix, fun h => absurd h hrefused⟩

namespace Client

/-- The head of a request carries what the caller chose, and nothing else of the client. -/
theorem requestHead_congr {c d : Client} (h : c.settings = d.settings) (method : Method)
    (url : Url) (source : Option Source) :
    c.requestHead method url source = d.requestHead method url source := by
  obtain ⟨hauthorization, hrest⟩ := Prod.mk.inj h
  obtain ⟨hheaders, -⟩ := Prod.mk.inj hrest
  rw [requestHead, hauthorization, hheaders]
  rfl

/-- Token, headers and budget of a client are what the last calls made them that set them, whatever
else was done with it. Every attempt of the next transaction sends a head with these, line by line
as they stand, and the transaction leaves them as they are. Credentials are refused exactly if a
part has no room, and headers if there are too many or one has no room; then nothing of the client
is changed, also where they are set in place. -/
theorem requests_carry_settings (start : Client) (calls : List Call) :
    let c := (start.callAll calls).1
    LastSet Call.token? start.authorization calls c.authorization ∧
    LastSet Call.headers? start.headers calls c.headers ∧
    LastSet Call.attempts? start.attempts calls c.attempts ∧
    (∀ method address source timeout,
      let t := c.execute method address source timeout
      t.client.settings = c.settings ∧
      ∃ vs, Visit.Trail method timeout (c.firstVisit address source) vs ∧
        t.events = .deliver .reset :: Visit.eventsOf method timeout vs ∧
        ∀ v ∈ vs, ∀ url, Url.parse v.address = .ok url →
          let log := (v.attempt method timeout).events
          let lines := [requestLine method url, hostLine url, "Connection: keep-alive"]
            ++ c.authorization.toList.map ("Authorization: Basic " ++ ·)
            ++ c.headers.map (fun header => header.name ++ ": " ++ header.value)
            ++ Source.framingLines (v.source.map Source.reset)
          ∃ body, takenBytes log <+: textLines lines ++ crlf ++ body ∧
            (.connect url.host url.port true ∈ log → AllTaken log →
              takenBytes log = textLines lines ++ crlf ++ body)) ∧
    (∀ user password,
      let d := { c with authorization := some (Credentials.spelled user password) }
      if Credentials.Fit user password then
        c.setCredentials user password = .ok d ∧ (replaceCredentials user password).run c = .ok () d
      else
        c.setCredentials user password = .error .overflow ∧
          (replaceCredentials user password).run c = .error .overflow c) ∧
    ∀ pairs,
      let d := { c with headers := Header.ofPairs pairs }
      if Header.Fit pairs then
        c.setHeaders pairs = .ok d ∧ (replaceHeaders pairs).run c = .ok () d
      else
        c.setHeaders pairs = .error .overflow ∧
          (replaceHeaders pairs).run c = .error .overflow c := by
  intro c
  refine ⟨?token, ?headers, ?attempts, ?requests, ?credentials, ?list⟩
  case token => exact lastSet_callAll (fun c call => congrArg Prod.fst (c.settings_call call)) _ _
  case headers =>
    exact lastSet_callAll (fun c call => congrArg (·.2.1) (c.settings_call call)) _ _
  case attempts =>
    exact lastSet_callAll (fun c call => congrArg (·.2.2) (c.settings_call call)) _ _
  case requests =>
    intro method address source timeout t
    obtain ⟨vs, htrail⟩ := Visit.exists_trail method timeout (c.firstVisit address source)
    obtain ⟨_, _, -, -, -, -, htransaction⟩ := htrail.concludes
    have hevents : t.events = .deliver .reset :: Visit.eventsOf method timeout vs :=
      congrArg (Event.deliver .reset :: Transaction.events ·) htransaction
    refine ⟨c.settings_execute method address source timeout, vs, htrail, hevents, ?_⟩
    intro v hv url haddress
    have hsettings : v.client.settings = c.settings := htrail.settings_eq v hv
    obtain ⟨body, hpart, hwhole⟩ := v.taken_request method timeout haddress
    rw [requestHead_congr hsettings, lines_of_settings] at hpart hwhole
    exact ⟨body, hpart, hwhole⟩
  case credentials =>
    intro user password d
    by_cases h : Credentials.Fit user password
    · rw [if_pos h]
      exact c.setCredentials_of_fit h
    · rw [if_neg h]
      exact c.setCredentials_of_not_fit h
  case list =>
    intro pairs d
    by_cases h : Header.Fit pairs
    · rw [if_pos h]
      exact c.setHeaders_of_fit h
    · rw [if_neg h]
      exact c.setHeaders_of_not_fit h

end Client

end DeviceHttp
