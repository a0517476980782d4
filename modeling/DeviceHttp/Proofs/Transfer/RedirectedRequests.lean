import DeviceHttp.Proofs.Transfer.Redirects
import DeviceHttp.Proofs.Transfer.RequestText

/-!
# What a redirect can change in a request

A location is a part of a header line, and no end of a line lies in one; so none lies in the target
and the host that are read from it (`Url.plain_of_parse`), and the first two lines of the request are
those that were meant. Everything behind them is decided before the transaction starts: the client
keeps what the caller chose, and the source its data (`Client.execute_keeps_request`).
-/

namespace DeviceHttp

open Window (crlf HoldsLine)

/-! ## Texts without the end of a line -/

/-- An end of a line in two texts, one behind the other, lies in one of them, or half in each. The
seam has none if one of its sides is no half of it. -/
theorem Window.not_crlf_append {line rest : Bytes} (hline : ¬ crlf <:+: line)
    (hrest : ¬ crlf <:+: rest) (hseam : line.getLast? ≠ some 13 ∨ rest.head? ≠ some 10) :
    ¬ crlf <:+: line ++ rest := by
  rintro ⟨before, after, h⟩
  rcases List.append_eq_append_iff.1 h with ⟨between, hwhole, -⟩ | ⟨between, hcut, hbehind⟩
  · exact hline ⟨before, between, hwhole.symm⟩
  rcases List.append_eq_append_iff.1 hcut with ⟨half, hfirst, hcrlf⟩ | ⟨more, -, hsecond⟩
  · rcases half with _ | ⟨a, _ | ⟨b, half⟩⟩
    · exact hrest ⟨[], after, by rw [hbehind, hcrlf]; rfl⟩
    · -- the line ends in the first byte, and the rest starts with the second one
      cases hcrlf
      rw [hfirst, hbehind] at hseam
      simp at hseam
    · simp only [crlf, List.cons_append, List.cons.injEq, List.nil_eq, List.append_eq_nil_iff]
        at hcrlf
      obtain ⟨rfl, rfl, rfl, rfl⟩ := hcrlf
      exact hline ⟨before, [], by rw [hfirst, List.append_nil]; rfl⟩
  · exact hrest ⟨more, after, by rw [hbehind, hsecond]⟩

theorem Utf8.infix_encode {cs ds : List Char} (h : cs <:+: ds) : encode cs <:+: encode ds := by
  obtain ⟨before, after, rfl⟩ := h
  exact ⟨encode before, encode after, by rw [encode_append, encode_append]⟩

/-- No end of a line lies in the text. -/
def OneLine (s : String) : Prop :=
  ¬ crlf <:+: Utf8.ofString s

namespace OneLine

theorem of_not_mem {s : String} (h : 13 ∉ Utf8.ofString s) : OneLine s := by
  rintro ⟨before, after, hcut⟩
  rw [← hcut] at h
  simp [crlf] at h

theorem of_infix {s t : String} (ht : OneLine t) (h : s.toList <:+: t.toList) : OneLine s :=
  fun hs => ht (hs.trans (Utf8.infix_encode h))

theorem append {s t : String} (hs : OneLine s) (ht : OneLine t)
    (hseam : (Utf8.ofString s).getLast? ≠ some 13 ∨ (Utf8.ofString t).head? ≠ some 10) :
    OneLine (s ++ t) := by
  unfold OneLine
  rw [Utf8.ofString_append]
  exact Window.not_crlf_append hs ht hseam

/-- The digits of a number are one line. -/
theorem decimal (n : Nat) : OneLine (Decimal.text n) := by
  have hdigit : ∀ m : Fin 10, 13 ∉ String.utf8EncodeChar (Decimal.digit m) := by decide +kernel
  refine of_not_mem ?_
  unfold Utf8.ofString Decimal.text
  rw [String.toList_ofList]
  induction n using Nat.strongRecOn with
  | ind n ih =>
    rw [Decimal.render]
    split
    · next hn => simpa using hdigit ⟨n, hn⟩
    · next hn =>
      rw [Utf8.encode_append, List.mem_append, not_or]
      exact ⟨ih (n / 10) (by omega), by simpa using hdigit ⟨n % 10, Nat.mod_lt n (by decide)⟩⟩

/-- A location that is named on a line is one line. -/
theorem of_namesLocation {capacity : Nat} {line : Bytes} {location : String}
    (hline : HoldsLine capacity line) (h : HeaderBlock.NamesLocation line location) :
    OneLine location := by
  obtain ⟨⟨⟨gap, rfl, -⟩, -, -, -⟩, -⟩ := HeaderBlock.namesLocation_iff.1 h
  have hvalue : location.toList <:+: "Location".toList ++ ':' :: (gap ++ location.toList) :=
    ((List.suffix_append gap _).trans (List.suffix_cons ':' _)).isInfix.trans
      (List.suffix_append _ _).isInfix
  exact fun hcrlf => hline.noEnd (hcrlf.trans (Utf8.infix_encode hvalue))

end OneLine

/-! ## Addresses of one line -/

/-- Target and host are one line each. -/
structure Url.Plain (url : Url) : Prop where
  target : OneLine url.path
  host : OneLine (url.host ++ ":" ++ Decimal.text url.port.toNat)

namespace Url

/-- The host of an address stands in it as it is, so it has no character that the address does not
have. -/
theorem infix_of_readAuthority {cs host : List Char} {port : UInt16}
    (h : readAuthority cs = some (host, port)) : host <:+: cs := by
  unfold readAuthority at h
  split at h
  · obtain ⟨rfl, -⟩ := Prod.mk.inj (Option.some.inj h)
    exact List.infix_rfl
  · next host' port' hcut =>
    obtain ⟨p, -, hp⟩ := Option.map_eq_some_iff.1 h
    obtain ⟨rfl, -⟩ := Prod.mk.inj hp
    rw [Cut.eq_append_of_around hcut, List.append_assoc]
    exact (List.prefix_append _ _).isInfix

/-- The parts of a URL are parts of its text, up to the slash in front of its path. -/
theorem infix_of_parse {address : String} {url : Url} (h : Url.parse address = .ok url) :
    url.host.toList <:+: address.toList ∧
      ∃ path, path <:+: address.toList ∧ url.path.toList = rooted path := by
  have hread : read? address.toList = some url := by
    unfold parse at h
    split at h
    · next url' hurl => rw [hurl, Except.ok.inj h]
    · cases h
  obtain ⟨⟨scheme, behind⟩, hscheme, hbehind⟩ := Option.bind_eq_some_iff.1 hread
  obtain ⟨⟨host, port⟩, hauthority, hparts⟩ := Option.bind_eq_some_iff.1 hbehind
  have hrest : behind.takeWhile (· ≠ '#') <:+: address.toList := by
    rw [Cut.eq_append_of_around hscheme]
    exact (List.takeWhile_prefix _).isInfix.trans (List.suffix_append _ _).isInfix
  unfold ofParts? at hparts
  dsimp only at hparts
  split at hparts
  · obtain rfl := Option.some.inj hparts
    dsimp only
    rw [String.toList_ofList, String.toList_ofList]
    exact ⟨((infix_of_readAuthority hauthority).trans (List.takeWhile_prefix _).isInfix).trans hrest,
      _, (List.dropWhile_suffix _).isInfix.trans hrest, rfl⟩
  · cases hparts

/-- What is read from a text of one line is plain: host and path are parts of the text, so no line
end can come in with them. -/
theorem plain_of_parse {address : String} {url : Url} (haddress : OneLine address)
    (h : Url.parse address = .ok url) : url.Plain := by
  obtain ⟨hhost, path, hpath, hrooted⟩ := infix_of_parse h
  constructor
  · have hslash : OneLine "/" := .of_not_mem (by decide +kernel)
    have hplain : OneLine (String.ofList path) :=
      haddress.of_infix (by rw [String.toList_ofList]; exact hpath)
    have hcases : url.path = String.ofList path ∨ url.path = "/" ++ String.ofList path := by
      rw [← String.ofList_toList (s := url.path), hrooted]
      unfold rooted
      split
      · exact .inl rfl
      · exact .inr (@String.ofList_append ['/'] path)
    rcases hcases with htarget | htarget
    · rw [htarget]
      exact hplain
    · rw [htarget]
      exact hslash.append hplain (.inl (by decide +kernel))
  · have hcolon : Utf8.ofString ":" = [58] := by decide +kernel
    have hname : OneLine (url.host ++ ":") :=
      (haddress.of_infix hhost).append (.of_not_mem (by decide +kernel)) (.inr (by decide +kernel))
    refine hname.append (.decimal _) (.inl ?_)
    rw [Utf8.ofString_append, hcolon, List.getLast?_concat]
    decide

end Url

/-! ## The first two lines -/

/-- The text of a request with these bytes behind the line that names the host. -/
def requestText (method : Method) (url : Url) (common : Bytes) : Bytes :=
  Utf8.ofString (requestLine method url) ++ crlf ++ (Utf8.ofString (hostLine url) ++ crlf ++ common)

namespace Url.Plain

variable {url : Url}

/-- The request line of such an address is one line: nothing in it could be taken for a line end. -/
theorem requestLine (h : url.Plain) (method : Method) : OneLine (requestLine method url) := by
  have hspace : Utf8.ofString " " = [32] := by decide +kernel
  have hmethod : OneLine (method.text ++ " ") := by
    refine .of_not_mem ?_
    cases method <;> decide +kernel
  have htarget : OneLine (method.text ++ " " ++ url.path) := by
    refine hmethod.append h.target (.inl ?_)
    rw [Utf8.ofString_append, hspace, List.getLast?_concat]
    decide
  exact htarget.append (.of_not_mem (by decide +kernel)) (.inr (by decide +kernel))

/-- The line with the host is one line, for the same reason. -/
theorem hostLine (h : url.Plain) : OneLine (hostLine url) := by
  have hname : OneLine "Host: " := .of_not_mem (by decide +kernel)
  have hline : DeviceHttp.hostLine url
      = "Host: " ++ (url.host ++ ":" ++ Decimal.text url.port.toNat) := by
    unfold DeviceHttp.hostLine
    simp only [String.append_assoc]
  rw [hline]
  exact hname.append h.host (.inl (by decide +kernel))

/-- The first two lines of a request to a plain URL are the two that were meant. -/
theorem around_requestText (h : url.Plain) (method : Method) (common : Bytes) :
    Cut.around crlf (requestText method url common)
        = some (Utf8.ofString (DeviceHttp.requestLine method url),
          Utf8.ofString (DeviceHttp.hostLine url) ++ crlf ++ common) ∧
      Cut.around crlf (Utf8.ofString (DeviceHttp.hostLine url) ++ crlf ++ common)
        = some (Utf8.ofString (DeviceHttp.hostLine url), common) :=
  ⟨Window.around_crlf_iff.2 ⟨rfl, h.requestLine method⟩,
    Window.around_crlf_iff.2 ⟨rfl, h.hostLine⟩⟩

end Url.Plain

namespace Client

/-- What a client sends behind the line that names the host. -/
def commonText (c : Client) (source : Option Source) : Bytes :=
  textLines (c.commonLines source) ++ crlf ++ Source.text source

theorem headText_append (c : Client) (method : Method) (url : Url) (source : Option Source) :
    c.headText method url source ++ Source.text source
      = requestText method url (c.commonText source) := by
  unfold headText requestText commonText
  rw [textLines_cons, textLines_cons]
  simp only [List.append_assoc]

/-- An attempt that gets a connection sends its request, as far as it is taken. Its target and its
host are those of the address, and the rest does not depend on it. -/
theorem takenBytes_attempt (c : Client) (method : Method) {address : String}
    {source : Option Source} (follow : Bool) (timeout : Nat) {url : Url} {peer : Peer}
    {later : List (Option Peer)} (haddress : Url.parse address = .ok url)
    (hhttp : url.isHttp = true) (hnetwork : c.network = some peer :: later)
    (hheld : ∀ s ∈ source, s.content?.isSome) :
    let t := c.attempt method address source follow timeout
    let text := requestText method url (c.commonText source)
    takenBytes t.events <+: text ∧ (AllTaken t.events → takenBytes t.events = text) := by
  intro t text
  obtain ⟨sends, replies, failure, hevents, hposts, hreplies, -⟩ :=
    c.posts_attempt method follow timeout haddress hhttp hnetwork hheld
  have hflatten : _ = text :=
    (c.flatten_request _ (Source.text source)).trans (c.headText_append method url source)
  exact hflatten ▸ taken_of_posts timeout hevents hposts hreplies

end Client

/-! ## All attempts of a transaction -/

namespace Source.SameData

variable {s s' : Source}

theorem content?_eq (h : s.SameData s') : s.content? = s'.content? := by
  cases h <;> rfl

theorem contentType_eq (h : s.SameData s') : s.contentType = s'.contentType := by
  cases h <;> rfl

/-- A source over the same data makes for the same lines and the same body. -/
theorem rel_text {source fresh : Option Source} (h : Option.Rel SameData source fresh) :
    Source.lines fresh = Source.lines source ∧ Source.text fresh = Source.text source := by
  cases h with
  | none => exact ⟨rfl, rfl⟩
  | some h =>
    unfold Source.lines Source.text
    dsimp only [Option.bind_some]
    rw [h.content?_eq, h.contentType_eq]
    exact ⟨rfl, rfl⟩

/-- A source over the same data as one that is held in memory is held in memory. -/
theorem rel_held {source fresh : Option Source} (h : Option.Rel SameData source fresh)
    (hheld : ∀ s ∈ source, s.content?.isSome) : ∀ s ∈ fresh, s.content?.isSome := by
  cases h with
  | none => exact hheld
  | some h =>
    rintro _ ⟨⟩
    rw [← h.content?_eq]
    exact hheld _ rfl

/-- A body that is held whole has its own data. -/
theorem rel_self {source : Option Source} (h : ∀ s ∈ source, s.content?.isSome) :
    Option.Rel SameData source source := by
  cases source with
  | none => exact .none
  | some s =>
    cases s with
    | fixed body => exact .some (.fixed _ _ _ _)
    | form body => exact .some (.form _ _ _ _ _)
    | stream body => cases h _ rfl

end Source.SameData

namespace Visit

variable {v : Visit} {vs : List Visit} {method : Method} {timeout : Nat} {source : Option Source}

/-- What the caller chose is the same at every visit. -/
theorem Trail.settings_eq (h : Trail method timeout v vs) :
    ∀ w ∈ vs, w.client.settings = v.client.settings := by
  induction h with
  | last ends => exact List.forall_mem_singleton.2 rfl
  | @hop v location later followed rest ih =>
    refine List.forall_mem_cons.2 ⟨rfl, fun w hw => (ih w hw).trans ?_⟩
    exact v.client.settings_attempt method v.address v.source v.follows timeout

/-- Every visit has a source over the data of the first one. -/
theorem Trail.sameData (h : Trail method timeout v vs)
    (hsource : Option.Rel Source.SameData source v.source) :
    ∀ w ∈ vs, Option.Rel Source.SameData source w.source := by
  induction h with
  | last ends => exact List.forall_mem_singleton.2 hsource
  | hop followed rest ih => exact List.forall_mem_cons.2 ⟨hsource, ih (holds_attempt hsource)⟩

/-- What is sent behind the line that names the host is the same at every visit. -/
theorem Trail.commonText_eq (h : Trail method timeout v vs)
    (hheld : ∀ s ∈ v.source, s.content?.isSome) :
    ∀ w ∈ vs, w.client.commonText w.source = v.client.commonText v.source := by
  intro w hw
  obtain ⟨hlines, htext⟩ :=
    Source.SameData.rel_text (h.sameData (Source.SameData.rel_self hheld) w hw)
  have hsettings := h.settings_eq w hw
  obtain ⟨hauthorization, hrest⟩ := Prod.mk.inj hsettings
  obtain ⟨hheaders, -⟩ := Prod.mk.inj hrest
  unfold Client.commonText Client.commonLines
  rw [hlines, htext, hauthorization, hheaders]

/-- A visit gets a connection, or it sends nothing. -/
theorem connected_or_quiet (v : Visit) (method : Method) (timeout : Nat) {url : Url}
    (haddress : Url.parse v.address = .ok url) :
    (url.isHttp = true ∧ ∃ peer later, v.client.network = some peer :: later) ∨
      takenBytes (v.attempt method timeout).events = [] ∧
        .connect url.host url.port true ∉ (v.attempt method timeout).events := by
  have hcourse := v.attempt_course method timeout
  generalize v.attempt method timeout = t at *
  cases hcourse with
  | malformed unusable => exact .inr ⟨rfl, List.not_mem_nil⟩
  | refused address http network => exact .inr ⟨rfl, by simp⟩
  | @connected url' peer o address http network converse =>
    obtain rfl := Except.ok.inj (haddress.symm.trans address)
    exact .inl ⟨http, peer, List.head?_eq_some_iff.1 network⟩

/-- A visit sends its request, as far as it is taken, and sends nothing else. -/
theorem takenBytes_attempt (v : Visit) (method : Method) (timeout : Nat) {url : Url}
    (haddress : Url.parse v.address = .ok url) (hheld : ∀ s ∈ v.source, s.content?.isSome) :
    let log := (v.attempt method timeout).events
    let text := requestText method url (v.client.commonText v.source)
    takenBytes log <+: text ∧
      (.connect url.host url.port true ∈ log → AllTaken log → takenBytes log = text) := by
  intro log text
  rcases v.connected_or_quiet method timeout haddress with
    ⟨hhttp, peer, later, hnetwork⟩ | ⟨hnothing, hrefused⟩
  · obtain ⟨hpart, hwhole⟩ := v.client.takenBytes_attempt method v.follows timeout haddress hhttp
      hnetwork hheld
    exact ⟨hpart, fun _ hall => hwhole hall⟩
  · rw [hnothing]
    exact ⟨List.nil_prefix, fun h => absurd h hrefused⟩

/-- A visit that is reached over a location has an address of one line. -/
theorem Trail.oneLine_address {i : Nat} (h : Trail method timeout v vs) (hi : i + 1 < vs.length) :
    OneLine vs[i + 1].address := by
  obtain ⟨location, hfollowed, hnext⟩ := h.goes_on hi
  obtain ⟨_, _, _, _, _, -, -, hline, hnames⟩ := (attempt_follows_iff.1 hfollowed).2
  rw [hnext]
  exact .of_namesLocation hline hnames

end Visit

/-- All attempts of a transaction whose body is held whole send the same method, the same bytes
behind the line that names the host, and the same body: only target and host differ. Where they come
from a location, they are one line each, so that the first two lines of the request are the two that
name them, and what follows is what the caller chose. -/
theorem Client.execute_keeps_request (c : Client) (n : Nat) (method : Method) (address : String)
    {source : Option Source} (timeout : Nat) (hheld : ∀ s ∈ source, s.content?.isSome) :
    let client := c.setAttempts n
    let t := client.execute method address source timeout
    let common := c.commonText source
    ∃ legs, Route client (max n 1) address legs t ∧
      ∀ (i : Nat) (hi : i < legs.length) (url : Url), Url.parse legs[i].address = .ok url →
        let text := requestText method url common
        (takenBytes legs[i].log <+: text ∧
          (.connect url.host url.port true ∈ legs[i].log → AllTaken legs[i].log →
            takenBytes legs[i].log = text)) ∧
        (0 < i → url.Plain ∧
          Cut.around crlf text
            = some (Utf8.ofString (requestLine method url),
              Utf8.ofString (hostLine url) ++ crlf ++ common) ∧
          Cut.around crlf (Utf8.ofString (hostLine url) ++ crlf ++ common)
            = some (Utf8.ofString (hostLine url), common)) := by
  intro client t common
  have hattempts : 0 < client.attempts := Nat.le_max_right n 1
  obtain ⟨vs, htrail⟩ := Visit.exists_trail method timeout (client.firstVisit address source)
  refine ⟨_, Visit.route_of_trail hattempts htrail, ?_⟩
  intro i hi url haddress text
  rw [List.getElem_map] at haddress ⊢
  have hi : i < vs.length := List.length_map (Visit.leg method timeout) ▸ hi
  have hmem : vs[i] ∈ vs := List.getElem_mem hi
  have hcommon : vs[i].client.commonText vs[i].source = common :=
    htrail.commonText_eq hheld _ hmem
  have hsource : ∀ s ∈ vs[i].source, s.content?.isSome :=
    Source.SameData.rel_held
      (htrail.sameData (Source.SameData.rel_self hheld) _ hmem) hheld
  constructor
  · have hsent := vs[i].takenBytes_attempt method timeout haddress hsource
    rwa [hcommon] at hsent
  · intro hpos
    cases i with
    | zero => exact absurd hpos (Nat.lt_irrefl 0)
    | succ i =>
      have hplain : url.Plain := Url.plain_of_parse (htrail.oneLine_address hi) haddress
      exact ⟨hplain, hplain.around_requestText method common⟩

/-- A location that leads to another host, for a request whose body was read in part before. Both
attempts send it from its start. -/
theorem Client.execute_keeps_request_of_half_read :
    let c := { new 64 with
      network := [some (.sending [Utf8.ofString "HTTP/1.1 307\r\nLocation: http://b/x\r\n"]),
        some (.sending [Utf8.ofString "HTTP/1.1 200\r\n\r\n"])] }
    let source := Source.fixed ⟨"text/plain", Utf8.ofString "hi", Utf8.ofString "i"⟩
    let t := (c.setAttempts 2).execute .post "http://a/" (some source) 1000
    connects t.events = [("a", 80), ("b", 80)] ∧ AllTaken t.events ∧
      ∃ legs, Route (c.setAttempts 2) 2 "http://a/" legs t ∧
        ∀ leg ∈ legs, ∀ url, Url.parse leg.address = .ok url →
          takenBytes leg.log <+: requestText .post url (c.commonText (some source)) := by
  intro c source t
  have hheld : ∀ s ∈ some source, s.content?.isSome := by
    rintro _ ⟨⟩
    rfl
  obtain ⟨legs, hroute, hlegs⟩ := c.execute_keeps_request 2 .post "http://a/" 1000 hheld
  refine ⟨by decide +kernel, by decide +kernel, legs, hroute, ?_⟩
  intro leg hleg url haddress
  obtain ⟨i, hi, rfl⟩ := List.getElem_of_mem hleg
  exact (hlegs i hi url haddress).1.1

end DeviceHttp
