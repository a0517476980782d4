import DeviceHttp.Proofs.Transfer.Demand
import DeviceHttp.Proofs.Transfer.Trails

/-!
# The grammar of a status line

`StatusLine.Cuts` says what the parts of a status line are, and `StatusLine.Spells` which code it
spells. The parser accepts these lines and no others (`StatusLine.parse_eq_ok_iff`). A code that is
not accepted ends the transaction: no header is read, and nothing is asked for behind the status line
(`Exchange.readResponse_of_rejected`).
-/

namespace DeviceHttp

open Window (crlf HoldsLine)

namespace StatusLine

/-! ## The grammar -/

/-- The characters are the name of the protocol, two numbers with a point between them, spaces, a
code, and nothing more or a space and anything. -/
structure Cuts (cs major minor gap code reason : List Char) : Prop where
  line : cs = protocolName ++ (major ++ '.' :: minor) ++ gap ++ code ++ reason
  major : Decimal.isNumeral major = true
  minor : Decimal.isNumeral minor = true
  gap : gap ≠ [] ∧ ∀ c ∈ gap, c = ' '
  code : Decimal.isNumeral code = true
  reason : ∀ c ∈ reason.head?, c = ' '

/-- The line is a status line of this code. -/
def Spells (line : Bytes) (n : Nat) : Prop :=
  ∃ cs major minor gap code reason, line = Utf8.encode cs ∧ Cuts cs major minor gap code reason ∧
    Decimal.value code = n ∧ n ≤ 65535

/-! ## The parser against the grammar -/

/-- No sign that is not a digit lies in a number. -/
theorem notMem_of_isNumeral {c : Char} {cs : List Char} (h : Decimal.isNumeral cs = true)
    (hc : c.isDigit = false) : c ∉ cs := by
  intro hmem
  rw [(Decimal.isNumeral_iff.1 h).2 c hmem] at hc
  cases hc

/-- What starts with a number starts with a digit. -/
theorem isDigit_head {cs rest : List Char} (h : Decimal.isNumeral cs = true) {c : Char}
    (hc : c ∈ (cs ++ rest).head?) : c.isDigit = true := by
  obtain ⟨hne, hdigits⟩ := Decimal.isNumeral_iff.1 h
  rw [List.head?_append, List.head?_eq_some_head hne, Option.some_or] at hc
  exact Option.some.inj hc ▸ hdigits _ (List.head_mem hne)

theorem isVersion_iff {cs : List Char} :
    isVersion cs = true ↔ ∃ major minor, cs = major ++ '.' :: minor ∧
      Decimal.isNumeral major = true ∧ Decimal.isNumeral minor = true := by
  unfold isVersion
  constructor
  · intro h
    split at h
    · cases h
    · next major minor hcut =>
      obtain ⟨hcs, -⟩ := Cut.around_singleton_eq_some_iff.1 hcut
      exact ⟨major, minor, hcs, Bool.and_eq_true_iff.1 h⟩
  · rintro ⟨major, minor, rfl, hmajor, hminor⟩
    rw [Cut.around_of_notMem (notMem_of_isNumeral hmajor (by decide))]
    exact Bool.and_eq_true_iff.2 ⟨hmajor, hminor⟩

theorem readCode_eq_some_iff {cs : List Char} {n : Nat} :
    readCode cs = some n ↔ ∃ code reason, cs = code ++ reason ∧ Decimal.isNumeral code = true ∧
      (∀ c ∈ reason.head?, c = ' ') ∧ Decimal.value code = n ∧ n ≤ 65535 := by
  have hread : readCode cs = some n ↔ (∀ c ∈ (Decimal.span cs).2.head?, c = ' ') ∧
      Decimal.digits? codeLimit (Decimal.span cs).1 = some n := by
    unfold readCode
    split
    · next hnil => simp [hnil]
    · next hspace => simp [hspace]
    · next hempty hspace =>
      apply iff_of_false nofun
      intro h
      obtain ⟨c, rest, hcons⟩ := List.exists_cons_of_ne_nil hempty
      rw [hcons] at h
      exact hspace rest (hcons.trans (congrArg (· :: rest) (h.1 c rfl)))
  rw [hread]
  constructor
  · rintro ⟨hreason, hcode⟩
    obtain ⟨hne, hdigits, hlt, rfl⟩ := Decimal.digits?_eq_some_iff.1 hcode
    exact ⟨_, _, (Decimal.span_append cs).symm, Decimal.isNumeral_iff.2 ⟨hne, hdigits⟩, hreason,
      rfl, Nat.le_of_lt_succ hlt⟩
  · rintro ⟨code, reason, rfl, hcode, hreason, rfl, hle⟩
    obtain ⟨hne, hdigits⟩ := Decimal.isNumeral_iff.1 hcode
    have hspan : Decimal.span (code ++ reason) = (code, reason) := by
      apply Decimal.span_of_digits hdigits
      intro c hc
      rw [hreason c hc]
      rfl
    rw [hspan]
    exact ⟨hreason, Decimal.digits?_eq_some_iff.2 ⟨hne, hdigits, Nat.lt_succ_of_le hle, rfl⟩⟩

theorem read?_eq_some_iff {cs : List Char} {n : Nat} :
    read? cs = some n ↔ ∃ major minor gap code reason, Cuts cs major minor gap code reason ∧
      Decimal.value code = n ∧ n ≤ 65535 := by
  unfold read?
  constructor
  · intro h
    split at h
    · next hprefix =>
      obtain ⟨behind, rfl⟩ := List.isPrefixOf_iff_prefix.1 hprefix
      rw [List.drop_left] at h
      split at h
      · cases h
      · next version rest hcut =>
        obtain ⟨rfl, -⟩ := Cut.around_singleton_eq_some_iff.1 hcut
        split at h
        · next hversion =>
          obtain ⟨major, minor, rfl, hmajor, hminor⟩ := isVersion_iff.1 hversion
          obtain ⟨code, reason, hrest, hcode, hreason, hvalue, hle⟩ := readCode_eq_some_iff.1 h
          have hgap : ∀ c ∈ ' ' :: rest.takeWhile (· = ' '), c = ' ' := by
            intro c hc
            rcases List.mem_cons.1 hc with rfl | hc
            · rfl
            · exact of_decide_eq_true (List.all_eq_true.1 List.all_takeWhile c hc)
          refine ⟨major, minor, _, code, reason,
            ⟨?_, hmajor, hminor, ⟨List.cons_ne_nil _ _, hgap⟩, hcode, hreason⟩, hvalue, hle⟩
          conv => lhs; rw [← List.takeWhile_append_dropWhile (l := rest) (p := (· = ' ')), hrest]
          simp
        · cases h
    · cases h
  · rintro ⟨major, minor, gap, code, reason, hcuts, hvalue, hle⟩
    obtain ⟨space, spaces, rfl⟩ := List.exists_cons_of_ne_nil hcuts.gap.1
    obtain ⟨rfl, hspaces⟩ := List.forall_mem_cons.1 hcuts.gap.2
    have hcs : cs = protocolName
        ++ ((major ++ '.' :: minor) ++ ' ' :: (spaces ++ (code ++ reason))) := by
      rw [hcuts.line]
      simp
    have hversion : ' ' ∉ major ++ '.' :: minor := by
      simp only [List.mem_append, List.mem_cons, not_or]
      exact ⟨notMem_of_isNumeral hcuts.major (by decide), by decide,
        notMem_of_isNumeral hcuts.minor (by decide)⟩
    have hdrop : (spaces ++ (code ++ reason)).dropWhile (· = ' ') = code ++ reason := by
      refine (Cut.while_append (fun c hc => decide_eq_true (hspaces c hc)) ?_).2
      intro c hc
      apply decide_eq_false
      intro hspace
      have hdigit := isDigit_head hcuts.code hc
      rw [hspace] at hdigit
      cases hdigit
    rw [hcs, if_pos (List.isPrefixOf_iff_prefix.2 ⟨_, rfl⟩), List.drop_left,
      Cut.around_of_notMem hversion]
    dsimp only
    rw [if_pos (isVersion_iff.2 ⟨major, minor, rfl, hcuts.major, hcuts.minor⟩), hdrop]
    exact readCode_eq_some_iff.2 ⟨code, reason, rfl, hcuts.code, hcuts.reason, hvalue, hle⟩

theorem read_eq_some_iff {line : Bytes} {n : Nat} :
    (Utf8.decode? line).bind read? = some n ↔ Spells line n := by
  rw [Option.bind_eq_some_iff]
  apply exists_congr
  intro cs
  rw [Utf8.decode?_eq_some_iff, read?_eq_some_iff]
  simp only [exists_and_left]

theorem parse_eq_ok_iff {line : Bytes} {code : Nat} : parse line = .ok code ↔ Spells line code := by
  rw [← read_eq_some_iff, parse]
  cases (Utf8.decode? line).bind read? with
  | none => exact iff_of_false nofun nofun
  | some n => simp

theorem parse_eq_error_iff {line : Bytes} :
    parse line = .error .protocol ↔ ∀ code, ¬ Spells line code := by
  simp only [← read_eq_some_iff, ← Option.eq_none_iff_forall_ne_some]
  rw [parse]
  cases (Utf8.decode? line).bind read? with
  | none => exact iff_of_true rfl rfl
  | some n => exact iff_of_false nofun nofun

end StatusLine

/-! ## Statuses that are not accepted -/

namespace Exchange

/-- A status that is not accepted ends the response, and leaves everything behind its line where it
is. -/
theorem readResponse_of_rejected {c : Client} {x : Exchange} {follow : Bool} {line rest : Bytes}
    {code : Nat} (h : Begun c x) (hline : HoldsLine c.window.capacity line)
    (hcode : StatusLine.parse line = .ok code) (hrejected : Client.accepts code = false)
    (hheard : heard (Outcome.exchange (Client.readResponse follow x)).trace
      = line ++ crlf ++ rest) :
    ∃ y, Client.readResponse follow x = .error (.status code) y ∧ x.readStatus = .ok code y ∧
      y.window.pending = rest ∧ y.status = code ∧ y.location = c.location := by
  -- on any feed that starts with these bytes the code is read
  have hfeed {got : Bytes} (ending : StreamEnd) (hgot : got = line ++ crlf ++ rest) :
      (x.replay got ending).readStatus
        = .ok code { x.replay got ending with bytes := rest, status := code } := by
    apply Feed.readStatus_of_line _ hcode
    · show x.window.pending ++ got = _
      rw [h.pending, hgot, List.nil_append]
    · show HoldsLine x.window.capacity line
      rwa [h.capacity]
  have hreplays := replays_readStatus x
  rw [readResponse_eq] at hheard ⊢
  cases hstatus : x.readStatus with
  | error e y =>
    rw [hstatus] at hreplays hheard
    obtain ⟨got, ending, f, hgot, hsame, -⟩ := hreplays.cases_error
    rw [h.heard_eq_nil, List.nil_append] at hgot
    rw [hfeed ending (hgot.symm.trans hheard)] at hsame
    cases hsame
  | ok n y =>
    rw [hstatus] at hreplays hheard
    obtain ⟨got, hgot, hsame⟩ := hreplays.cases_ok
    obtain ⟨new, hnew, -⟩ := adds_judge follow n y
    have hbytes : got ++ heard new = line ++ crlf ++ rest := by
      rw [← hheard, andThen, hnew, heard_append, hgot, h.heard_eq_nil, List.nil_append]
    have hread := (hsame (heard new) .closed).symm.trans (hfeed _ hbytes)
    obtain ⟨rfl, hy⟩ := EStateM.Result.ok.inj hread
    have hjudge : judge follow n y = .error (.status n) y := if_neg (by rw [hrejected]; simp)
    rw [hjudge] at hnew
    obtain rfl : new = [] := List.self_eq_append_right.1 hnew
    refine ⟨y, hjudge, rfl, ?_, congrArg (fun f => f.status) hy,
      (congrArg (fun f => f.location) hy).trans h.location⟩
    rw [← List.append_nil y.window.pending]
    exact congrArg Feed.bytes hy

end Exchange

namespace Visit

/-- What comes of an attempt whose response starts with a status that is not accepted. -/
structure Rejects (v : Visit) (t : Transaction Client.Step) (line rest : Bytes) (code : Nat) :
    Prop where
  result : t.result = .error (.status code)
  status : t.client.status = code
  location : t.client.location = v.client.location
  /-- Nothing behind the status line was read. -/
  unread : t.client.window.pending = rest
  within : Within (line.length + 2) t.events
  calls : t.deliveries = []

variable {v : Visit} {method : Method} {timeout : Nat} {line rest : Bytes} {code : Nat}

theorem attempt_rejects (hline : HoldsLine v.capacity line)
    (hcode : StatusLine.parse line = .ok code) (hrejected : Client.accepts code = false)
    (hheard : heard (v.attempt method timeout).events = line ++ crlf ++ rest) :
    Rejects v (v.attempt method timeout) line rest code := by
  rcases v.attempt_cases method timeout with hsilent | ⟨x, url, hbegun, hattempt⟩
  · rw [hsilent.heard] at hheard
    exact absurd ⟨line, rest, hline, hcode, hheard⟩ (not_reports_nil v.capacity code)
  · rw [hattempt] at hheard ⊢
    rw [heard_connection] at hheard
    obtain ⟨y, hresponse, hstatus, hpending, hcode', hlocation⟩ :=
      Exchange.readResponse_of_rejected hbegun hline hcode hrejected hheard
    have hadds : Exchange.Adds Event.IsReceive x y :=
      Exchange.Outcome.exchange_of_ok hstatus ▸ Exchange.adds_readStatus x
    rw [hresponse] at hheard ⊢
    have hsends : ∀ e ∈ x.trace, ¬ e.IsReceive := by
      intro e he
      obtain ⟨bytes, timeout, accepted, rfl⟩ := hbegun.sends e he
      exact id
    have hstart : Within (line.length + 2) x.trace := (Within.nil _).append hsends
    have hreceived : received y.trace ≤ line.length + 2 + y.window.pending.length := by
      rw [received_eq_length_heard, hpending]
      have hlength := congrArg List.length hheard
      simp only [List.length_append, crlf, List.length_cons, List.length_nil] at hlength
      exact Nat.le_of_eq hlength
    have hwithin := (Exchange.frugal_readStatus hstatus).within _ hreceived hstart
    refine ⟨rfl, hcode', hlocation, hpending, ?_, ?_⟩
    · exact .cons (hwithin.append (by simp [Event.IsReceive])) id
    · rw [Transaction.deliveries, deliveries_connection]
      exact hadds.deliveries_eq.trans hbegun.deliveries_eq_nil

end Visit

/-- A line is accepted exactly if it spells a code, and any other is an error of the peer. A
transaction that comes upon a code that is no success and no redirection fails with it: it keeps the
code, and neither reads nor asks for anything behind the status line, and the sink is not called but
for the reset in front of it all. -/
theorem Client.status_lines_decide (line : Bytes) :
    (∀ code, StatusLine.parse line = .ok code ↔ StatusLine.Spells line code) ∧
      (StatusLine.parse line = .error .protocol ↔ ∀ code, ¬ StatusLine.Spells line code) ∧
      ∀ (c : Client) (method : Method) (address : String) (source : Option Source) (timeout : Nat)
        (vs : List Visit) (v : Visit) (code : Nat) (rest : Bytes),
        Visit.Trail method timeout (c.firstVisit address source) vs → v ∈ vs →
        HoldsLine c.window.capacity line → StatusLine.Spells line code →
        ¬ (200 ≤ code ∧ code < 400) →
        heard (v.attempt method timeout).events = line ++ crlf ++ rest →
        let t := c.execute method address source timeout
        t.result = .error (.status code) ∧ t.client.status = code ∧
          t.client.location = v.client.location ∧ t.client.window.pending = rest ∧
          Within (line.length + 2) (v.attempt method timeout).events ∧ t.deliveries = [.reset] := by
  refine ⟨fun code => StatusLine.parse_eq_ok_iff, StatusLine.parse_eq_error_iff, ?_⟩
  intro c method address source timeout vs v code rest htrail hv hline hspells hrejected hheard t
  have hcapacity : v.capacity = c.window.capacity := by
    obtain ⟨i, hi, rfl⟩ := List.getElem_of_mem hv
    exact (htrail.getElem hi).2
  have hrejects : v.Rejects (v.attempt method timeout) line rest code := by
    apply Visit.attempt_rejects (hcapacity ▸ hline) (StatusLine.parse_eq_ok_iff.2 hspells) _ hheard
    rw [accepts, Bool.eq_false_iff]
    simpa using hrejected
  obtain ⟨hresult, hclient, hcalls⟩ := htrail.transaction_of_failed hv hrejects.result
  have hclient : t.client = (v.attempt method timeout).client := hclient
  refine ⟨hresult, hclient ▸ hrejects.status, hclient ▸ hrejects.location,
    hclient ▸ hrejects.unread, hrejects.within, ?_⟩
  have hreset : t.deliveries = .reset :: (v.attempt method timeout).deliveries := by
    rw [← hcalls]
    rfl
  rw [hreset, hrejects.calls]

/-- A page that is not found, with a header and a body that stay unread. -/
theorem Client.status_lines_decide_of_not_found :
    let c := { new 16 with
      network := [some { arrivals := [.data (Utf8.ofString "HTTP/1.1 404\r\nLocation: /\r\n")] }] }
    let t := c.execute .get "http://a/" none 1000
    StatusLine.Spells (Utf8.ofString "HTTP/1.1 404") 404 ∧ t.result = .error (.status 404) ∧
      t.client.status = 404 ∧ t.client.window.pending = Utf8.ofString "Lo" ∧
      t.deliveries = [.reset] := by
  intro c t
  have hspells : StatusLine.Spells (Utf8.ofString "HTTP/1.1 404") 404 := by
    refine ⟨_, ['1'], ['1'], [' '], ['4', '0', '4'], [], rfl, ?_, by decide, by decide⟩
    exact ⟨rfl, rfl, rfl, ⟨List.cons_ne_nil _ _, List.forall_mem_singleton.2 rfl⟩, rfl, nofun⟩
  have hlast : Visit.Trail .get 1000 (c.firstVisit "http://a/" none)
      [c.firstVisit "http://a/" none] := by
    apply Visit.Trail.last
    intro location hfollowed
    obtain ⟨redirects, hredirects⟩ := Visit.redirects_of_followed hfollowed
    cases hredirects
  have hline : HoldsLine c.window.capacity (Utf8.ofString "HTTP/1.1 404") :=
    Window.holdsLine_of_not_mem (by decide) (by decide)
  obtain ⟨-, -, hends⟩ := status_lines_decide (Utf8.ofString "HTTP/1.1 404")
  obtain ⟨hresult, hstatus, -, hpending, -, hcalls⟩ :=
    hends c .get "http://a/" none 1000 _ _ 404 (Utf8.ofString "Lo") hlast List.mem_cons_self hline
      hspells (by decide) (by decide +kernel)
  exact ⟨hspells, hresult, hstatus, hpending, hcalls⟩

end DeviceHttp
