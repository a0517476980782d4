import DeviceHttp.Proofs.Transfer.Outline
import DeviceHttp.Proofs.Transfer.Reading

/-!
# Never waiting for more than is used

A receive blocks until the bytes that it asks for are there. On a connection that stays open behind
a response it must therefore not ask for bytes behind the response. `Within limit` says that of the
receives in a trace, for the first `limit` bytes that they bring.

A reader keeps to it because it asks for no byte that it does not go on to consume. `Frugal` states
this without a limit, as a relation between the exchanges before and behind a reader that succeeds,
so that it composes. It holds whatever the peer does.
-/

namespace DeviceHttp

/-- Events among which there is no receive bring nothing. -/
theorem received_eq_zero {events : List Event} (h : ∀ e ∈ events, ¬ e.IsReceive) :
    received events = 0 := by
  induction events with
  | nil => rfl
  | cons e events ih =>
    rcases List.forall_mem_cons.1 h with ⟨he, hrest⟩
    have hnone : e.received = [] := by
      cases e with
      | receive room minimum timeout bytes => exact absurd trivial he
      | _ => rfl
    rw [received, List.flatMap_cons, hnone, List.nil_append]
    exact ih hrest

/-- Each receive comes while some of the first `limit` bytes are missing, and waits for no more than
those that are. -/
def Within (limit : Nat) (events : List Event) : Prop :=
  ∀ pre room minimum timeout bytes post,
    events = pre ++ .receive room minimum timeout bytes :: post →
      received pre < limit ∧ received pre + minimum ≤ limit

namespace Within

variable {limit : Nat} {events : List Event}

theorem nil (limit : Nat) : Within limit [] := by
  intro pre room minimum timeout bytes post h
  cases pre <;> cases h

/-- One more event; what it has to fulfil, if it is a receive, is the premise. -/
theorem concat {e : Event} (h : Within limit events)
    (he : ∀ room minimum timeout bytes, e = .receive room minimum timeout bytes →
      received events < limit ∧ received events + minimum ≤ limit) :
    Within limit (events ++ [e]) := by
  intro pre room minimum timeout bytes post heq
  rcases List.eq_nil_or_concat post with rfl | ⟨post', last, rfl⟩
  · obtain ⟨rfl, hlast⟩ := List.append_inj' heq rfl
    exact he room minimum timeout bytes (List.singleton_inj.1 hlast)
  · have heq : events ++ [e] = (pre ++ .receive room minimum timeout bytes :: post') ++ [last] := by
      simpa using heq
    obtain ⟨hevents, -⟩ := List.append_inj' heq rfl
    exact h pre room minimum timeout bytes post' hevents

/-- An event in front that brings nothing leaves every receive with as many bytes before it. -/
theorem cons {e : Event} (h : Within limit events) (he : ¬ e.IsReceive) :
    Within limit (e :: events) := by
  have hnone : e.received = [] := by
    have hzero := received_eq_zero (List.forall_mem_singleton.2 he)
    simpa [received] using hzero
  intro pre room minimum timeout bytes post heq
  cases pre with
  | nil =>
    rcases List.cons.inj heq with ⟨rfl, -⟩
    exact absurd trivial he
  | cons first pre =>
    rcases List.cons.inj heq with ⟨rfl, hevents⟩
    have hreceived : received (e :: pre) = received pre := by simp [received, hnone]
    rw [hreceived]
    exact h pre room minimum timeout bytes post hevents

/-- Events behind that wait for nothing have nothing to fulfil. -/
theorem append {new : List Event} (h : Within limit events) (hnew : ∀ e ∈ new, ¬ e.IsReceive) :
    Within limit (events ++ new) := by
  induction new generalizing events with
  | nil => rwa [List.append_nil]
  | cons e new ih =>
    rcases List.forall_mem_cons.1 hnew with ⟨he, hrest⟩
    rw [List.append_cons]
    apply ih (h.concat _) hrest
    intro room minimum timeout bytes hreceive
    exact absurd (by rw [hreceive]; trivial) he

end Within

namespace Exchange

/-! ## What waiting brings -/

/-- The bytes that were received went into the window, behind those that were there. -/
def Fetches (x y : Exchange) : Prop :=
  ∃ got, y.window.pending = x.window.pending ++ got ∧
    received y.trace = received x.trace + got.length

namespace Fetches

theorem refl (x : Exchange) : Fetches x x :=
  ⟨[], (List.append_nil _).symm, rfl⟩

theorem trans {x y z : Exchange} (h : Fetches x y) (k : Fetches y z) : Fetches x z := by
  rcases h with ⟨got, hpending, hreceived⟩
  rcases k with ⟨more, kpending, kreceived⟩
  refine ⟨got ++ more, by rw [kpending, hpending, List.append_assoc], ?_⟩
  rw [kreceived, hreceived, List.length_append, Nat.add_assoc]

end Fetches

theorem fetches_receive (minimum : Nat) (x : Exchange) : Fetches x (x.receive minimum).2 := by
  refine ⟨_, pending_receive minimum x, ?_⟩
  show received (x.trace ++ [.receive _ _ _ _]) = _
  rw [received_append, received_receive]
  rfl

/-- Waiting for bytes receives and does nothing else, so what it brings is in the window, in
order. -/
theorem fetches_fillTo (want : Nat) (x : Exchange) : Fetches x (x.fillTo want).exchange := by
  have hfetches {x y : Exchange} {got : Option Bytes} {minimum : Nat}
      (hy : x.receive minimum = (got, y)) : Fetches x y := by
    have hreceive := fetches_receive minimum x
    rw [hy] at hreceive
    exact hreceive
  fun_induction fillTo want x with
  | case1 x goal hlt hc y hy => exact hfetches hy
  | case2 x goal hlt hc y hy => exact hfetches hy
  | case3 x goal hlt hc b bs y hy ih => exact (hfetches hy).trans ih
  | case4 x goal hlt hc => exact .refl x
  | case5 x goal hge => exact .refl x

/-- Reading a line receives and does nothing else, and in the end a line is found in the window. -/
theorem fetches_readLine {x y : Exchange} {n : Nat} (h : x.readLine = .ok n y) :
    Fetches x y ∧ y.window.lineLength? = some n := by
  fun_induction readLine x with
  | case1 x m hm =>
    rcases EStateM.Result.ok.inj h with ⟨rfl, rfl⟩
    exact ⟨.refl x, hm⟩
  | case2 x hn hfull => cases h
  | case3 x hn hfull e z hz => cases h
  | case4 x hn hfull u z hz ih =>
    have hfill : Fetches x z :=
      Outcome.exchange_of_ok hz ▸ fetches_fillTo (x.window.pending.length + 1) x
    obtain ⟨hline, hlength⟩ := ih h
    exact ⟨hfill.trans hline, hlength⟩

/-! ## What waiting asks for -/

/-- Waiting for so many bytes stays within a limit that they do not exceed, counted with the bytes
that the window holds already. -/
theorem within_fillTo {limit : Nat} (want : Nat) {x : Exchange} (h : Within limit x.trace)
    (hlimit : received x.trace + want ≤ limit + x.window.pending.length) :
    Within limit (x.fillTo want).exchange.trace := by
  have hreceive {x y : Exchange} {got : Option Bytes} {minimum : Nat}
      (hy : x.receive minimum = (got, y)) (h : Within limit x.trace) (hpos : 0 < minimum)
      (hminimum : received x.trace + minimum ≤ limit) : Within limit y.trace := by
    have htrace : (x.receive minimum).2.trace
        = x.trace ++ [.receive x.window.compact.room minimum x.timeout (x.receive minimum).1] :=
      rfl
    rw [hy] at htrace
    rw [htrace]
    apply h.concat
    intro room minimum' timeout bytes heq
    rcases Event.receive.inj heq with ⟨-, rfl, -, -⟩
    omega
  fun_induction fillTo want x with
  | case1 x goal hlt hc y hy => exact hreceive hy h (by omega) (by omega)
  | case2 x goal hlt hc y hy => exact hreceive hy h (by omega) (by omega)
  | case3 x goal hlt hc b bs y hy ih =>
    apply ih (hreceive hy h (by omega) (by omega))
    have hfetches := fetches_receive (goal - x.window.pending.length) x
    rw [hy] at hfetches
    rcases hfetches with ⟨got, hpending, hreceived⟩
    rw [hreceived, hpending, List.length_append]
    omega
  | case4 x goal hlt hc => exact h
  | case5 x goal hge => exact h

/-- A window that misses the end of a line holds less than the line and its end. -/
theorem length_lt_of_lineLength?_eq_none {w v : Window} {got : Bytes} {n : Nat}
    (hv : v.pending = w.pending ++ got) (hw : w.lineLength? = none)
    (hn : v.lineLength? = some n) : w.pending.length < n + 2 := by
  apply Nat.lt_of_not_le
  intro hle
  rcases Option.map_eq_some_iff.1 hn with ⟨⟨line, rest⟩, hcut, rfl⟩
  have hpending := Cut.eq_append_of_around hcut
  have hprefix : line ++ Window.crlf <+: w.pending :=
    List.prefix_of_prefix_length_le ⟨rest, hpending.symm⟩ ⟨got, hv.symm⟩ (by
      simpa [Window.crlf] using hle)
  rcases hprefix with ⟨rest', hrest'⟩
  exact Cut.around_eq_none_iff.1 (Option.map_eq_none_iff.1 hw) line rest' hrest'.symm

/-- Waiting for a line stays within a limit behind its line end: each receive asks for one byte more
than there are, and as long as there is no line these are not enough for it. -/
theorem within_readLine {limit n : Nat} {x y : Exchange} (hy : x.readLine = .ok n y)
    (h : Within limit x.trace)
    (hlimit : received x.trace + (n + 2) ≤ limit + x.window.pending.length) :
    Within limit y.trace := by
  fun_induction readLine x with
  | case1 x m hm =>
    rcases EStateM.Result.ok.inj hy with ⟨-, rfl⟩
    exact h
  | case2 x hn hfull => cases hy
  | case3 x hn hfull e z hz => cases hy
  | case4 x hn hfull u z hz ih =>
    have hfill : Fetches x z :=
      Outcome.exchange_of_ok hz ▸ fetches_fillTo (x.window.pending.length + 1) x
    rcases fetches_readLine hy with ⟨hline, hlength⟩
    obtain ⟨rest, hrest, -⟩ := hfill.trans hline
    have hshort := length_lt_of_lineLength?_eq_none hrest hn hlength
    rcases hfill with ⟨got, hpending, hreceived⟩
    have hwithin : Within limit z.trace :=
      Outcome.exchange_of_ok hz ▸ within_fillTo (x.window.pending.length + 1) h (by omega)
    apply ih hy hwithin
    rw [hreceived, hpending, List.length_append]
    omega

/-! ## Frugal readers -/

/-- Between two exchanges bytes were consumed, and no receive asked for a byte behind them. -/
structure Frugal (x y : Exchange) : Prop where
  consumed : ∃ n, received y.trace + x.window.pending.length
    = received x.trace + y.window.pending.length + n
  within : ∀ limit, received y.trace ≤ limit + y.window.pending.length →
    Within limit x.trace → Within limit y.trace

namespace Frugal

theorem refl (x : Exchange) : Frugal x x :=
  ⟨⟨0, rfl⟩, fun _ _ h => h⟩

theorem trans {x y z : Exchange} (h : Frugal x y) (k : Frugal y z) : Frugal x z := by
  rcases h with ⟨⟨n, hn⟩, hwithin⟩
  rcases k with ⟨⟨m, hm⟩, kwithin⟩
  refine ⟨⟨n + m, by omega⟩, ?_⟩
  intro limit hlimit hx
  exact kwithin limit hlimit (hwithin limit (by omega) hx)

/-- Calls to the sink, and what else an exchange remembers, make no difference. -/
theorem congr {x y : Exchange} {new : List Event} (hwindow : y.window.pending = x.window.pending)
    (htrace : y.trace = x.trace ++ new) (hnew : ∀ e ∈ new, ¬ e.IsReceive) : Frugal x y := by
  refine ⟨⟨0, ?_⟩, ?_⟩
  · rw [htrace, received_append, received_eq_zero hnew, hwindow]
    rfl
  · intro limit _ hx
    rw [htrace]
    exact hx.append hnew

end Frugal

theorem length_pending_consume (n : Nat) (x : Exchange) :
    (x.consume n).window.pending.length = x.window.pending.length - n := by
  show (x.window.consume n).pending.length = _
  rw [Window.pending_consume, List.length_drop]

/-- To wait for bytes is frugal if at least as many of them are then consumed. -/
theorem frugal_fillTo {want n : Nat} {x y : Exchange} (hy : x.fillTo want = .ok () y)
    (hwant : want ≤ n) (hn : n ≤ y.window.pending.length) : Frugal x (y.consume n) := by
  have hfill : Fetches x y := Outcome.exchange_of_ok hy ▸ fetches_fillTo want x
  rcases hfill with ⟨got, hpending, hreceived⟩
  have hlength := congrArg List.length hpending
  rw [List.length_append] at hlength
  have htrace : (y.consume n).trace = y.trace := rfl
  refine ⟨⟨n, ?_⟩, ?_⟩
  · rw [length_pending_consume, htrace]
    omega
  · intro limit hlimit hx
    rw [length_pending_consume, htrace] at hlimit
    exact Outcome.exchange_of_ok hy ▸ within_fillTo want hx (by omega)

/-- A reader that takes a line with its line end asks for no byte that is not in them. -/
theorem frugal_readLine {n : Nat} {x y : Exchange} (hy : x.readLine = .ok n y) :
    Frugal x (y.consume (n + 2)) := by
  rcases (fetches_readLine hy).1 with ⟨got, hpending, hreceived⟩
  have hlength := congrArg List.length hpending
  rw [List.length_append] at hlength
  have hn := le_length_of_readLine hy
  have htrace : (y.consume (n + 2)).trace = y.trace := rfl
  refine ⟨⟨n + 2, ?_⟩, ?_⟩
  · rw [length_pending_consume, htrace]
    omega
  · intro limit hlimit hx
    rw [length_pending_consume, htrace] at hlimit
    have hneed : received x.trace + (n + 2) ≤ limit + x.window.pending.length := by omega
    have hline : Within limit y.trace := within_readLine hy hx hneed
    exact hline

/-- The status line is taken as a whole, so every byte that it waited for is consumed. -/
theorem frugal_readStatus {x y : Exchange} {code : Nat} (h : x.readStatus = .ok code y) :
    Frugal x y := by
  rw [readStatus_eq] at h
  rcases ok_of_andThen h with ⟨n, z, hz, htake⟩
  unfold takeStatus at htake
  split at htake
  · cases htake
  · rcases EStateM.Result.ok.inj htake with ⟨-, rfl⟩
    exact (frugal_readLine hz).trans (.congr rfl (List.append_nil _).symm (by simp))

/-- A header block consumes every line that it waits for. The rounds compose, because each of them
hands on a window in which all that was asked for is either used or still there. -/
theorem frugal_readHeaders {follow : Bool} {block : HeaderBlock} {x y : Exchange} {next : Next}
    (h : x.readHeaders follow block = .ok next y) : Frugal x y := by
  fun_induction readHeaders follow block x with
  | case1 block x e z hz => cases h
  | case2 block x z hz =>
    rcases EStateM.Result.ok.inj h with ⟨-, rfl⟩
    exact (frugal_readLine hz).trans (.congr rfl rfl (by simp [Event.IsReceive]))
  | case3 block x n z hz hn e hb => cases h
  | case4 block x n z hz hn later hb location hlocation hfollow =>
    rcases EStateM.Result.ok.inj h with ⟨-, rfl⟩
    exact (frugal_readLine hz).trans (.congr rfl (List.append_nil _).symm (by simp))
  | case5 block x n z hz hn later hb hlocation ih =>
    have hline : Frugal x { z.consume (n + 2) with location := later.location.or z.location } :=
      (frugal_readLine hz).trans (.congr rfl (List.append_nil _).symm (by simp))
    exact hline.trans (ih h)

/-- Waiting for one byte is frugal together with a consumer that takes at least one of those that
came. -/
theorem frugal_ensurePending {n : Nat} {x y : Exchange} (hy : x.ensurePending = .ok () y)
    (hpos : 0 < n) (hn : n ≤ y.window.pending.length) : Frugal x (y.consume n) := by
  unfold ensurePending at hy
  split at hy
  · next hnil =>
    rw [fill, hnil] at hy
    exact frugal_fillTo hy hpos hn
  · next hne =>
    have hfilled : x.fillTo 0 = .ok () x := by
      rw [fillTo, if_neg (by omega)]
    rcases EStateM.Result.ok.inj hy with ⟨-, rfl⟩
    exact frugal_fillTo hfilled (Nat.zero_le n) hn

/-- A body of a known length waits for a byte only while some of it is missing, and takes all that
it got up to its end. -/
theorem frugal_copy {n : Nat} {x y : Exchange} (h : x.copy n = .ok () y) : Frugal x y := by
  fun_induction copy n x with
  | case1 x =>
    rcases EStateM.Result.ok.inj h with ⟨-, rfl⟩
    exact .refl x
  | case2 n x h0 e z hz => cases h
  | case3 n x h0 u z hz slice ih =>
    have hpos := List.length_pos_iff.2 (pending_ne_nil_of_ensurePending hz)
    have hlength : slice.length = min n z.window.pending.length := List.length_take
    have hslice := frugal_ensurePending hz (n := slice.length) (by omega) (by omega)
    have hdeliver : Frugal (z.consume slice.length)
        ((z.consume slice.length).deliver (.write slice)) :=
      .congr rfl rfl (by simp [Event.IsReceive])
    exact (hslice.trans hdeliver).trans (ih h)

/-- The line with a size is consumed together with its line end. -/
theorem frugal_readChunkSize {x y : Exchange} {size : Nat} (h : x.readChunkSize = .ok size y) :
    Frugal x y := by
  rw [readChunkSize_eq] at h
  rcases ok_of_andThen h with ⟨n, z, hz, htake⟩
  unfold takeChunkSize at htake
  split at htake
  · cases htake
  · rcases EStateM.Result.ok.inj htake with ⟨-, rfl⟩
    exact frugal_readLine hz

/-- A chunked body waits for size lines, data and line ends, and consumes each of them before it
goes on. -/
theorem frugal_readChunks {x y : Exchange} (h : x.readChunks = .ok () y) : Frugal x y := by
  fun_induction readChunks x with
  | case1 x e z hz => cases h
  | case2 x z hz =>
    rcases EStateM.Result.ok.inj h with ⟨-, rfl⟩
    exact (frugal_readChunkSize hz).trans (.congr rfl rfl (by simp [Event.IsReceive]))
  | case3 x size z hz h0 e w hw => cases h
  | case4 x size z hz h0 u w hw e v hv => cases h
  | case5 x size z hz h0 u w hw u' v hv hcrlf ih =>
    have hlength := congrArg List.length hcrlf
    have htwo : 2 ≤ v.window.pending.length := by
      simp only [front, Window.crlf, List.length_take, List.length_cons, List.length_nil]
        at hlength
      omega
    have hend := frugal_fillTo hv (Nat.le_refl 2) htwo
    exact (((frugal_readChunkSize hz).trans (frugal_copy hw)).trans hend).trans (ih h)
  | case6 x size z hz h0 u w hw u' v hv hcrlf => cases h

theorem frugal_readBody {framing : Framing} {x y : Exchange}
    (h : x.readBody framing = .ok () y) : Frugal x y := by
  cases framing with
  | length n => exact frugal_copy h
  | chunked => exact frugal_readChunks h

/-- Reading a response to its end is frugal: none of its readers asks for a byte that it or a later
one does not consume. -/
theorem frugal_readResponse {follow : Bool} {x y : Exchange} {step : Client.Step}
    (h : Client.readResponse follow x = .ok step y) : Frugal x y := by
  rw [readResponse_eq] at h
  rcases ok_of_andThen h with ⟨code, z, hz, hjudge⟩
  unfold judge at hjudge
  split at hjudge
  · rcases ok_of_andThen hjudge with ⟨next, w, hw, hfinish⟩
    have hheaders : Frugal x w := (frugal_readStatus hz).trans (frugal_readHeaders hw)
    cases next with
    | redirect location =>
      rcases EStateM.Result.ok.inj hfinish with ⟨-, rfl⟩
      exact hheaders
    | body framing =>
      rcases ok_of_andThen hfinish with ⟨u, v, hv, hdone⟩
      rcases EStateM.Result.ok.inj hdone with ⟨-, rfl⟩
      exact hheaders.trans (frugal_readBody hv)
  · cases hjudge

end Exchange

end DeviceHttp
