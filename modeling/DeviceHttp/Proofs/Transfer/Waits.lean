import DeviceHttp.Proofs.Transfer.Demand
import DeviceHttp.Proofs.Transfer.Rounds

/-!
# How often a response is waited for

A receive that brings nothing is the last one: it is a failure, or the end of the stream, and no
reader goes on behind either. So a response takes no more receives than it brings bytes, and at most
one more if reading it fails (`Exchange.spares_readResponse`), whatever the peer does.
-/

namespace DeviceHttp

/-- Whether an event is a receive. -/
def Event.isReceive : Event → Bool
  | receive _ _ _ _ => true
  | _ => false

/-- How many receives there are in a list of events. -/
def waits (events : List Event) : Nat :=
  events.countP Event.isReceive

theorem waits_append (xs ys : List Event) : waits (xs ++ ys) = waits xs + waits ys :=
  List.countP_append

theorem waits_eq_zero {events : List Event} (h : ∀ e ∈ events, ¬ e.IsReceive) :
    waits events = 0 := by
  refine List.countP_eq_zero.2 fun e he => ?_
  cases e with
  | receive room minimum timeout bytes => exact absurd trivial (h _ he)
  | _ => exact Bool.false_ne_true

namespace Exchange

/-- Between two exchanges there were at most so many receives more than bytes received. -/
def Gains (spare : Nat) (x y : Exchange) : Prop :=
  waits y.trace + received x.trace ≤ waits x.trace + received y.trace + spare

namespace Gains

variable {spare : Nat} {x y z : Exchange}

theorem refl (x : Exchange) : Gains 0 x x :=
  Nat.le_refl _

theorem trans (h : Gains 0 x y) (k : Gains spare y z) : Gains spare x z := by
  unfold Gains at *
  omega

/-- What is no receive changes nothing. -/
theorem of_trace {new : List Event} (htrace : y.trace = x.trace ++ new)
    (hnew : ∀ e ∈ new, ¬ e.IsReceive) : Gains 0 x y := by
  rw [Gains, htrace, waits_append, received_append, waits_eq_zero hnew, received_eq_zero hnew]
  omega

end Gains

/-- Every receive brings something, but for the last one of a failure. -/
def Spares {α : Type} (x : Exchange) : Outcome α → Prop
  | .ok _ y => Gains 0 x y
  | .error _ y => Gains 1 x y

namespace Spares

variable {α β : Type} {x y : Exchange} {first : Outcome α} {next : α → Exchange → Outcome β}

theorem of_gains {o : Outcome α} (h : Gains 0 x o.exchange) : Spares x o := by
  cases o with
  | ok a y => exact h
  | error e y => exact Nat.le_succ_of_le h

/-- Behind receives that all brought something. -/
theorem behind {o : Outcome α} (h : Gains 0 x y) (k : Spares y o) : Spares x o := by
  cases o with
  | ok a z => exact h.trans k
  | error e z => exact h.trans k

theorem andThen (h : Spares x first) (hnext : ∀ a y, first = .ok a y → Spares y (next a y)) :
    Spares x (andThen first next) := by
  cases first with
  | ok a y => exact (hnext a y rfl).behind h
  | error e y => exact h

/-- From the start of a trace there is at most one receive more than bytes, which is the one that
failed. -/
theorem waits_le {o : Outcome α} (h : Spares x o) (hx : x.trace = []) :
    waits o.exchange.trace ≤ received o.exchange.trace + 1 := by
  have hstart : waits x.trace = 0 ∧ received x.trace = 0 := by
    rw [hx]
    exact ⟨rfl, rfl⟩
  obtain ⟨hwaits, hreceived⟩ := hstart
  cases o with
  | ok a y =>
    have hgains : waits y.trace + received x.trace ≤ waits x.trace + received y.trace + 0 := h
    show waits y.trace ≤ received y.trace + 1
    omega
  | error e y =>
    have hgains : waits y.trace + received x.trace ≤ waits x.trace + received y.trace + 1 := h
    show waits y.trace ≤ received y.trace + 1
    omega

end Spares

/-- Each receive of a wait brings something, and so makes up for itself, except for one that ends
the wait with an error. -/
theorem spares_fillTo (want : Nat) (x : Exchange) : Spares x (x.fillTo want) := by
  have hreceive {x y : Exchange} {minimum : Nat} {got : Option Bytes}
      (hy : x.receive minimum = (got, y)) :
      waits y.trace = waits x.trace + 1 ∧
        received y.trace = received x.trace + (got.getD []).length := by
    cases hy
    exact ⟨waits_append _ _,
      (received_append _ _).trans (congrArg (_ + ·) (received_receive _ _ _ _))⟩
  fun_induction fillTo want x with
  | case1 x goal hlt hc y hy =>
    obtain ⟨hwaits, hreceived⟩ := hreceive hy
    show waits y.trace + _ ≤ _
    omega
  | case2 x goal hlt hc y hy =>
    obtain ⟨hwaits, hreceived⟩ := hreceive hy
    show waits y.trace + _ ≤ _
    omega
  | case3 x goal hlt hc b bs y hy ih =>
    obtain ⟨hwaits, hreceived⟩ := hreceive hy
    rw [Option.getD_some, List.length_cons] at hreceived
    have hgains : Gains 0 x y := by
      unfold Gains
      omega
    exact ih.behind hgains
  | case4 x goal hlt hc => exact .of_gains (.refl x)
  | case5 x goal hge => exact .of_gains (.refl x)

/-- A line is waited for a byte at a time, and each byte is one that it brings. -/
theorem spares_readLine (x : Exchange) : Spares x x.readLine := by
  fun_induction readLine x with
  | case1 x n hn => exact .of_gains (.refl x)
  | case2 x hn hfull => exact .of_gains (.refl x)
  | case3 x hn hfull e y hy =>
    have hfill : Spares x x.fill := spares_fillTo _ x
    rwa [hy] at hfill
  | case4 x hn hfull u y hy ih =>
    have hfill : Spares x x.fill := spares_fillTo _ x
    rw [hy] at hfill
    exact ih.behind hfill

/-- The status line waits as often as its line does. -/
theorem spares_readStatus (x : Exchange) : Spares x x.readStatus := by
  rw [readStatus_eq]
  refine (spares_readLine x).andThen fun n y _ => ?_
  unfold takeStatus
  split
  · exact .of_gains (.refl y)
  · exact .of_gains (.refl y)

/-- The lines of a header block add up: only a line that cannot be read waits in vain, and it is the
last one. -/
theorem spares_readHeaders (follow : Bool) (block : HeaderBlock) (x : Exchange) :
    Spares x (x.readHeaders follow block) := by
  have hline {x y : Exchange} {n : Nat} (hy : x.readLine = .ok n y) : Gains 0 x y := by
    have hspares := spares_readLine x
    rwa [hy] at hspares
  fun_induction readHeaders follow block x with
  | case1 block x e y hy =>
    have hlast := spares_readLine x
    rwa [hy] at hlast
  | case2 block x y hy =>
    refine Spares.behind (hline hy) (.of_gains (.of_trace rfl ?_))
    intro e he
    obtain ⟨call, -, rfl⟩ := List.mem_map.1 he
    exact id
  | case3 block x n y hy hn e hb => exact .behind (hline hy) (.of_gains (.refl y))
  | case4 block x n y hy hn later hb location hlocation hfollow =>
    exact .behind (hline hy) (.of_gains (.refl y))
  | case5 block x n y hy hn later hb hlocation ih => exact ih.behind (hline hy)

theorem spares_ensurePending (x : Exchange) : Spares x x.ensurePending := by
  unfold ensurePending
  split
  · exact spares_fillTo _ x
  · exact .of_gains (.refl x)

/-- A body waits once for every slice that it gets, and at most once more if it breaks off. -/
theorem spares_copy (n : Nat) (x : Exchange) : Spares x (x.copy n) := by
  fun_induction copy n x with
  | case1 x => exact .of_gains (.refl x)
  | case2 n x h0 e y hy =>
    have hwait := spares_ensurePending x
    rwa [hy] at hwait
  | case3 n x h0 u y hy slice ih =>
    have hwait := spares_ensurePending x
    rw [hy] at hwait
    have hslice : Gains 0 y ((y.consume slice.length).deliver (.write slice)) :=
      .of_trace rfl (by simp [Event.IsReceive])
    exact ih.behind (Gains.trans hwait hslice)

/-- The size of a chunk waits as often as its line does. -/
theorem spares_readChunkSize (x : Exchange) : Spares x x.readChunkSize := by
  rw [readChunkSize_eq]
  refine (spares_readLine x).andThen fun n y _ => ?_
  unfold takeChunkSize
  split
  · exact .of_gains (.refl y)
  · exact .of_gains (.refl y)

/-- Sizes, data and line ends add up over the chunks, and no round follows one that failed. -/
theorem spares_readChunks (x : Exchange) : Spares x x.readChunks := by
  induction hn : x.available using Nat.strongRecOn generalizing x with
  | ind m ih =>
    subst hn
    rw [readChunks_round]
    refine (spares_readChunkSize x).andThen fun size y hy => ?_
    unfold takeChunk
    split
    · exact .of_gains (.of_trace rfl (by simp [Event.IsReceive]))
    · refine (spares_copy size y).andThen fun u z hz => ?_
      refine (spares_fillTo 2 z).andThen fun u w hw => ?_
      unfold closeChunk
      split
      · exact ih _ (available_lt_of_chunk hy hz hw) (w.consume 2) rfl
      · exact .of_gains (.refl w)

theorem spares_readBody (framing : Framing) (x : Exchange) : Spares x (x.readBody framing) := by
  cases framing with
  | length n => exact spares_copy n x
  | chunked => exact spares_readChunks x

/-- Reading a response takes no more receives than it brings bytes, and at most one more if it
fails. -/
theorem spares_readResponse (follow : Bool) (x : Exchange) :
    Spares x (Client.readResponse follow x) := by
  rw [readResponse_eq]
  refine (spares_readStatus x).andThen fun status y _ => ?_
  unfold judge
  split
  · refine (spares_readHeaders follow {} y).andThen fun next z _ => ?_
    cases next with
    | redirect location => exact .of_gains (.refl z)
    | body framing => exact (spares_readBody framing z).andThen fun _ w _ => .of_gains (.refl w)
  · exact .of_gains (.refl y)

end Exchange

end DeviceHttp
