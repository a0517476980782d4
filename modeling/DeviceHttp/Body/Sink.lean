import DeviceHttp.Text.Utf8

/-!
# Where a response body goes

A sink is told about a response in calls: a reset at the start of a transaction, then the framing,
then the type, then the body in slices. An empty slice ends a chunked body. A sink may keep less
than it is given, so `Sink.write` says how much was kept; nothing else hangs on that number. A
transaction is therefore described by the calls it makes, and `Sink.acceptAll` is what they do.
-/

namespace DeviceHttp

/-- One call to a sink. -/
inductive Delivery
  | reset
  | setLength (n : Nat)
  | setChunked (on : Bool)
  | setContentType (value : String)
  | write (bytes : Bytes)
  deriving DecidableEq, Repr

/-- Something that takes a response body. -/
class Sink (σ : Type) where
  /-- Forget the last response. -/
  reset : σ → σ
  /-- The body has this length. -/
  setLength : Nat → σ → σ
  /-- The body comes in chunks. -/
  setChunked : Bool → σ → σ
  /-- The body is of this type. -/
  setContentType : String → σ → σ
  /-- The next slice of the body; the number is how much of it was kept. -/
  write : Bytes → σ → Nat × σ

namespace Sink

variable {σ : Type} [Sink σ]

/-- A sink after one call. -/
def accept (s : σ) : Delivery → σ
  | .reset => reset s
  | .setLength n => setLength n s
  | .setChunked on => setChunked on s
  | .setContentType value => setContentType value s
  | .write bytes => (write bytes s).2

/-- A sink after a list of calls. -/
def acceptAll (s : σ) (calls : List Delivery) : σ :=
  calls.foldl accept s

@[simp] theorem acceptAll_nil (s : σ) : acceptAll s [] = s := rfl

@[simp] theorem acceptAll_cons (s : σ) (call : Delivery) (calls : List Delivery) :
    acceptAll s (call :: calls) = acceptAll (accept s call) calls := rfl

@[simp] theorem acceptAll_append (s : σ) (xs ys : List Delivery) :
    acceptAll s (xs ++ ys) = acceptAll (acceptAll s xs) ys := by
  simp [acceptAll]

end Sink

namespace ContentType

/-- The longest content type that is kept, in bytes. -/
def capacity : Nat := 64

/-- A content type, if it is short enough to be kept. -/
def kept? (value : String) : Option String :=
  if Utf8.fits capacity value then some value else none

end ContentType

end DeviceHttp
