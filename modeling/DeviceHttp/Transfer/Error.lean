import DeviceHttp.Text.Decimal

/-!
# Why a transfer fails

The causes are disjoint: a caller that sees `closed` knows that the peer ended the stream, one that
sees `connection` knows that the transport reported a failure.
-/

namespace DeviceHttp

/-- The causes for which a request or its response fails. -/
inductive TransferError
  /-- An address that is not a URL this client can open. -/
  | malformedUrl
  /-- No connection to the host. -/
  | unreachable
  /-- Bytes that are no HTTP response. -/
  | protocol
  /-- The transport reported a failure. -/
  | connection
  /-- The peer closed the connection too early. -/
  | closed
  /-- A response with a status outside the accepted range. -/
  | status (code : Nat)
  /-- A value too long for the place that keeps it. -/
  | overflow
  deriving DecidableEq, Repr

/-- What a user is told about a failed transfer. -/
def TransferError.message : TransferError → String
  | malformedUrl => "url parse error"
  | unreachable => "could not connect to host"
  | protocol => "protocol error"
  | connection => "connection error"
  | closed => "connection closed by peer"
  | status code => "http status " ++ Decimal.text code
  | overflow => "value exceeds capacity"

/-- The causes for which a transport fails. -/
inductive LinkError
  | notOpen
  | writeFailed
  | readFailed
  | refused
  | timedOut
  | closed
  | invalidAddress
  | protocol
  deriving DecidableEq, Repr

/-- What a user is told about a failed transport. -/
def LinkError.message : LinkError → String
  | notOpen => "connection not open"
  | writeFailed => "write failed"
  | readFailed => "read failed"
  | refused => "connection refused"
  | timedOut => "timed out"
  | closed => "connection closed"
  | invalidAddress => "invalid address"
  | protocol => "protocol error"

end DeviceHttp
