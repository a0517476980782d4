import DeviceHttp.Json.Reader
import DeviceHttp.Json.Value

/-!
# The records of a device

What a sensor reports and what a device says about itself, as JSON records.
-/

namespace DeviceHttp

/-- A value that a sensor measured. -/
structure Reading where
  sensor : String
  /-- At least -2³¹ and below 2³¹. -/
  value : Int
  deriving DecidableEq, Repr

/-- What a device says about itself. -/
structure DeviceStatus where
  state : String
  /-- Below 2³². -/
  uptime : Nat
  deriving DecidableEq, Repr

namespace Reading

/-- A reading as a JSON record. -/
def toJson (r : Reading) : Json.Value :=
  .record [("sensor", .text r.sensor), ("value", .integer r.value)]

/-- Read a reading. -/
def read : Json.Reader Reading := fun s =>
  (Json.readRecord "sensor" Json.readText "value" (Json.readSigned 0x80000000) s).map
    fun ((sensor, value), rest) => (⟨sensor, value⟩, rest)

end Reading

namespace DeviceStatus

/-- A status as a JSON record. -/
def toJson (d : DeviceStatus) : Json.Value :=
  .record [("state", .text d.state), ("uptime", .integer d.uptime)]

/-- Read a status. -/
def read : Json.Reader DeviceStatus := fun s =>
  (Json.readRecord "state" Json.readText "uptime" (Json.readUnsigned UInt32.size) s).map
    fun ((state, uptime), rest) => (⟨state, uptime⟩, rest)

end DeviceStatus

end DeviceHttp
