/-!
# Why JSON is not written or not read
-/

namespace DeviceHttp.Json

/-- The cause for which a value is not written. -/
inductive WriteError
  /-- The written form is longer than the place for it. -/
  | bufferFull
  deriving DecidableEq, Repr

/-- What a user is told about a value that was not written. -/
def WriteError.message : WriteError → String
  | bufferFull => "Buffer is full"

/-- The causes for which a text is not read as a value of the expected form. -/
inductive ReadError
  /-- The text ends inside a list. -/
  | endInList
  /-- The text ends inside a record. -/
  | endInRecord
  /-- The text ends inside a string. -/
  | endInString
  /-- The text ends where a value should start. -/
  | endInValue
  | expectedColon
  | expectedListCommaOrEnd
  | expectedRecordCommaOrEnd
  /-- A word that starts like `true`, `false` or `null` and goes on in another way. -/
  | expectedWord
  /-- A separator where a value should start. -/
  | expectedValue
  /-- A number that does not fit its type. -/
  | invalidNumber
  /-- A value of another type than the expected one. -/
  | invalidType
  /-- A string that is not UTF-8. -/
  | invalidText
  | keyIsNotText
  /-- Something after the value. -/
  | trailing
  | trailingComma
  /-- A field that is missing or there twice, or a list of the wrong length. -/
  | unexpectedForm
  deriving DecidableEq, Repr

/-- What a user is told about a text that was not read. -/
def ReadError.message : ReadError → String
  | endInList => "EOF while parsing a list."
  | endInRecord => "EOF while parsing an object."
  | endInString => "EOF while parsing a string."
  | endInValue => "EOF while parsing a JSON value."
  | expectedColon => "Expected this character to be a `':'`."
  | expectedListCommaOrEnd => "Expected this character to be either a `','` ora `']'`."
  | expectedRecordCommaOrEnd => "Expected this character to be either a `','` or a `'\x7d'`."
  | expectedWord => "Expected to parse either a `true`, `false`, or a `null`."
  | expectedValue => "Expected this character to start a JSON value."
  | invalidNumber => "Invalid number."
  | invalidType => "Invalid type"
  | invalidText => "Invalid unicode code point."
  | keyIsNotText => "Object key is not a string."
  | trailing => "JSON has non-whitespace trailing characters after the value."
  | trailingComma => "JSON has a comma after the last value in an array or map."
  | unexpectedForm => "JSON does not match deserializer’s expected format."

end DeviceHttp.Json
