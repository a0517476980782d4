import DeviceHttp.Text.Decimal
import DeviceHttp.Text.Hex

/-!
# JSON values and their text

The written form has no blanks and keeps the fields of a record in their order. Of the characters of
a text, the quote, the backslash and the controls are escaped and all others stand for themselves.
-/

namespace DeviceHttp.Json

/-- A JSON value. -/
inductive Value
  | null
  | flag (b : Bool)
  | integer (n : Int)
  | text (s : String)
  | list (items : List Value)
  | record (fields : List (String × Value))

/-- The content type of JSON. -/
def contentType : String := "application/json"

/-- The written form of one character of a text. -/
def escape (c : Char) : Bytes :=
  if c = '"' then Utf8.encode ['\\', '"']
  else if c = '\\' then Utf8.encode ['\\', '\\']
  else if c = '\x08' then Utf8.encode ['\\', 'b']
  else if c = '\t' then Utf8.encode ['\\', 't']
  else if c = '\n' then Utf8.encode ['\\', 'n']
  else if c = '\x0c' then Utf8.encode ['\\', 'f']
  else if c = '\r' then Utf8.encode ['\\', 'r']
  else if c.toNat < 32 then
    Utf8.encode ['\\', 'u', '0', '0'] ++ Hex.pair (UInt8.ofNat c.toNat)
  else Utf8.encode [c]

/-- The written form of a text. -/
def writeText (s : String) : Bytes :=
  34 :: s.toList.flatMap escape ++ [34]

/-- The written form of a whole number. -/
def writeInteger : Int → Bytes
  | .ofNat n => Utf8.encode (Decimal.render n)
  | .negSucc n => Utf8.encode ('-' :: Decimal.render (n + 1))

mutual

/-- The written form of a value. -/
def Value.write : Value → Bytes
  | .null => Utf8.ofString "null"
  | .flag true => Utf8.ofString "true"
  | .flag false => Utf8.ofString "false"
  | .integer n => writeInteger n
  | .text s => writeText s
  | .list items => 91 :: writeItems items ++ [93]
  | .record fields => 123 :: writeFields fields ++ [125]

/-- The written forms of the items of a list, with commas between them. -/
def writeItems : List Value → Bytes
  | [] => []
  | [item] => item.write
  | item :: items => item.write ++ 44 :: writeItems items

/-- The written forms of the fields of a record, with commas between them. -/
def writeFields : List (String × Value) → Bytes
  | [] => []
  | [(name, value)] => writeText name ++ 58 :: value.write
  | (name, value) :: fields => writeText name ++ 58 :: value.write ++ 44 :: writeFields fields

end

end DeviceHttp.Json
