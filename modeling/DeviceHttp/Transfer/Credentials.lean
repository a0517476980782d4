import DeviceHttp.Text.Utf8
import DeviceHttp.Transfer.Error

/-!
# Credentials

A user and a password become one token, the base64 form of both with a colon between them. The
limits on the parts are chosen so that every admitted pair has a token that fits. The base64 form
has the standard alphabet with padding and no line breaks: three bytes become four characters.
-/

namespace DeviceHttp.Base64

/-- The character for six bits. -/
def symbol (v : Nat) : Char :=
  if v < 26 then Char.ofNat ('A'.toNat + v)
  else if v < 52 then Char.ofNat ('a'.toNat + (v - 26))
  else if v < 62 then Char.ofNat ('0'.toNat + (v - 52))
  else if v = 62 then '+'
  else '/'

/-- The base64 form of a byte string. -/
def encode : Bytes → List Char
  | [] => []
  | [a] => [symbol (a.toNat / 4), symbol (a.toNat % 4 * 16), '=', '=']
  | [a, b] =>
    [symbol (a.toNat / 4), symbol (a.toNat % 4 * 16 + b.toNat / 16), symbol (b.toNat % 16 * 4), '=']
  | a :: b :: c :: rest =>
    symbol (a.toNat / 4) :: symbol (a.toNat % 4 * 16 + b.toNat / 16)
      :: symbol (b.toNat % 16 * 4 + c.toNat / 64) :: symbol (c.toNat % 64) :: encode rest

/-- The length of the base64 form of so many bytes. -/
def encodedLength (n : Nat) : Nat :=
  4 * ((n + 2) / 3)

theorem length_encode (bs : Bytes) : (encode bs).length = encodedLength bs.length := by
  fun_induction encode bs with
  | case1 => rfl
  | case2 => simp [encodedLength]
  | case3 => simp [encodedLength]
  | case4 a b c rest ih =>
    simp only [List.length_cons, ih, encodedLength]
    omega

end DeviceHttp.Base64

namespace DeviceHttp.Credentials

/-- The longest user name, in bytes. -/
def userCapacity : Nat := 64

/-- The longest password, in bytes. -/
def passwordCapacity : Nat := 64

/-- The longest token, in bytes. -/
def tokenCapacity : Nat := Base64.encodedLength (userCapacity + 1 + passwordCapacity)

/-- The base64 form of a byte string, if it fits in so many bytes. -/
def encodeWithin (room : Nat) (bs : Bytes) : Except TransferError String :=
  if Base64.encodedLength bs.length ≤ room then .ok (String.ofList (Base64.encode bs))
  else .error .overflow

/-- The token for a user and a password. -/
def token (user password : String) : Except TransferError String :=
  if Utf8.fits userCapacity user && Utf8.fits passwordCapacity password then
    encodeWithin tokenCapacity (Utf8.ofString (user ++ ":" ++ password))
  else
    .error .overflow

end DeviceHttp.Credentials
