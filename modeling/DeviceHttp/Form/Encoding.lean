import DeviceHttp.Text.Hex

/-!
# The form encoding

Pairs of texts as `application/x-www-form-urlencoded`: `=` inside a pair, `&` between pairs, a space
as `+`, unreserved bytes as they are and every other byte as a percent sign and two digits.
`Form.length_encode` says that the length announced for a body is the length of its encoding.
-/

namespace DeviceHttp.Form

/-- A key and its value. -/
abbrev Pair := String × String

/-- The content type of the form encoding. -/
def contentType : String := "application/x-www-form-urlencoded"

/-- A space. -/
def space : UInt8 := 32

/-- The byte that stands for a space: a plus sign. -/
def plus : UInt8 := 43

/-- The byte that starts an escape: a percent sign. -/
def percent : UInt8 := 37

/-- The byte between a key and its value: an equals sign. -/
def equals : UInt8 := 61

/-- The byte between two pairs: an ampersand. -/
def ampersand : UInt8 := 38

/-- The bytes that stand for themselves: letters, digits, and `-`, `.`, `_`, `~`. -/
def isUnreserved (b : UInt8) : Bool :=
  (65 ≤ b && b ≤ 90) || (97 ≤ b && b ≤ 122) || (48 ≤ b && b ≤ 57)
    || b = 45 || b = 46 || b = 95 || b = 126

/-- The encoded form of one byte. -/
def encodeByte (b : UInt8) : Bytes :=
  if b = space then [plus] else if isUnreserved b then [b] else percent :: Hex.pair b

/-- The encoded form of a text. -/
def encodeText (s : String) : Bytes :=
  (Utf8.ofString s).flatMap encodeByte

/-- The encoded form of one pair. -/
def encodePair (p : Pair) : Bytes :=
  encodeText p.1 ++ equals :: encodeText p.2

/-- The encoded form of a list of pairs. -/
def encode : List Pair → Bytes
  | [] => []
  | p :: ps => encodePair p ++ ps.flatMap fun q => ampersand :: encodePair q

/-- The length of the encoded form of one byte. -/
def byteLength (b : UInt8) : Nat :=
  if b = space || isUnreserved b then 1 else 3

/-- The length of the encoded form of a text. -/
def textLength (s : String) : Nat :=
  (Utf8.ofString s).foldr (fun b n => byteLength b + n) 0

/-- The length of the encoded form of a list of pairs, found without encoding them. -/
def encodedLength (ps : List Pair) : Nat :=
  ps.foldr (fun p n => textLength p.1 + 1 + textLength p.2 + n) 0 + (ps.length - 1)

theorem length_encodeByte (b : UInt8) : (encodeByte b).length = byteLength b := by
  by_cases hs : b = space
  · simp [encodeByte, byteLength, hs]
  · by_cases hu : isUnreserved b <;> simp [encodeByte, byteLength, hs, hu, Hex.pair]

theorem length_encodeText (s : String) : (encodeText s).length = textLength s := by
  have : ∀ bs : Bytes,
      (bs.flatMap encodeByte).length = bs.foldr (fun b n => byteLength b + n) 0 := fun bs => by
    induction bs with
    | nil => rfl
    | cons b bs ih => simp [ih, length_encodeByte]
  exact this _

theorem length_encodePair (p : Pair) :
    (encodePair p).length = textLength p.1 + 1 + textLength p.2 := by
  simp only [encodePair, List.length_append, List.length_cons, length_encodeText]
  omega

/-- The length announced for a body is the length of its encoding. -/
theorem length_encode (ps : List Pair) : (encode ps).length = encodedLength ps := by
  cases ps with
  | nil => rfl
  | cons p ps =>
    have : (ps.flatMap fun q => ampersand :: encodePair q).length
        = ps.foldr (fun q n => textLength q.1 + 1 + textLength q.2 + n) 0 + ps.length := by
      induction ps with
      | nil => rfl
      | cons q qs ih =>
        simp only [List.flatMap_cons, List.length_append, List.length_cons, ih,
          length_encodePair, List.foldr_cons]
        omega
    simp only [encode, List.length_append, length_encodePair, this, encodedLength,
      List.foldr_cons, List.length_cons]
    omega

end DeviceHttp.Form
