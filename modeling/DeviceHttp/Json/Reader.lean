import DeviceHttp.Json.Error
import DeviceHttp.Text.Hex

/-!
# Reading JSON

A reader takes a value off the front of a text and gives it with the rest, which is shorter. Texts
are not unescaped: a reader gives the bytes between the quotes. Fields that a record does not know
are skipped, whatever they hold.
-/

namespace DeviceHttp.Json

/-- What a reader leaves of a text: something shorter. -/
abbrev Rest (s : Bytes) := { r : Bytes // r.length < s.length }

/-- What is left of a part is left of the whole. -/
def Rest.ofPart {part whole : Bytes} (h : part.length ≤ whole.length) (r : Rest part) :
    Rest whole :=
  ⟨r.1, Nat.lt_of_lt_of_le r.2 h⟩

/-- Takes a value off the front of a text. -/
abbrev Reader (α : Type) := (s : Bytes) → Except ReadError (α × Rest s)

/-- The blanks of JSON: space, line feed, tab and carriage return. -/
def isBlank (b : UInt8) : Bool :=
  b = 32 || b = 10 || b = 9 || b = 13

/-- A text without the blanks at its front. -/
def skipBlanks (s : Bytes) : Bytes :=
  s.dropWhile isBlank

theorem length_skipBlanks_le (s : Bytes) : (skipBlanks s).length ≤ s.length :=
  (List.dropWhile_sublist _).length_le

theorem length_lt_of_skipBlanks_eq_cons {s r : Bytes} {b : UInt8} (h : skipBlanks s = b :: r) :
    r.length < s.length := by
  have := length_skipBlanks_le s
  rw [h, List.length_cons] at this
  omega

/-! ## Texts -/

/-- The bytes before the closing quote, and what follows it. A backslash takes the byte after it
along. -/
def untilQuote : Bytes → Option (Bytes × Bytes)
  | [] => none
  | [b] => if b = 34 then some ([], []) else none
  | b :: c :: s =>
    if b = 34 then some ([], c :: s)
    else if b = 92 then (untilQuote s).map fun (text, rest) => (b :: c :: text, rest)
    else (untilQuote (c :: s)).map fun (text, rest) => (b :: text, rest)

theorem length_untilQuote_lt {s text rest : Bytes} (h : untilQuote s = some (text, rest)) :
    rest.length < s.length := by
  fun_induction untilQuote s generalizing text with
  | case1 => simp at h
  | case2 => simp_all
  | case3 => simp at h
  | case4 => simp_all
  | case5 c s hc ih =>
    obtain ⟨⟨t, r⟩, htr, heq⟩ := Option.map_eq_some_iff.1 h
    obtain ⟨rfl, rfl⟩ := Prod.mk.inj heq
    have := ih htr
    simp
    omega
  | case6 b c s hb hc ih =>
    obtain ⟨⟨t, r⟩, htr, heq⟩ := Option.map_eq_some_iff.1 h
    obtain ⟨rfl, rfl⟩ := Prod.mk.inj heq
    have := ih htr
    simp at this ⊢
    omega

/-- A text whose opening quote was read. -/
def readOpenText : Reader String := fun s =>
  match h : untilQuote s with
  | none => .error .endInString
  | some (text, rest) =>
    match Utf8.toString? text with
    | none => .error .invalidText
    | some text => .ok (text, ⟨rest, length_untilQuote_lt h⟩)

/-- A text between quotes. -/
def readText : Reader String := fun s =>
  match h : skipBlanks s with
  | [] => .error .endInValue
  | b :: r =>
    if b = 34 then
      (readOpenText r).map fun (text, rest) =>
        (text, rest.ofPart (Nat.le_of_lt (length_lt_of_skipBlanks_eq_cons h)))
    else .error .invalidType

/-! ## Numbers -/

/-- Whether a byte is a decimal digit. -/
def isDigit (b : UInt8) : Bool :=
  48 ≤ b && b ≤ 57

/-- The number that a list of digits spells. -/
def digitsValue (ds : Bytes) : Nat :=
  ds.foldl (fun n b => 10 * n + (b.toNat - 48)) 0

/-- The digits of a number without its sign: a zero, or digits that do not start with one. A number
that is not `admitted` fails. -/
def readDigits (admitted : Nat → Bool) : Reader Nat
  | [] => .error .endInValue
  | b :: s =>
    if b = 48 then .ok (0, ⟨s, by simp⟩)
    else if isDigit b then
      let n := digitsValue (b :: s.takeWhile isDigit)
      if admitted n then
        .ok (n, ⟨s.dropWhile isDigit, Nat.lt_succ_of_le (List.dropWhile_sublist _).length_le⟩)
      else .error .invalidNumber
    else .error .invalidType

/-- A number from zero up, below `limit`. -/
def readUnsigned (limit : Nat) : Reader Nat := fun s =>
  match skipBlanks s, length_skipBlanks_le s with
  | [], _ => .error .endInValue
  | b :: r, h =>
    if b = 45 then .error .invalidNumber
    else (readDigits (· < limit) (b :: r)).map fun (n, rest) => (n, rest.ofPart h)

/-- A number from `-limit` up, below `limit`. -/
def readSigned (limit : Nat) : Reader Int := fun s =>
  match skipBlanks s, length_skipBlanks_le s with
  | [], _ => .error .endInValue
  | b :: r, h =>
    if b = 45 then
      (readDigits (· ≤ limit) r).map fun (n, rest) =>
        (-(n : Int), rest.ofPart (Nat.le_of_lt h))
    else (readDigits (· < limit) (b :: r)).map fun (n, rest) => ((n : Int), rest.ofPart h)

/-! ## Words -/

/-- The rest of a word whose first byte was read. -/
def readWord {α : Type} (word : Bytes) (value : α) (s : Bytes) :
    Except ReadError (α × { r : Bytes // r.length ≤ s.length }) :=
  if word.isPrefixOf s then .ok (value, ⟨s.drop word.length, by simp⟩) else .error .expectedWord

/-- `true`, `false`, or `null` for nothing. -/
def readFlag : Reader (Option Bool) := fun s =>
  match h : skipBlanks s with
  | [] => .error .endInValue
  | b :: r =>
    let word :=
      if b = 110 then readWord (Utf8.ofString "ull") none r
      else if b = 116 then readWord (Utf8.ofString "rue") (some true) r
      else if b = 102 then readWord (Utf8.ofString "alse") (some false) r
      else .error .invalidType
    word.map fun (value, rest) =>
      (value, ⟨rest.1, Nat.lt_of_le_of_lt rest.2 (length_lt_of_skipBlanks_eq_cons h)⟩)

/-! ## Separators -/

/-- A colon, after any blanks. -/
def skipColon (s : Bytes) : Except ReadError (Rest s) :=
  match h : skipBlanks s with
  | [] => .error .endInRecord
  | b :: r =>
    if b = 58 then .ok ⟨r, length_lt_of_skipBlanks_eq_cons h⟩ else .error .expectedColon

/-- What comes next in a record. -/
inductive NextField (s : Bytes)
  /-- The end of the record. -/
  | stop (rest : Rest s)
  /-- A key, whose opening quote is taken. -/
  | key (rest : Rest s)

/-- What comes next in a record; every field but the first needs a comma in front. -/
def nextField (isFirst : Bool) (s : Bytes) : Except ReadError (NextField s) :=
  match h : skipBlanks s with
  | [] => .error .endInRecord
  | b :: r =>
    have hr := length_lt_of_skipBlanks_eq_cons h
    if b = 125 then .ok (.stop ⟨r, hr⟩)
    else if isFirst then
      if b = 34 then .ok (.key ⟨r, hr⟩) else .error .keyIsNotText
    else if b = 44 then
      match h' : skipBlanks r with
      | [] => .error .endInValue
      | c :: t =>
        if c = 34 then .ok (.key ⟨t, Nat.lt_trans (length_lt_of_skipBlanks_eq_cons h') hr⟩)
        else if c = 125 then .error .trailingComma
        else .error .keyIsNotText
    else .error .expectedRecordCommaOrEnd

/-- What comes next in a list. -/
inductive NextItem (s : Bytes)
  /-- The end of the list. -/
  | stop (rest : Rest s)
  /-- An item; `isFirst` tells whether the next one may still come without a comma. -/
  | item (isFirst : Bool) (rest : { r : Bytes // r.length ≤ s.length })

/-- What comes next in a list. One item may come without a comma in front, and an item that has a
comma leaves that allowance to a later one. -/
def nextItem (isFirst : Bool) (s : Bytes) : Except ReadError (NextItem s) :=
  match h : skipBlanks s with
  | [] => .error .endInList
  | b :: r =>
    have hr := length_lt_of_skipBlanks_eq_cons h
    if b = 93 then .ok (.stop ⟨r, hr⟩)
    else if b = 44 then
      match skipBlanks r with
      | [] => .error .endInValue
      | c :: _ =>
        if c = 93 then .error .trailingComma else .ok (.item isFirst ⟨r, Nat.le_of_lt hr⟩)
    else if isFirst then .ok (.item false ⟨s, Nat.le_refl _⟩)
    else .error .expectedListCommaOrEnd

/-! ## Skipping -/

/-- Whether a byte ends a bare value. -/
def endsBare (b : UInt8) : Bool :=
  b = 44 || b = 125 || b = 93

/-- A bare value is everything up to a byte that ends it. -/
def skipBare (s : Bytes) : Except ReadError { r : Bytes // r.length ≤ s.length } :=
  if s.all (!endsBare ·) then .error .endInString
  else .ok ⟨s.dropWhile (!endsBare ·), (List.dropWhile_sublist _).length_le⟩

mutual

/-- Pass over a value of any form. -/
def skipValue (s : Bytes) : Except ReadError (Rest s) :=
  match h : skipBlanks s with
  | [] => .error .endInValue
  | b :: r =>
    have hr := length_lt_of_skipBlanks_eq_cons h
    if b = 34 then (readOpenText r).map fun read => read.2.ofPart (Nat.le_of_lt hr)
    else if b = 91 then (skipItems true r).map (Rest.ofPart (Nat.le_of_lt hr))
    else if b = 123 then (skipFields true r).map (Rest.ofPart (Nat.le_of_lt hr))
    else if endsBare b then .error .expectedValue
    else (skipBare r).map fun rest => ⟨rest.1, Nat.lt_of_le_of_lt rest.2 hr⟩
termination_by (s.length, 0)

/-- Pass over the items of a list and its end. -/
def skipItems (isFirst : Bool) (s : Bytes) : Except ReadError (Rest s) :=
  match nextItem isFirst s with
  | .error e => .error e
  | .ok (.stop rest) => .ok rest
  | .ok (.item isFirst rest) =>
    match skipValue rest.1 with
    | .error e => .error e
    | .ok after =>
      have hafter := Nat.lt_of_lt_of_le after.2 rest.2
      (skipItems isFirst after.1).map (Rest.ofPart (Nat.le_of_lt hafter))
termination_by (s.length, 1)
decreasing_by
  · rcases Nat.lt_or_eq_of_le rest.2 with h | h
    · exact Prod.Lex.left _ _ h
    · rw [h]
      exact Prod.Lex.right _ Nat.zero_lt_one
  · exact Prod.Lex.left _ _ hafter

/-- Pass over the fields of a record and its end. -/
def skipFields (isFirst : Bool) (s : Bytes) : Except ReadError (Rest s) :=
  match nextField isFirst s with
  | .error e => .error e
  | .ok (.stop rest) => .ok rest
  | .ok (.key rest) =>
    match readOpenText rest.1 with
    | .error e => .error e
    | .ok (_, afterKey) =>
      match skipColon afterKey.1 with
      | .error e => .error e
      | .ok afterColon =>
        have hcolon := Nat.lt_trans afterColon.2 (Nat.lt_trans afterKey.2 rest.2)
        match skipValue afterColon.1 with
        | .error e => .error e
        | .ok after =>
          have hafter := Nat.lt_trans after.2 hcolon
          (skipFields false after.1).map (Rest.ofPart (Nat.le_of_lt hafter))
termination_by (s.length, 1)
decreasing_by
  · exact Prod.Lex.left _ _ hcolon
  · exact Prod.Lex.left _ _ hafter

end

/-! ## Lists and records -/

/-- The end of a list that has all its items. -/
def endList (s : Bytes) : Except ReadError (Rest s) :=
  match h : skipBlanks s with
  | [] => .error .endInList
  | b :: r =>
    if b = 93 then .ok ⟨r, length_lt_of_skipBlanks_eq_cons h⟩
    else if b = 44 ∧ (skipBlanks r).head? = some 93 then .error .trailingComma
    else .error .trailing

/-- So many items of a list and its end. -/
def readItems {α : Type} (readItem : Reader α) :
    (count : Nat) → (isFirst : Bool) → Reader (List α)
  | 0, _, s => (endList s).map fun rest => ([], rest)
  | n + 1, isFirst, s =>
    match nextItem isFirst s with
    | .error e => .error e
    | .ok (.stop _) => .error .unexpectedForm
    | .ok (.item isFirst rest) =>
      match readItem rest.1 with
      | .error e => .error e
      | .ok (item, after) =>
        have hafter := Nat.lt_of_lt_of_le after.2 rest.2
        (readItems readItem n isFirst after.1).map fun (items, rest) =>
          (item :: items, rest.ofPart (Nat.le_of_lt hafter))

/-- A list of exactly so many items. -/
def readList {α : Type} (count : Nat) (readItem : Reader α) : Reader (List α) := fun s =>
  match h : skipBlanks s with
  | [] => .error .endInValue
  | b :: r =>
    if b = 91 then
      (readItems readItem count true r).map fun (items, rest) =>
        (items, rest.ofPart (Nat.le_of_lt (length_lt_of_skipBlanks_eq_cons h)))
    else .error .invalidType

/-- The fields of a record that knows two of them, and its end. A field may be there once, in any
place; `a` and `b` are the ones read so far. -/
def readFields {α β : Type} (nameA nameB : String) (readA : Reader α) (readB : Reader β)
    (isFirst : Bool) (a : Option α) (b : Option β) (s : Bytes) :
    Except ReadError ((α × β) × Rest s) :=
  match nextField isFirst s with
  | .error e => .error e
  | .ok (.stop rest) =>
    match a, b with
    | some a, some b => .ok ((a, b), rest)
    | _, _ => .error .unexpectedForm
  | .ok (.key rest) =>
    match readOpenText rest.1 with
    | .error e => .error e
    | .ok (name, afterKey) =>
      if (name = nameA ∧ a.isSome) ∨ (name = nameB ∧ b.isSome) then .error .unexpectedForm
      else
        match skipColon afterKey.1 with
        | .error e => .error e
        | .ok afterColon =>
          have hcolon := Nat.lt_trans afterColon.2 (Nat.lt_trans afterKey.2 rest.2)
          let value : Except ReadError ((Option α × Option β) × Rest afterColon.1) :=
            if name = nameA then (readA afterColon.1).map fun (x, rest) => ((some x, b), rest)
            else if name = nameB then (readB afterColon.1).map fun (y, rest) => ((a, some y), rest)
            else (skipValue afterColon.1).map fun rest => ((a, b), rest)
          match value with
          | .error e => .error e
          | .ok ((a, b), after) =>
            have hafter := Nat.lt_trans after.2 hcolon
            (readFields nameA nameB readA readB false a b after.1).map fun (fields, rest) =>
              (fields, rest.ofPart (Nat.le_of_lt hafter))
termination_by s.length
decreasing_by exact hafter

/-- A record that knows two fields. -/
def readRecord {α β : Type} (nameA : String) (readA : Reader α) (nameB : String)
    (readB : Reader β) : Reader (α × β) := fun s =>
  match h : skipBlanks s with
  | [] => .error .endInValue
  | b :: r =>
    if b = 123 then
      (readFields nameA nameB readA readB true none none r).map fun (fields, rest) =>
        (fields, rest.ofPart (Nat.le_of_lt (length_lt_of_skipBlanks_eq_cons h)))
    else .error .invalidType

/-- A whole text: a value, with nothing but blanks after it. -/
def read {α : Type} (reader : Reader α) (s : Bytes) : Except ReadError α :=
  match reader s with
  | .error e => .error e
  | .ok (value, rest) => if skipBlanks rest.1 = [] then .ok value else .error .trailing

end DeviceHttp.Json
