import DeviceHttp.Body.Stream
import DeviceHttp.Body.StreamSink
import DeviceHttp.Text.Hex

/-!
# What a description tells

A body is described for a person who looks at a log. Whatever the texts in it hold, every character
of the description shows (`StreamBody.shows_describe`, `StreamSink.shows_describe`), and two bodies
that differ in what is described are described differently (`StreamBody.describe_tells`,
`StreamSink.describe_tells`). What carries this is that a written value can be told from what follows
it (`Told`): `next?` reads one quoted character back from the front of any text.
-/

namespace DeviceHttp

namespace Quoted

/-! ## Every character shows -/

/-- Every character of a text shows on its own. -/
def Shows (s : String) : Prop :=
  ∀ c ∈ s.toList, Printable.isPrintable c = true

theorem shows_of_ascii {s : String}
    (h : s.toList.all (fun c => 32 ≤ c.toNat && c.toNat ≤ 126) = true) : Shows s := by
  intro c hc
  have hc := List.all_eq_true.1 h c hc
  rw [Bool.and_eq_true, decide_eq_true_eq, decide_eq_true_eq] at hc
  exact Printable.isPrintable_of_ascii hc.1 hc.2

theorem Shows.append {s t : String} (hs : Shows s) (ht : Shows t) : Shows (s ++ t) := by
  intro c hc
  rw [String.toList_append, List.mem_append] at hc
  exact hc.elim (hs c) (ht c)

/-- A number is written in base sixteen with the characters of the digits below sixteen. -/
theorem exists_of_mem_toDigits {n : Nat} {c : Char} (h : c ∈ Nat.toDigits 16 n) :
    ∃ d : Fin 16, c = Nat.digitChar d := by
  induction n using Nat.strongRecOn with
  | ind n ih =>
    rcases Nat.lt_or_ge n 16 with hn | hn
    · rw [Nat.toDigits_of_lt_base hn, List.mem_singleton] at h
      exact ⟨⟨n, hn⟩, h⟩
    · rw [Nat.toDigits_of_base_le (by decide) hn, List.mem_append, List.mem_singleton] at h
      rcases h with h | h
      · exact ih (n / 16) (by omega) h
      · exact ⟨⟨n % 16, Nat.mod_lt n (by decide)⟩, h⟩

/-- The quoted form of a character shows. An escape is ASCII throughout, and any other character is
kept only if it shows. -/
theorem shows_escape (c : Char) : ∀ d ∈ escape c, Printable.isPrintable d = true := by
  fun_cases escape c
  case case7 hshows => simpa using hshows
  case case8 =>
    intro d hd
    have hdigit : ∀ k : Fin 16, 32 ≤ (Nat.digitChar k).toNat ∧ (Nat.digitChar k).toNat ≤ 126 := by
      decide
    simp only [List.cons_append, List.nil_append, List.mem_cons, List.mem_append,
      List.not_mem_nil, or_false] at hd
    rcases hd with rfl | rfl | rfl | hd | rfl
    case inr.inr.inr.inl =>
      obtain ⟨k, rfl⟩ := exists_of_mem_toDigits hd
      exact Printable.isPrintable_of_ascii (hdigit k).1 (hdigit k).2
    all_goals exact Printable.isPrintable_of_ascii (by decide) (by decide)
  all_goals
    intro d hd
    simp only [List.mem_cons, List.not_mem_nil, or_false] at hd
    rcases hd with rfl | rfl <;> exact Printable.isPrintable_of_ascii (by decide) (by decide)

/-- A quoted text shows, whatever the text holds. -/
theorem shows_text (s : String) : Shows (text s) := by
  intro c hc
  simp only [text, String.toList_ofList, List.cons_append, List.mem_cons, List.mem_append,
    List.mem_flatMap, List.not_mem_nil, or_false] at hc
  rcases hc with rfl | ⟨d, -, hd⟩ | rfl
  · exact Printable.isPrintable_of_ascii (by decide) (by decide)
  · exact shows_escape d c hd
  · exact Printable.isPrintable_of_ascii (by decide) (by decide)

theorem shows_decimal (n : Nat) : Shows (Decimal.text n) := by
  intro c hc
  rw [Decimal.text, String.toList_ofList] at hc
  obtain ⟨hlow, hhigh⟩ :=
    Decimal.range_of_isDigit (List.all_eq_true.1 (Decimal.all_isDigit_render n) c hc)
  exact Printable.isPrintable_of_ascii (by omega) (by omega)

theorem shows_option {α : Type} {write : α → String} (h : ∀ a, Shows (write a)) (o : Option α) :
    Shows (option write o) := by
  have hnone : Shows "None" := shows_of_ascii rfl
  have hopen : Shows "Some(" := shows_of_ascii rfl
  have hclose : Shows ")" := shows_of_ascii rfl
  cases o with
  | none => exact hnone
  | some a => exact (hopen.append (h a)).append hclose

/-! ## A quoted character is read back -/

/-- The number that digits of base sixteen spell. -/
def code (ds : List Char) : Nat :=
  Hex.value (ds.map fun c => UInt8.ofNat c.toNat)

/-- The character that a letter behind a backslash stands for. -/
def named (c : Char) : Char :=
  if c = 't' then '\t' else if c = 'n' then '\n' else if c = 'r' then '\r'
  else if c = '0' then '\x00' else c

/-- The first character of what is left of a quoted text, and what follows it. There is none at the
closing quote. -/
def next? : List Char → Option (Char × List Char)
  | [] => none
  | c :: rest =>
    if c = '"' then none
    else if c ≠ '\\' then some (c, rest)
    else match rest with
      | [] => none
      | d :: rest =>
        if d = 'u' then
          some (Char.ofNat (code (rest.tail.takeWhile (· ≠ '\x7d'))),
            (rest.dropWhile (· ≠ '\x7d')).tail)
        else some (named d, rest)

/-- The digits of a number in base sixteen spell it. -/
theorem code_toDigits (n : Nat) : code (Nat.toDigits 16 n) = n := by
  have hdigit : ∀ k : Fin 16, Hex.digit? (UInt8.ofNat (Nat.digitChar k).toNat) = some k.val := by
    decide
  induction n using Nat.strongRecOn with
  | ind n ih =>
    rcases Nat.lt_or_ge n 16 with hn | hn
    · rw [Nat.toDigits_of_lt_base hn]
      simp [code, Hex.value, hdigit ⟨n, hn⟩]
    · have hlast := hdigit ⟨n % 16, Nat.mod_lt n (by decide)⟩
      have hfront := ih (n / 16) (by omega)
      rw [code] at hfront
      rw [Nat.toDigits_of_base_le (by decide) hn, code, List.map_append, List.map_singleton,
        Hex.value_append_singleton, hfront, hlast, Option.getD_some]
      exact Nat.div_add_mod n 16

/-- A quoted character in front of anything is read back, and nothing of what follows is touched. -/
theorem next?_escape (c : Char) (rest : List Char) : next? (escape c ++ rest) = some (c, rest) := by
  fun_cases escape c
  case case7 hquote hslash _ _ _ _ _ => simp [next?, hquote, hslash]
  case case8 =>
    -- no digit is the brace that ends the number
    have hbrace : ∀ d ∈ Nat.toDigits 16 c.toNat, decide (d ≠ '\x7d') = true := by
      intro d hd
      have hdigit : ∀ k : Fin 16, decide (Nat.digitChar k ≠ '\x7d') = true := by decide
      obtain ⟨k, rfl⟩ := exists_of_mem_toDigits hd
      exact hdigit k
    have hend : ∀ d ∈ ('\x7d' :: rest).head?, decide (d ≠ '\x7d') = false := by simp
    obtain ⟨htake, hdrop⟩ := Cut.while_append hbrace hend
    simp only [List.append_assoc, List.cons_append, List.nil_append, next?]
    rw [List.tail_cons, List.dropWhile_cons_of_pos (by decide), htake, hdrop, code_toDigits,
      Char.ofNat_toNat]
    rfl
  all_goals subst_vars; rfl

/-- The quoted form of some characters, up to the closing quote, is that of no others, and what
stands behind the quote is told as well. The induction reads one character off both. -/
theorem flatMap_escape_cancel {cs ds r s : List Char}
    (h : cs.flatMap escape ++ '"' :: r = ds.flatMap escape ++ '"' :: s) : cs = ds ∧ r = s := by
  have hclosed (rest : List Char) : next? ('"' :: rest) = none := rfl
  induction cs generalizing ds with
  | nil =>
    cases ds with
    | nil => exact ⟨rfl, (List.cons.inj h).2⟩
    | cons d ds =>
      have hnext := congrArg next? h
      rw [List.flatMap_cons, List.append_assoc, next?_escape, List.flatMap_nil, List.nil_append,
        hclosed] at hnext
      cases hnext
  | cons c cs ih =>
    have hnext := congrArg next? h
    rw [List.flatMap_cons, List.append_assoc, next?_escape] at hnext
    cases ds with
    | nil => rw [List.flatMap_nil, List.nil_append, hclosed] at hnext; cases hnext
    | cons d ds =>
      rw [List.flatMap_cons, List.append_assoc, next?_escape] at hnext
      obtain ⟨rfl, hrest⟩ := Prod.mk.inj (Option.some.inj hnext)
      obtain ⟨rfl, hrs⟩ := ih hrest
      exact ⟨rfl, hrs⟩

/-! ## What is written can be told from what follows it -/

/-- A value can be told from any text that starts with it, as long as no digit follows the value: both
the value and what follows it are determined. -/
def Told {α : Type} (write : α → String) : Prop :=
  ∀ {a b : α} {r s : List Char}, (∀ c ∈ r.head?, c.isDigit = false) →
    (∀ c ∈ s.head?, c.isDigit = false) → (write a).toList ++ r = (write b).toList ++ s →
    a = b ∧ r = s

/-- What does not start with a digit keeps digits away from what is in front of it. -/
theorem no_digit_ahead {cs : List Char} (h : cs.head?.map Char.isDigit = some false) :
    ∀ c ∈ cs.head?, c.isDigit = false := by
  intro c hc
  rw [hc] at h
  exact Option.some.inj h

/-- A quoted text ends at its own closing quote, since a quote inside it is escaped. -/
theorem told_text : Told text := by
  intro a b r s _ _ h
  simp only [text, String.toList_ofList, List.cons_append, List.append_assoc,
    List.nil_append] at h
  obtain ⟨hchars, hrs⟩ := flatMap_escape_cancel (List.cons.inj h).2
  exact ⟨String.toList_inj.1 hchars, hrs⟩

/-- A number ends where its digits do. -/
theorem told_decimal : Told Decimal.text := by
  intro m n r s hr hs h
  simp only [Decimal.text, String.toList_ofList] at h
  -- the digits in front are the same, so the two are cut at the same place
  have hspan := congrArg Decimal.span h
  rw [Decimal.span_of_digits (List.all_eq_true.1 (Decimal.all_isDigit_render m)) hr,
    Decimal.span_of_digits (List.all_eq_true.1 (Decimal.all_isDigit_render n)) hs] at hspan
  obtain ⟨hdigits, hrs⟩ := Prod.mk.inj hspan
  exact ⟨by simpa using congrArg Decimal.value hdigits, hrs⟩

/-- Whether there is a value is told by the first letter, and the value by what is between the
parentheses. -/
theorem told_option {α : Type} {write : α → String} (h : Told write) : Told (option write) := by
  intro a b r s _ _ heq
  cases a <;> cases b <;> simp only [option, String.toList_append, List.append_assoc] at heq
  case none.none => exact ⟨rfl, List.append_cancel_left heq⟩
  case some.some a b =>
    obtain ⟨rfl, hrs⟩ := h (no_digit_ahead rfl) (no_digit_ahead rfl)
      (List.append_cancel_left heq)
    exact ⟨rfl, List.append_cancel_left hrs⟩
  all_goals cases (List.cons.inj heq).1

theorem told_flag : Told fun on : Bool => if on then "true" else "false" := by
  intro a b r s _ _ h
  cases a <;> cases b
  case false.false => exact ⟨rfl, List.append_cancel_left h⟩
  case true.true => exact ⟨rfl, List.append_cancel_left h⟩
  all_goals cases (List.cons.inj h).1

end Quoted

namespace StreamBody

/-- Every character of a description shows, whatever the producer claims its content to be. -/
theorem shows_describe (b : StreamBody) : Quoted.Shows b.describe := by
  have hlength : Quoted.Shows "StreamSource \x7b len: " := Quoted.shows_of_ascii rfl
  have htype : Quoted.Shows ", content_type: " := Quoted.shows_of_ascii rfl
  have hend : Quoted.Shows ", .. \x7d" := Quoted.shows_of_ascii rfl
  exact (((hlength.append (Quoted.shows_option Quoted.shows_decimal b.length)).append htype).append
    (Quoted.shows_option Quoted.shows_text b.contentType)).append hend

/-- A description tells the length and the content type, whatever the content type holds. -/
theorem describe_tells {b c : StreamBody} (h : b.describe = c.describe) :
    b.length = c.length ∧ b.contentType = c.contentType := by
  unfold describe at h
  have hlist := congrArg String.toList h
  simp only [String.toList_append, List.append_assoc] at hlist
  obtain ⟨hlength, hrest⟩ := Quoted.told_option Quoted.told_decimal
    (Quoted.no_digit_ahead rfl) (Quoted.no_digit_ahead rfl)
    (List.append_cancel_left hlist)
  obtain ⟨htype, -⟩ := Quoted.told_option Quoted.told_text (Quoted.no_digit_ahead rfl)
    (Quoted.no_digit_ahead rfl) (List.append_cancel_left hrest)
  exact ⟨hlength, htype⟩

end StreamBody

namespace StreamSink

/-- Every character of a description shows. -/
theorem shows_describe (s : StreamSink) : Quoted.Shows s.describe := by
  have hlength : Quoted.Shows "StreamSink \x7b len: " := Quoted.shows_of_ascii rfl
  have hchunked : Quoted.Shows ", chunked: " := Quoted.shows_of_ascii rfl
  have hflag : Quoted.Shows (if s.chunked then "true" else "false") := by
    split <;> exact Quoted.shows_of_ascii rfl
  have hreceived : Quoted.Shows ", received: " := Quoted.shows_of_ascii rfl
  have hend : Quoted.Shows ", .. \x7d" := Quoted.shows_of_ascii rfl
  exact (((((hlength.append (Quoted.shows_option Quoted.shows_decimal s.length)).append
    hchunked).append hflag).append hreceived).append (Quoted.shows_decimal s.received)).append hend

/-- A description tells how the body is measured and how much of it was taken. -/
theorem describe_tells {s t : StreamSink} (h : s.describe = t.describe) :
    s.length = t.length ∧ s.chunked = t.chunked ∧ s.received = t.received := by
  unfold describe at h
  have hlist := congrArg String.toList h
  simp only [String.toList_append, List.append_assoc] at hlist
  obtain ⟨hlength, hrest⟩ := Quoted.told_option Quoted.told_decimal
    (Quoted.no_digit_ahead rfl) (Quoted.no_digit_ahead rfl)
    (List.append_cancel_left hlist)
  obtain ⟨hchunked, hrest⟩ := Quoted.told_flag (Quoted.no_digit_ahead rfl)
    (Quoted.no_digit_ahead rfl) (List.append_cancel_left hrest)
  obtain ⟨hreceived, -⟩ := Quoted.told_decimal (Quoted.no_digit_ahead rfl)
    (Quoted.no_digit_ahead rfl) (List.append_cancel_left hrest)
  exact ⟨hlength, hchunked, hreceived⟩

end StreamSink

end DeviceHttp
