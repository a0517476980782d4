import DeviceHttp.Text.Decimal

/-!
# Blank characters and the case of letters

The characters with the Unicode property `White_Space`, and the removal of them from the ends of a
text. Only the letters of ASCII have a case here: a scheme or a file suffix is compared without it,
and a character outside ASCII equals itself alone.
-/

namespace DeviceHttp.LetterCase

/-- The characters of a text, the letters of ASCII in lower case. -/
def fold (s : String) : List Char :=
  s.toList.map Char.toLower

/-- Whether two texts are the same up to the case of ASCII letters. -/
def same (a b : String) : Bool :=
  fold a = fold b

end DeviceHttp.LetterCase

namespace DeviceHttp.Blank

/-- The ranges of the Unicode property `White_Space`, both ends included. -/
def ranges : List (Nat × Nat) :=
  [(0x9, 0xD), (0x20, 0x20), (0x85, 0x85), (0xA0, 0xA0), (0x1680, 0x1680), (0x2000, 0x200A),
   (0x2028, 0x2029), (0x202F, 0x202F), (0x205F, 0x205F), (0x3000, 0x3000)]

/-- Whether a character is blank. -/
def isBlank (c : Char) : Bool :=
  ranges.any fun r => r.1 ≤ c.toNat && c.toNat ≤ r.2

/-- A text without the blanks at its front. -/
def trimStart (cs : List Char) : List Char :=
  cs.dropWhile isBlank

/-- A text without the blanks at its end. -/
def trimEnd (cs : List Char) : List Char :=
  (cs.reverse.dropWhile isBlank).reverse

/-- A text without the blanks at both ends. -/
def trim (cs : List Char) : List Char :=
  trimEnd (trimStart cs)

theorem isBlank_of_isDigit {c : Char} (h : c.isDigit = true) : isBlank c = false := by
  have hrange := Decimal.range_of_isDigit h
  rw [Bool.eq_false_iff]
  simp [isBlank, ranges]
  omega

/-- The blanks at the end of a text, and what they are behind. -/
theorem trimEnd_append (cs : List Char) :
    ∃ blanks, cs = trimEnd cs ++ blanks ∧ ∀ c ∈ blanks, isBlank c = true := by
  refine ⟨(cs.reverse.takeWhile isBlank).reverse, ?_, ?_⟩
  · rw [trimEnd, ← List.reverse_append, List.takeWhile_append_dropWhile, List.reverse_reverse]
  · intro c hc
    exact List.all_eq_true.1 List.all_takeWhile c (List.mem_reverse.1 hc)

/-- The blanks behind something that does not end in one. -/
theorem trimEnd_of_append {cs blanks : List Char} (hblanks : ∀ c ∈ blanks, isBlank c = true)
    (hcs : ∀ c ∈ cs.getLast?, isBlank c = false) : trimEnd (cs ++ blanks) = cs := by
  have hback : ∀ c ∈ cs.reverse.head?, isBlank c = false := by
    rwa [List.head?_reverse]
  rw [trimEnd, List.reverse_append,
    (Cut.while_append (fun c hc => hblanks c (List.mem_reverse.1 hc)) hback).2, List.reverse_reverse]

/-- The blanks at the start of a text, and what they are in front of. -/
theorem append_trimStart (cs : List Char) :
    ∃ blanks, cs = blanks ++ trimStart cs ∧ ∀ c ∈ blanks, isBlank c = true :=
  ⟨cs.takeWhile isBlank, List.takeWhile_append_dropWhile.symm,
    fun c hc => List.all_eq_true.1 List.all_takeWhile c hc⟩

theorem trimStart_append {blanks : List Char} (h : ∀ c ∈ blanks, isBlank c = true)
    (cs : List Char) : trimStart (blanks ++ cs) = trimStart cs :=
  List.dropWhile_append_of_pos h

theorem trimStart_of_head {cs : List Char} (h : ∀ c, cs.head? = some c → isBlank c = false) :
    trimStart cs = cs := by
  cases cs with
  | nil => rfl
  | cons c cs => exact List.dropWhile_cons_of_neg (by simp [h c rfl])

/-- A text that is trimmed starts with no blank. -/
theorem head_trim {cs : List Char} {c : Char} (h : (trim cs).head? = some c) :
    isBlank c = false := by
  obtain ⟨blanks, hcs, -⟩ := trimEnd_append (trimStart cs)
  have hstart : (trimStart cs).head? = some c := by
    rw [hcs, List.head?_append, show (trimEnd (trimStart cs)).head? = some c from h]
    rfl
  have hnot := List.head?_dropWhile_not isBlank cs
  rw [show (List.dropWhile isBlank cs).head? = some c from hstart] at hnot
  simpa using hnot

theorem trimStart_trim (cs : List Char) : trimStart (trim cs) = trim cs :=
  trimStart_of_head fun _ h => head_trim h

/-- A text with blanks around another one, or without. -/
def Pads (core cs : List Char) : Prop :=
  ∃ front back, cs = front ++ core ++ back ∧ (∀ c ∈ front, isBlank c = true) ∧
    ∀ c ∈ back, isBlank c = true

/-- A text that has no blank at either end. -/
structure Bare (cs : List Char) : Prop where
  head : ∀ c ∈ cs.head?, isBlank c = false
  last : ∀ c ∈ cs.getLast?, isBlank c = false

theorem Pads.trans {cs ds es : List Char} (h : Pads cs ds) (k : Pads ds es) : Pads cs es := by
  obtain ⟨front, back, rfl, hfront, hback⟩ := h
  obtain ⟨front', back', rfl, hfront', hback'⟩ := k
  exact ⟨front' ++ front, back ++ back', by simp, List.forall_mem_append.2 ⟨hfront', hfront⟩,
    List.forall_mem_append.2 ⟨hback, hback'⟩⟩

/-- Only what stands at the ends of a text decides whether they are bare. -/
theorem Bare.around {front back : List Char} (hfront : Bare front) (hback : Bare back)
    (hstart : front ≠ []) (hend : back ≠ []) (cs : List Char) : Bare (front ++ cs ++ back) where
  head c hc := by
    rw [List.append_assoc, List.head?_append, List.head?_eq_some_head hstart,
      Option.some_or] at hc
    exact hfront.head c (List.head?_eq_some_head hstart ▸ hc)
  last c hc := by
    rw [List.getLast?_append, List.getLast?_eq_some_getLast hend, Option.some_or] at hc
    exact hback.last c (List.getLast?_eq_some_getLast hend ▸ hc)

theorem pads_trim (cs : List Char) : Pads (trim cs) cs := by
  obtain ⟨front, hstart, hfront⟩ := append_trimStart cs
  obtain ⟨back, hend, hback⟩ := trimEnd_append (trimStart cs)
  exact ⟨front, back, by rw [trim, List.append_assoc, ← hend, ← hstart], hfront, hback⟩

theorem bare_trim (cs : List Char) : Bare (trim cs) where
  head _ hc := head_trim hc
  last c hc := by
    have hnot := List.head?_dropWhile_not isBlank (trimStart cs).reverse
    rw [trim, trimEnd, List.getLast?_reverse] at hc
    rw [Option.mem_def.1 hc] at hnot
    simpa using hnot

theorem trim_of_pads {core cs : List Char} (hpads : Pads core cs) (hbare : Bare core) :
    trim cs = core := by
  obtain ⟨front, back, rfl, hfront, hback⟩ := hpads
  rw [trim, List.append_assoc, trimStart_append hfront]
  cases core with
  | nil =>
    rw [List.nil_append, ← List.append_nil back, trimStart_append hback]
    rfl
  | cons c core =>
    have hstart : trimStart (c :: core ++ back) = c :: core ++ back :=
      trimStart_of_head fun d hd => hbare.head d hd
    rw [hstart, trimEnd_of_append hback hbare.last]

/-- Trimming takes off the blanks at both ends, and nothing else. -/
theorem trim_eq_iff {cs core : List Char} : trim cs = core ↔ Pads core cs ∧ Bare core :=
  ⟨fun h => h ▸ ⟨pads_trim cs, bare_trim cs⟩, fun h => trim_of_pads h.1 h.2⟩

end DeviceHttp.Blank
