import DeviceHttp.Transfer.HeaderBlock

/-!
# What a header line says

A line that can be read has a name and a value (`HeaderLine.Says`). A block of headers fails at some
of the lines that can be read, too; `HeaderLine.Faulty` are all the lines at which it fails, and it
fails with the same error at each. Any other line changes one field of the block, or none, as its
name has it (`HeaderBlock.addLine_ends`, `HeaderBlock.Adds`).
-/

namespace DeviceHttp

namespace HeaderLine

/-! ## Lines -/

/-- The line has this name and this value: there is no colon in the name, and no space or tab in
front of the value. -/
structure Says (line : Bytes) (name value : String) : Prop where
  text : ∃ gap : List Char, line = Utf8.encode (name.toList ++ ':' :: (gap ++ value.toList)) ∧
    ∀ c ∈ gap, c = ' ' ∨ c = '\t'
  named : name ≠ ""
  plain : ':' ∉ name.toList
  trimmed : ∀ c ∈ value.toList.head?, c ≠ ' ' ∧ c ≠ '\t'

/-- The text is the number on some digits, with or without a plus sign in front of them and with any
blanks behind them. -/
def SpellsLength (value : String) (n : Nat) : Prop :=
  ∃ sign digits blanks, value.toList = sign ++ digits ++ blanks ∧ (sign = [] ∨ sign = ['+']) ∧
    digits ≠ [] ∧ (∀ c ∈ digits, c.isDigit = true) ∧ (∀ c ∈ blanks, Blank.isBlank c = true) ∧
    Decimal.value digits = n ∧ n < UInt64.size

/-- A line that no block of headers can have. -/
inductive Faulty (line : Bytes) : Prop
  | noText (none : ∀ text : String, line ≠ Utf8.ofString text)
  | noColon {text : String} (spelled : line = Utf8.ofString text) (none : ':' ∉ text.toList)
  | noName {value : List Char} (spelled : line = Utf8.encode (':' :: value))
  | length {value : String} (said : Says line "Content-Length" value)
    (none : ∀ n, ¬ SpellsLength value n)
  | location {value : String} (said : Says line "Location" value)
    (long : 256 < (Utf8.ofString value).length)

/-- The line says that the body comes in chunks. -/
def SaysChunked (line : Bytes) : Prop :=
  Says line "Transfer-Encoding" "chunked" ∨ Says line "Transfer-Encoding" "Chunked"

theorem read?_eq_some_iff {line : Bytes} {name value : List Char} :
    read? line = some (name, value) ↔ Says line (String.ofList name) (String.ofList value) := by
  constructor
  · intro h
    unfold read? at h
    split at h
    · cases h
    · next cs hcs =>
      obtain rfl := Utf8.decode?_eq_some_iff.1 hcs
      split at h
      · cases h
      · next first rest hcut =>
        obtain ⟨rfl, hplain⟩ := Cut.around_singleton_eq_some_iff.1 hcut
        obtain ⟨hnamed, heq⟩ := Option.ite_none_left_eq_some.1 h
        obtain ⟨rfl, rfl⟩ := Prod.mk.inj (Option.some.inj heq)
        constructor
        · refine ⟨rest.takeWhile fun c => c = ' ' || c = '\t', ?_, fun c hc => ?_⟩
          · rw [String.toList_ofList, String.toList_ofList, List.takeWhile_append_dropWhile]
          · simpa using List.all_eq_true.1 List.all_takeWhile c hc
        · exact fun hempty => hnamed (by rw [← String.toList_ofList (l := first), hempty]; rfl)
        · rwa [String.toList_ofList]
        · intro c hc
          rw [String.toList_ofList] at hc
          have hnot := List.head?_dropWhile_not (fun c : Char => c = ' ' || c = '\t') rest
          rw [Option.mem_def.1 hc] at hnot
          simpa using hnot
  · rintro ⟨⟨gap, hline, hgap⟩, hnamed, hplain, htrimmed⟩
    rw [String.toList_ofList] at hplain htrimmed
    rw [String.toList_ofList, String.toList_ofList] at hline
    have hne : name ≠ [] := fun hnil => hnamed (by rw [hnil])
    have hdrop : (gap ++ value).dropWhile (fun c => c = ' ' || c = '\t') = value := by
      refine (Cut.while_append (fun c hc => ?_) fun c hc => ?_).2
      · simpa using hgap c hc
      · simpa using htrimmed c hc
    rw [read?, hline, Utf8.decode?_encode]
    dsimp only
    rw [Cut.around_of_notMem hplain]
    dsimp only
    rw [if_neg hne, hdrop]

theorem read?_of_said {line : Bytes} {name value : String} (h : Says line name value) :
    read? line = some (name.toList, value.toList) :=
  read?_eq_some_iff.2 (by rwa [String.ofList_toList, String.ofList_toList])

/-- A line has one name and one value. -/
theorem Says.unique {line : Bytes} {name name' value value' : String} (h : Says line name value)
    (h' : Says line name' value') : name = name' ∧ value = value' := by
  obtain ⟨hname, hvalue⟩ := Prod.mk.inj
    (Option.some.inj ((read?_of_said h).symm.trans (read?_of_said h')))
  exact ⟨String.toList_injective hname, String.toList_injective hvalue⟩

theorem faulty_of_read?_eq_none {line : Bytes} (h : read? line = none) : Faulty line := by
  unfold read? at h
  split at h
  · next hcs => exact .noText fun text hline => Utf8.decode?_eq_none_iff.1 hcs _ hline
  · next cs hcs =>
    obtain rfl := Utf8.decode?_eq_some_iff.1 hcs
    split at h
    · next hcut =>
      refine .noColon (Utf8.ofString_ofList cs).symm ?_
      rw [String.toList_ofList]
      exact Cut.around_singleton_eq_none_iff.1 hcut
    · next name value hcut =>
      obtain ⟨rfl, -⟩ := Cut.around_singleton_eq_some_iff.1 hcut
      split at h
      · next hname =>
        obtain rfl := hname
        exact .noName rfl
      · cases h

/-- A line that can be read has a colon, and something in front of it; so it is at fault only where
it says a length that is no number or a location that is too long. -/
theorem Says.not_faulty {line : Bytes} {name value : String} (h : Says line name value)
    (hlength : name = "Content-Length" → ∃ n, SpellsLength value n)
    (hlocation : name = "Location" → (Utf8.ofString value).length ≤ 256) : ¬ Faulty line := by
  obtain ⟨⟨gap, hline, -⟩, hnamed, hplain, -⟩ := id h
  intro hfaulty
  cases hfaulty with
  | noText none =>
    refine none (String.ofList (name.toList ++ ':' :: (gap ++ value.toList))) ?_
    rw [Utf8.ofString_ofList, hline]
  | noColon spelled none =>
    rw [hline] at spelled
    rw [← Utf8.encode_injective spelled] at none
    simp at none
  | noName spelled =>
    rw [hline] at spelled
    have hchars := Utf8.encode_injective spelled
    cases hname : name.toList with
    | nil => exact hnamed (String.toList_injective hname)
    | cons c cs =>
      rw [hname] at hchars hplain
      exact hplain ((List.cons.inj hchars).1 ▸ List.mem_cons_self)
  | length said none =>
    obtain ⟨hname, rfl⟩ := h.unique said
    obtain ⟨n, hn⟩ := hlength hname
    exact none n hn
  | location said long =>
    obtain ⟨hname, rfl⟩ := h.unique said
    exact Nat.not_lt_of_le (hlocation hname) long

theorem spellsLength_iff {value : String} {n : Nat} :
    SpellsLength value n ↔
      Decimal.number? HeaderBlock.lengthLimit (Blank.trimEnd value.toList) = some n := by
  rw [Decimal.number?_eq_some_iff]
  constructor
  · rintro ⟨sign, digits, blanks, hvalue, hsign, hne, hdigits, hblanks, rfl, hlt⟩
    refine ⟨sign, digits, ?_, hsign, Decimal.digits?_eq_some_iff.2 ⟨hne, hdigits, hlt, rfl⟩⟩
    rw [hvalue]
    refine Blank.trimEnd_of_append hblanks fun c hc => ?_
    rw [List.getLast?_append, List.getLast?_eq_some_getLast hne, Option.some_or] at hc
    obtain rfl := Option.some.inj hc
    exact Blank.isBlank_of_isDigit (hdigits _ (List.getLast_mem hne))
  · rintro ⟨sign, digits, htrim, hsign, hdigits⟩
    obtain ⟨hne, hdigit, hlt, rfl⟩ := Decimal.digits?_eq_some_iff.1 hdigits
    obtain ⟨blanks, hvalue, hblanks⟩ := Blank.trimEnd_append value.toList
    exact ⟨sign, digits, blanks, htrim ▸ hvalue, hsign, hne, hdigit, hblanks, rfl, hlt⟩

end HeaderLine

namespace HeaderBlock

open HeaderLine (Says SpellsLength Faulty)

/-! ## What a line adds to a block -/

/-- A block, and the same block after one more line. -/
inductive Adds (block : HeaderBlock) (line : Bytes) : HeaderBlock → Prop
  | length {value : String} {n : Nat} (said : Says line "Content-Length" value)
    (spells : SpellsLength value n) : Adds block line { block with contentLength := some n }
  | coding {value : String} (said : Says line "Transfer-Encoding" value) :
    Adds block line
      { block with chunked := block.chunked || value = "chunked" || value = "Chunked" }
  | type {value : String} (said : Says line "Content-Type" value) :
    Adds block line { block with contentType := ContentType.kept? value }
  | location {value : String} (said : Says line "Location" value)
    (fits : (Utf8.ofString value).length ≤ 256) :
    Adds block line { block with location := some value }
  | other {name value : String} (said : Says line name value)
    (unknown : name ∉ ["Content-Length", "Transfer-Encoding", "Content-Type", "Location"]) :
    Adds block line block

theorem Adds.not_faulty {block next : HeaderBlock} {line : Bytes} (h : Adds block line next) :
    ¬ Faulty line := by
  cases h with
  | length said spells =>
    exact said.not_faulty (fun _ => ⟨_, spells⟩) fun hname => absurd hname (by decide)
  | coding said | type said =>
    refine said.not_faulty ?_ ?_ <;> exact fun hname => absurd hname (by decide)
  | location said fits =>
    exact said.not_faulty (fun hname => absurd hname (by decide)) fun _ => fits
  | other said unknown =>
    refine said.not_faulty ?_ ?_ <;>
      · rintro rfl
        exact absurd unknown (by decide)

theorem addField_ends {line : Bytes} {name value : String} (h : Says line name value)
    (block : HeaderBlock) :
    (∃ next, block.addField name value = .ok next ∧ Adds block line next) ∨
      block.addField name value = .error .protocol ∧ Faulty line := by
  unfold addField
  by_cases hlength : name = "Content-Length"
  · subst hlength
    rw [if_pos rfl]
    cases hn : Decimal.number? lengthLimit (Blank.trimEnd value.toList) with
    | some n => exact .inl ⟨_, rfl, .length h (HeaderLine.spellsLength_iff.2 hn)⟩
    | none =>
      refine .inr ⟨rfl, .length h fun n hspells => ?_⟩
      cases hn.symm.trans (HeaderLine.spellsLength_iff.1 hspells)
  by_cases hcoding : name = "Transfer-Encoding"
  · rw [if_neg hlength, if_pos hcoding]
    exact .inl ⟨_, rfl, .coding (hcoding ▸ h)⟩
  by_cases htype : name = "Content-Type"
  · rw [if_neg hlength, if_neg hcoding, if_pos htype]
    exact .inl ⟨_, rfl, .type (htype ▸ h)⟩
  by_cases hlocation : name = "Location"
  · rw [if_neg hlength, if_neg hcoding, if_neg htype, if_pos hlocation]
    subst hlocation
    split
    · next hfits => exact .inl ⟨_, rfl, .location h (Utf8.fits_iff.1 hfits)⟩
    · next hlong =>
      exact .inr ⟨rfl, .location h (Nat.lt_of_not_le fun hle => hlong (Utf8.fits_iff.2 hle))⟩
  · rw [if_neg hlength, if_neg hcoding, if_neg htype, if_neg hlocation]
    refine .inl ⟨_, rfl, .other h ?_⟩
    simp [hlength, hcoding, htype, hlocation]

theorem foldlM_addLine_cons {block later : HeaderBlock} {line : Bytes} {ls : List Bytes}
    (h : (line :: ls).foldlM addLine block = .ok later) :
    ∃ next, block.addLine line = .ok next ∧ ls.foldlM addLine next = .ok later := by
  rw [List.foldlM_cons] at h
  cases hnext : block.addLine line with
  | error e =>
    rw [hnext] at h
    cases h
  | ok next =>
    rw [hnext] at h
    exact ⟨next, rfl, h⟩

/-- A line is added to a block, or the line is faulty and the block fails. -/
theorem addLine_ends (block : HeaderBlock) (line : Bytes) :
    (∃ next, block.addLine line = .ok next ∧ Adds block line next) ∨
      block.addLine line = .error .protocol ∧ Faulty line := by
  unfold addLine
  cases hread : HeaderLine.read? line with
  | none => exact .inr ⟨rfl, HeaderLine.faulty_of_read?_eq_none hread⟩
  | some field => exact addField_ends (HeaderLine.read?_eq_some_iff.1 hread) block

theorem adds_of_addLine {block next : HeaderBlock} {line : Bytes}
    (h : block.addLine line = .ok next) : Adds block line next := by
  rcases addLine_ends block line with ⟨next', hnext', hadds⟩ | ⟨herror, -⟩
  · obtain rfl := Except.ok.inj (h.symm.trans hnext')
    exact hadds
  · cases h.symm.trans herror

/-- A block keeps its location at every line that names none. -/
theorem Adds.location_cases {block next : HeaderBlock} {line : Bytes} (h : Adds block line next) :
    next.location = block.location ∨
      ∃ value, Says line "Location" value ∧ (Utf8.ofString value).length ≤ 256 ∧
        next.location = some value := by
  cases h with
  | location said fits => exact .inr ⟨_, said, fits, rfl⟩
  | length | coding | type | other => exact .inl rfl

end HeaderBlock

/-! ## Blocks -/

/-- The value of the last line of this name, if there is such a line. -/
inductive HeaderLine.LastValue (name : String) : List Bytes → Option String → Prop
  | absent {ls : List Bytes} (silent : ∀ line ∈ ls, ∀ value, ¬ Says line name value) :
    LastValue name ls none
  | found {before after : List Bytes} {line : Bytes} {value : String} (said : Says line name value)
    (silent : ∀ line ∈ after, ∀ value, ¬ Says line name value) :
    LastValue name (before ++ line :: after) (some value)

namespace HeaderLine.LastValue

variable {name : String} {ls : List Bytes} {line : Bytes} {value : Option String}

theorem nil (name : String) : LastValue name [] none :=
  .absent (by simp)

theorem last (ls : List Bytes) {value : String} (h : Says line name value) :
    LastValue name (ls ++ [line]) (some value) :=
  .found h (by simp)

/-- A line of another name makes no difference to the last value of this one. -/
theorem skip (h : LastValue name ls value) {other text : String} (hsaid : Says line other text)
    (hother : other ≠ name) : LastValue name (ls ++ [line]) value := by
  have hsilent : ∀ value, ¬ Says line name value := fun value hname =>
    hother (hsaid.unique hname).1
  cases h with
  | absent silent =>
    refine .absent fun l hl => ?_
    rcases List.mem_append.1 hl with hl | hl
    · exact silent l hl
    · rw [List.mem_singleton.1 hl]
      exact hsilent
  | found said silent =>
    rw [List.append_assoc, List.cons_append]
    refine .found said fun l hl => ?_
    rcases List.mem_append.1 hl with hl | hl
    · exact silent l hl
    · rw [List.mem_singleton.1 hl]
      exact hsilent

end HeaderLine.LastValue

namespace HeaderBlock

open HeaderLine (Says SpellsLength Faulty SaysChunked LastValue)

/-- What some lines say, taken together. -/
structure Gathers (ls : List Bytes) (block : HeaderBlock) : Prop where
  length : (LastValue "Content-Length" ls none ∧ block.contentLength = none) ∨
    ∃ value n, LastValue "Content-Length" ls (some value) ∧ SpellsLength value n ∧
      block.contentLength = some n
  chunked : block.chunked = true ↔ ∃ line ∈ ls, SaysChunked line
  type : ∃ type, LastValue "Content-Type" ls type ∧
    block.contentType = type.bind ContentType.kept?
  location : LastValue "Location" ls block.location

namespace Gathers

variable {ls : List Bytes} {line : Bytes} {block next : HeaderBlock}

theorem nil : Gathers [] {} where
  length := .inl ⟨.nil _, rfl⟩
  chunked := by simp
  type := ⟨none, .nil _, rfl⟩
  location := .nil _

theorem length_skip (h : Gathers ls block) {name value : String} (hsaid : Says line name value)
    (hname : name ≠ "Content-Length") :
    (LastValue "Content-Length" (ls ++ [line]) none ∧ block.contentLength = none) ∨
      ∃ value n, LastValue "Content-Length" (ls ++ [line]) (some value) ∧ SpellsLength value n ∧
        block.contentLength = some n := by
  rcases h.length with ⟨hlast, hnone⟩ | ⟨value, n, hlast, hn⟩
  · exact .inl ⟨hlast.skip hsaid hname, hnone⟩
  · exact .inr ⟨value, n, hlast.skip hsaid hname, hn⟩

theorem type_skip (h : Gathers ls block) {name value : String} (hsaid : Says line name value)
    (hname : name ≠ "Content-Type") :
    ∃ type, LastValue "Content-Type" (ls ++ [line]) type ∧
      block.contentType = type.bind ContentType.kept? := by
  obtain ⟨type, hlast, htype⟩ := h.type
  exact ⟨type, hlast.skip hsaid hname, htype⟩

theorem chunked_snoc (h : Gathers ls block) {chunked : Bool}
    (hline : chunked = true ↔ SaysChunked line) :
    (block.chunked || chunked) = true ↔ ∃ l ∈ ls ++ [line], SaysChunked l := by
  rw [Bool.or_eq_true, h.chunked, hline]
  simp only [List.mem_append, List.mem_singleton, or_and_right, exists_or, exists_eq_left]

theorem chunked_skip (h : Gathers ls block) {name value : String} (hsaid : Says line name value)
    (hname : name ≠ "Transfer-Encoding") :
    block.chunked = true ↔ ∃ l ∈ ls ++ [line], SaysChunked l := by
  have hline : false = true ↔ SaysChunked line := by
    refine iff_of_false Bool.false_ne_true ?_
    rintro (hchunked | hchunked) <;> exact hname (hsaid.unique hchunked).1
  rw [← h.chunked_snoc hline, Bool.or_false]

/-- One line more: its name decides which value it replaces, and a name that is not looked for
replaces none. -/
theorem snoc (h : Gathers ls block) (hadds : Adds block line next) :
    Gathers (ls ++ [line]) next := by
  cases hadds with
  | length said spells =>
    exact ⟨.inr ⟨_, _, .last ls said, spells, rfl⟩, h.chunked_skip said (by decide),
      h.type_skip said (by decide), h.location.skip said (by decide)⟩
  | @coding value said =>
    have hline : (decide (value = "chunked") || decide (value = "Chunked")) = true
        ↔ SaysChunked line := by
      rw [Bool.or_eq_true, decide_eq_true_eq, decide_eq_true_eq]
      constructor
      · rintro (rfl | rfl)
        · exact .inl said
        · exact .inr said
      · rintro (hchunked | hchunked)
        · exact .inl (said.unique hchunked).2
        · exact .inr (said.unique hchunked).2
    have hchunked := h.chunked_snoc hline
    rw [← Bool.or_assoc] at hchunked
    exact ⟨h.length_skip said (by decide), hchunked, h.type_skip said (by decide),
      h.location.skip said (by decide)⟩
  | type said =>
    exact ⟨h.length_skip said (by decide), h.chunked_skip said (by decide),
      ⟨_, .last ls said, rfl⟩, h.location.skip said (by decide)⟩
  | location said fits =>
    exact ⟨h.length_skip said (by decide), h.chunked_skip said (by decide),
      h.type_skip said (by decide), .last ls said⟩
  | other said unknown =>
    simp only [List.mem_cons, List.not_mem_nil, or_false, not_or] at unknown
    obtain ⟨hlength, hcoding, htype, hlocation⟩ := unknown
    exact ⟨h.length_skip said hlength, h.chunked_skip said hcoding, h.type_skip said htype,
      h.location.skip said hlocation⟩

/-- All lines of a block, those in front of it included. -/
theorem foldlM {before : List Bytes} {later : HeaderBlock} (h : Gathers before block)
    (hfold : ls.foldlM addLine block = .ok later) : Gathers (before ++ ls) later := by
  induction ls generalizing before block with
  | nil =>
    obtain rfl := Except.ok.inj hfold
    rwa [List.append_nil]
  | cons line ls ih =>
    obtain ⟨next, hnext, hlater⟩ := foldlM_addLine_cons hfold
    rw [← List.singleton_append, ← List.append_assoc]
    exact ih (h.snoc (adds_of_addLine hnext)) hlater

end Gathers

/-- A block of lines is read to its end exactly if none of them is faulty. The first faulty line
ends it, with the same error whatever the fault. -/
theorem foldlM_addLine_ends (ls : List Bytes) (block : HeaderBlock) :
    (∃ later, ls.foldlM addLine block = .ok later ∧ ∀ line ∈ ls, ¬ Faulty line) ∨
      ls.foldlM addLine block = .error .protocol ∧ ∃ line ∈ ls, Faulty line := by
  induction ls generalizing block with
  | nil => exact .inl ⟨block, rfl, by simp⟩
  | cons line ls ih =>
    rw [List.foldlM_cons]
    rcases addLine_ends block line with ⟨next, hnext, hadds⟩ | ⟨herror, hfaulty⟩
    · rw [hnext]
      rcases ih next with ⟨later, hlater, hsound⟩ | ⟨herror, l, hl, hfaulty⟩
      · exact .inl ⟨later, hlater, List.forall_mem_cons.2 ⟨hadds.not_faulty, hsound⟩⟩
      · exact .inr ⟨herror, l, List.mem_cons_of_mem _ hl, hfaulty⟩
    · rw [herror]
      exact .inr ⟨rfl, line, List.mem_cons_self, hfaulty⟩

end HeaderBlock

end DeviceHttp
