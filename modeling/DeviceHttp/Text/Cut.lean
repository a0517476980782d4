/-!
# Cutting a list at a separator

Every grammar here splits at the first occurrence of something: `://` in a URL, a colon in a header
line, the end of a line in a stream. `Cut.around` is that one operation, and `around_eq_some_iff` is
its law: the first part is the shortest one that a separator follows. `Cut.fields` splits at every
occurrence of one element.
-/

namespace DeviceHttp.Cut

variable {α : Type} [DecidableEq α]

/-- The parts of a list before and after the first occurrence of `sep`. -/
def around (sep : List α) : List α → Option (List α × List α)
  | [] => if sep = [] then some ([], []) else none
  | a :: as =>
    if sep.isPrefixOf (a :: as) then some ([], (a :: as).drop sep.length)
    else (around sep as).map fun parts => (a :: parts.1, parts.2)

/-- The parts of a list between the occurrences of `sep`; one more part than occurrences. -/
def fields (sep : α) : List α → List (List α)
  | [] => [[]]
  | a :: as =>
    if a = sep then [] :: fields sep as
    else match fields sep as with
      | [] => [[a]]
      | part :: parts => (a :: part) :: parts

theorem eq_append_of_around {sep l x y : List α} (h : around sep l = some (x, y)) :
    l = x ++ sep ++ y := by
  induction l generalizing x with
  | nil =>
    by_cases hs : sep = [] <;> simp [around, hs] at h
    simp [h, hs]
  | cons a as ih =>
    rw [around] at h
    split at h
    · next hp =>
      obtain ⟨rfl, rfl⟩ := Prod.mk.inj (Option.some.inj h)
      obtain ⟨t, ht⟩ := List.isPrefixOf_iff_prefix.1 hp
      rw [← ht]
      simp
    · obtain ⟨⟨u, v⟩, huv, hxy⟩ := Option.map_eq_some_iff.1 h
      obtain ⟨rfl, rfl⟩ := Prod.mk.inj hxy
      simp [ih huv]

/-- A separator further along leaves a cut at or before it. -/
theorem around_append (sep x y : List α) :
    ∃ u v, around sep (x ++ sep ++ y) = some (u, v) ∧ u.length ≤ x.length := by
  induction x with
  | nil =>
    cases hl : sep ++ y with
    | nil =>
      have hs : sep = [] := (List.append_eq_nil_iff.1 hl).1
      exact ⟨[], [], by simp_all [around], Nat.le_refl _⟩
    | cons a as =>
      have hp : sep.isPrefixOf (a :: as) := by
        rw [← hl]
        exact List.isPrefixOf_iff_prefix.2 ⟨y, rfl⟩
      exact ⟨[], (a :: as).drop sep.length, by simp [hl, around, hp], Nat.le_refl _⟩
  | cons a as ih =>
    obtain ⟨u, v, huv, hle⟩ := ih
    rw [show (a :: as) ++ sep ++ y = a :: (as ++ sep ++ y) from rfl, around]
    split
    · exact ⟨[], _, rfl, Nat.zero_le _⟩
    · exact ⟨a :: u, v, by rw [huv]; rfl, by simpa using hle⟩

/-- The first part is the shortest one that the separator follows. -/
theorem around_eq_some_iff {sep l x y : List α} :
    around sep l = some (x, y) ↔
      l = x ++ sep ++ y ∧ ∀ x' y', l = x' ++ sep ++ y' → x.length ≤ x'.length := by
  constructor
  · intro h
    refine ⟨eq_append_of_around h, fun x' y' hl => ?_⟩
    obtain ⟨u, v, huv, hle⟩ := around_append sep x' y'
    rw [← hl, h] at huv
    obtain ⟨rfl, rfl⟩ := Prod.mk.inj (Option.some.inj huv)
    exact hle
  · rintro ⟨hl, hmin⟩
    obtain ⟨u, v, huv, hle⟩ := around_append sep x y
    rw [← hl] at huv
    have hul := eq_append_of_around huv
    have hlen : u.length = x.length := Nat.le_antisymm hle (hmin u v hul)
    have h2 : u ++ (sep ++ v) = x ++ (sep ++ y) := by
      rw [← List.append_assoc, ← List.append_assoc, ← hul, hl]
    obtain ⟨rfl, h3⟩ := List.append_inj h2 hlen
    rw [huv, List.append_cancel_left h3]

theorem around_eq_none_iff {sep l : List α} :
    around sep l = none ↔ ∀ x y, l ≠ x ++ sep ++ y := by
  constructor
  · intro h x y hl
    obtain ⟨u, v, huv, -⟩ := around_append sep x y
    rw [← hl, h] at huv
    exact absurd huv (by simp)
  · intro h
    cases hc : around sep l with
    | none => rfl
    | some parts => exact absurd (eq_append_of_around (x := parts.1) (y := parts.2) hc) (h _ _)

/-- What comes behind a list does not change where it is cut. -/
theorem around_append_right {sep l x y : List α} (h : around sep l = some (x, y)) (m : List α) :
    around sep (l ++ m) = some (x, y ++ m) := by
  obtain ⟨hl, hmin⟩ := around_eq_some_iff.1 h
  refine around_eq_some_iff.2 ⟨by rw [hl, List.append_assoc _ y m], fun x' y' hm => ?_⟩
  refine Nat.le_of_not_lt fun hlt => ?_
  have hlength := congrArg List.length hl
  simp only [List.length_append] at hlength
  -- an earlier separator would lie in `l` whole
  have hprefix : x' ++ sep <+: l :=
    List.prefix_of_prefix_length_le ⟨y', hm.symm⟩ ⟨m, rfl⟩ (by
      simp only [List.length_append]
      omega)
  obtain ⟨y'', hy''⟩ := hprefix
  exact Nat.not_le_of_lt hlt (hmin x' y'' hy''.symm)

/-- What stands in front of the first occurrence of an element does not hold it. -/
theorem around_of_notMem {a : α} {x y : List α} (h : a ∉ x) :
    around [a] (x ++ a :: y) = some (x, y) := by
  induction x with
  | nil => simp [around]
  | cons b x ih =>
    rw [List.mem_cons, not_or] at h
    obtain ⟨hne, hx⟩ := h
    rw [List.cons_append, around, ih hx]
    simp [hne]

/-- A list is cut at an element exactly where the element stands for the first time. -/
theorem around_singleton_eq_some_iff {a : α} {l x y : List α} :
    around [a] l = some (x, y) ↔ l = x ++ a :: y ∧ a ∉ x := by
  constructor
  · intro h
    obtain ⟨hl, hmin⟩ := around_eq_some_iff.1 h
    rw [List.append_assoc] at hl
    refine ⟨hl, fun hmem => ?_⟩
    obtain ⟨x', y', hx⟩ := List.append_of_mem hmem
    have hle := hmin x' (y' ++ a :: y) (by rw [hl, hx]; simp)
    rw [hx, List.length_append, List.length_cons] at hle
    omega
  · rintro ⟨rfl, hx⟩
    exact around_of_notMem hx

theorem around_singleton_eq_none_iff {a : α} {l : List α} : around [a] l = none ↔ a ∉ l := by
  rw [around_eq_none_iff]
  constructor
  · intro h hmem
    obtain ⟨x, y, hl⟩ := List.append_of_mem hmem
    exact h x y (by rw [hl, List.append_assoc]; rfl)
  · rintro h x y rfl
    simp at h

omit [DecidableEq α] in
/-- What is taken from a list while a condition holds, and what is then left of it. -/
theorem while_append {p : α → Bool} {front back : List α} (hfront : ∀ a ∈ front, p a = true)
    (hback : ∀ a ∈ back.head?, p a = false) :
    (front ++ back).takeWhile p = front ∧ (front ++ back).dropWhile p = back := by
  rw [List.takeWhile_append_of_pos hfront, List.dropWhile_append_of_pos hfront]
  cases back with
  | nil => simp
  | cons a as => simp [hback a rfl]

theorem fields_ne_nil (sep : α) (l : List α) : fields sep l ≠ [] := by
  cases l with
  | nil => simp [fields]
  | cons a as =>
    by_cases h : a = sep
    · simp [fields, h]
    · simp only [fields, h, if_false]
      split <;> simp

/-- A list without separators is one part. -/
theorem fields_of_notMem {sep : α} {l : List α} (h : sep ∉ l) : fields sep l = [l] := by
  induction l with
  | nil => rfl
  | cons a as ih =>
    rw [List.mem_cons, not_or] at h
    obtain ⟨hne, has⟩ := h
    rw [fields, if_neg (Ne.symm hne), ih has]

/-- The first part ends at the first separator. -/
theorem fields_append {sep : α} {part rest : List α} (h : sep ∉ part) :
    fields sep (part ++ sep :: rest) = part :: fields sep rest := by
  induction part with
  | nil => rw [List.nil_append, fields, if_pos rfl]
  | cons a as ih =>
    rw [List.mem_cons, not_or] at h
    obtain ⟨hne, has⟩ := h
    rw [List.cons_append, fields, if_neg (Ne.symm hne), ih has]

/-- What holds of a list without separators, and of a part in front of a separator where it holds of
the rest, holds of every list. -/
@[elab_as_elim]
theorem parts_induction {P : List α → Prop} (sep : α)
    (last : ∀ part, sep ∉ part → P part)
    (step : ∀ part rest, sep ∉ part → P rest → P (part ++ sep :: rest)) (l : List α) : P l := by
  induction hn : l.length using Nat.strongRecOn generalizing l with
  | ind n ih =>
    by_cases hmem : sep ∈ l
    · obtain ⟨part, rest, rfl, hpart⟩ := List.eq_append_cons_of_mem hmem
      have hshort : rest.length < n := by
        rw [← hn, List.length_append, List.length_cons]
        omega
      exact step part rest hpart (ih rest.length hshort rest rfl)
    · exact last l hmem

/-- No part holds a separator. -/
theorem notMem_of_mem_fields {sep : α} {l part : List α} (h : part ∈ fields sep l) :
    sep ∉ part := by
  induction l using parts_induction sep with
  | last first hfirst =>
    rw [fields_of_notMem hfirst] at h
    obtain rfl := List.mem_singleton.1 h
    exact hfirst
  | step first rest hfirst ih =>
    rw [fields_append hfirst] at h
    rcases List.mem_cons.1 h with rfl | hrest
    · exact hfirst
    · exact ih hrest

omit [DecidableEq α] in
theorem intercalate_cons_cons (sep : α) (part next : List α) (parts : List (List α)) :
    [sep].intercalate (part :: next :: parts)
      = part ++ sep :: [sep].intercalate (next :: parts) := by
  rw [List.intercalate_cons_cons, List.append_assoc, List.singleton_append]

/-- The parts with the separators between them are the list. -/
theorem intercalate_fields (sep : α) (l : List α) : [sep].intercalate (fields sep l) = l := by
  induction l using parts_induction sep with
  | last first hfirst => rw [fields_of_notMem hfirst, List.intercalate_singleton]
  | step first rest hfirst ih =>
    obtain ⟨second, others, hrest⟩ := List.exists_cons_of_ne_nil (fields_ne_nil sep rest)
    rw [fields_append hfirst, hrest, intercalate_cons_cons, ← hrest, ih]

/-- Parts without separators are the parts of the list that they make up. -/
theorem fields_intercalate {sep : α} {parts : List (List α)} (hparts : parts ≠ [])
    (h : ∀ part ∈ parts, sep ∉ part) : fields sep ([sep].intercalate parts) = parts := by
  induction parts with
  | nil => exact absurd rfl hparts
  | cons first parts ih =>
    obtain ⟨hfirst, hothers⟩ := List.forall_mem_cons.1 h
    cases parts with
    | nil => rw [List.intercalate_singleton, fields_of_notMem hfirst]
    | cons second others =>
      rw [intercalate_cons_cons, fields_append hfirst, ih (List.cons_ne_nil second others) hothers]

end DeviceHttp.Cut
