import DeviceHttp.Proofs.Form.Bodies

/-!
# What a form sink keeps

The pairs of a form sink are read off the entries of the body (`FormSink.map_ofPair_pairs`): of each
entry it keeps as much as there is room for, if that is text, up to its number of pairs. It has kept
everything as it was in the body exactly if it says so (`FormSink.overflowed_foldl_add`).
-/

namespace DeviceHttp

open Form (Entry Pair entries)

/-- The pairs of texts among some entries are the entries that are such pairs. -/
theorem Form.Entry.map_ofPair_filterMap (es : List Entry) :
    (es.filterMap Entry.pair?).map Entry.ofPair = es.filter fun e => (Entry.pair? e).isSome := by
  induction es with
  | nil => rfl
  | cons e es ih =>
    cases hpair : Entry.pair? e with
    | none =>
      rw [List.filterMap_cons_none hpair, List.filter_cons_of_neg (by simp [hpair]), ih]
    | some p =>
      rw [List.filterMap_cons_some hpair, List.filter_cons_of_pos (by simp [hpair]), List.map_cons,
        ih, Entry.pair?_eq_some_iff.1 hpair]

/-- The first pair with a key is the first entry with the bytes of the key. -/
theorem Form.Entry.lookup_map_ofPair (ps : List Pair) (key : String) :
    (ps.map Entry.ofPair).lookup (Utf8.ofString key) = (ps.lookup key).map Utf8.ofString := by
  induction ps with
  | nil => rfl
  | cons p ps ih =>
    obtain ⟨first, value⟩ := p
    rw [List.map_cons, Entry.ofPair, List.lookup_cons, List.lookup_cons, ih]
    by_cases hkey : key = first
    · subst hkey
      simp
    · have hbytes : Utf8.ofString key ≠ Utf8.ofString first :=
        fun heq => hkey (Utf8.ofString_injective heq)
      rw [beq_false_of_ne hkey, beq_false_of_ne hbytes]

namespace FormSink

variable {s : FormSink} {e : Entry} {es : List Entry}

/-- Whether an entry leaves a pair behind where there is room for one: whether as much of it as a
pair has room for is text. -/
def leavesPair (e : Entry) : Bool :=
  (Entry.pair? (front e)).isSome

/-- The entries that leave a pair behind in an empty sink for `n` pairs. -/
def stored (n : Nat) (es : List Entry) : List Entry :=
  (es.filter leavesPair).take n

/-- Whether an entry can be kept as it is: it is text, and there is room for all of it. -/
def isWhole (e : Entry) : Bool :=
  fits e && (Entry.pair? e).isSome

theorem isWhole_iff : isWhole e = true ↔
    e.1.length ≤ keyCapacity ∧ e.2.length ≤ valueCapacity ∧
      (Utf8.toString? e.1).isSome ∧ (Utf8.toString? e.2).isSome := by
  rw [isWhole, Bool.and_eq_true, fits_iff, Entry.isSome_pair?_iff, and_assoc]

theorem isWhole_eq (e : Entry) : isWhole e = (fits e && leavesPair e) := by
  unfold isWhole leavesPair
  cases hfits : fits e with
  | false => rfl
  | true => rw [front_of_fits hfits]

/-! ## One more entry -/

theorem add_of_some (hne : e ≠ ([], [])) {p : Pair} (hpair : Entry.pair? (front e) = some p) :
    s.add e = if s.pairs.length < s.capacity then
      { s with pairs := s.pairs ++ [p], overflowed := s.overflowed || !fits e }
    else { s with overflowed := true } := by
  rw [add, if_neg hne, hpair]

theorem add_of_none (hne : e ≠ ([], [])) (hpair : Entry.pair? (front e) = none) :
    s.add e = { s with overflowed := true } := by
  rw [add, if_neg hne, hpair]

@[simp] theorem capacity_add (s : FormSink) (e : Entry) : (s.add e).capacity = s.capacity := by
  rcases s.add_cases e with hadd | hadd | ⟨-, p, hadd⟩ <;> rw [hadd]

theorem length_pairs_add_le (hroom : s.pairs.length ≤ s.capacity) (e : Entry) :
    (s.add e).pairs.length ≤ s.capacity := by
  rcases s.add_cases e with hadd | hadd | ⟨hless, p, hadd⟩
  · rwa [hadd]
  · rwa [hadd]
  · rw [hadd, List.length_append]
    exact hless

/-- An entry goes unnoticed exactly if it is kept as it is. -/
theorem overflowed_add (hne : e ≠ ([], [])) :
    (s.add e).overflowed = false ↔
      s.overflowed = false ∧ isWhole e = true ∧ s.pairs.length < s.capacity := by
  rw [isWhole_eq, leavesPair]
  cases hpair : Entry.pair? (front e) with
  | none => simp [add_of_none hne hpair]
  | some p =>
    rw [add_of_some hne hpair]
    split
    · next hless => simp [hless]
    · next hfull => simp [hfull]

theorem length_pairs_add_of_whole (hne : e ≠ ([], [])) (hwhole : isWhole e = true)
    (hless : s.pairs.length < s.capacity) : (s.add e).pairs.length = s.pairs.length + 1 := by
  rw [isWhole_eq, Bool.and_eq_true] at hwhole
  obtain ⟨p, hpair⟩ := Option.isSome_iff_exists.1 hwhole.2
  rw [add_of_some hne hpair, if_pos hless, List.length_append, List.length_singleton]

/-! ## All entries of a body -/

/-- A sink keeps the entries in order, each of them cut to what there is room for, as far as they
are text, and as many as fit. -/
theorem pairs_foldl_add (hnone : ∀ e ∈ es, e ≠ ([], [])) :
    (es.foldl add s).pairs
      = s.pairs ++ ((es.map front).filterMap Entry.pair?).take (s.capacity - s.pairs.length) := by
  induction es generalizing s with
  | nil => simp
  | cons e es ih =>
    obtain ⟨hne, hnone⟩ := List.forall_mem_cons.1 hnone
    rw [List.foldl_cons, ih hnone, capacity_add, List.map_cons]
    cases hpair : Entry.pair? (front e) with
    | none =>
      rw [add_of_none hne hpair, List.filterMap_cons_none hpair]
    | some p =>
      rw [add_of_some hne hpair, List.filterMap_cons_some hpair]
      split
      · next hless =>
        have hroom : s.capacity - s.pairs.length = (s.capacity - (s.pairs.length + 1)) + 1 := by
          omega
        rw [hroom, List.take_succ_cons, List.length_append, List.length_singleton,
          List.append_assoc, List.singleton_append]
      · next hfull =>
        have hroom : s.capacity - s.pairs.length = 0 := by omega
        rw [hroom, List.take_zero, List.take_zero]

/-- The pairs of a sink are the fronts of the entries that leave one behind. -/
theorem map_ofPair_pairs (hnone : ∀ e ∈ es, e ≠ ([], [])) (hnew : s.pairs = []) :
    (es.foldl add s).pairs.map Entry.ofPair = (stored s.capacity es).map front := by
  have hpairs := pairs_foldl_add (s := s) hnone
  rw [hnew, List.nil_append, List.length_nil, Nat.sub_zero] at hpairs
  rw [hpairs, List.map_take, Entry.map_ofPair_filterMap, List.filter_map, stored,
    List.map_take]
  rfl

/-- Nothing is noted exactly if every entry is kept as it is: none is too long, all are texts, and
there is room for all of them. -/
theorem overflowed_foldl_add (hnone : ∀ e ∈ es, e ≠ ([], []))
    (hroom : s.pairs.length ≤ s.capacity) :
    (es.foldl add s).overflowed = false ↔
      s.overflowed = false ∧ (∀ e ∈ es, isWhole e = true) ∧
        s.pairs.length + es.length ≤ s.capacity := by
  induction es generalizing s with
  | nil => simpa using fun _ => hroom
  | cons e es ih =>
    obtain ⟨hne, hnone⟩ := List.forall_mem_cons.1 hnone
    have hadd : (s.add e).pairs.length ≤ (s.add e).capacity := by
      rw [capacity_add]
      exact length_pairs_add_le hroom e
    rw [List.foldl_cons, ih hnone hadd, overflowed_add hne, capacity_add, List.forall_mem_cons,
      List.length_cons]
    constructor
    · rintro ⟨⟨hclear, hwhole, hless⟩, hrest, hlength⟩
      rw [length_pairs_add_of_whole hne hwhole hless] at hlength
      exact ⟨hclear, ⟨hwhole, hrest⟩, by omega⟩
    · rintro ⟨hclear, ⟨hwhole, hrest⟩, hlength⟩
      have hless : s.pairs.length < s.capacity := by omega
      refine ⟨⟨hclear, hwhole, hless⟩, hrest, ?_⟩
      rw [length_pairs_add_of_whole hne hwhole hless]
      omega

/-- If every entry can be kept as it is and there is room for them all, they are kept. -/
theorem map_front_stored {n : Nat} (hwhole : ∀ e ∈ es, isWhole e = true) (hlength : es.length ≤ n) :
    (stored n es).map front = es := by
  have hboth (e : Entry) (he : e ∈ es) : fits e = true ∧ leavesPair e = true := by
    rw [← Bool.and_eq_true, ← isWhole_eq]
    exact hwhole e he
  rw [stored, List.filter_eq_self.2 fun e he => (hboth e he).2, List.take_of_length_le hlength]
  exact (List.map_congr_left fun e he => front_of_fits (hboth e he).1).trans (List.map_id es)

theorem ne_nil_of_mem_entries {body : Bytes} (h : e ∈ entries body) : e ≠ ([], []) :=
  of_decide_eq_true (List.mem_filter.1 h).2

section Slices

variable {slices : List Bytes} {framing : Framing}

theorem map_ofPair_acceptAll (hslices : ∀ slice ∈ slices, slice ≠ [])
    (hframing : framing.Announces slices.flatten) (s : FormSink) :
    (Sink.acceptAll s (framing.calls slices)).pairs.map Entry.ofPair
      = (stored s.capacity (entries slices.flatten)).map front := by
  obtain ⟨length, chunked, received, hend⟩ := acceptAll_calls hslices hframing s
  rw [hend, pairs_framed]
  exact map_ofPair_pairs (s := { capacity := s.capacity }) (fun e => ne_nil_of_mem_entries) rfl

/-- Nothing was left out of a body exactly if its entries are short enough and no more than can be
kept. -/
theorem overflowed_acceptAll (hslices : ∀ slice ∈ slices, slice ≠ [])
    (hframing : framing.Announces slices.flatten) (s : FormSink) :
    (Sink.acceptAll s (framing.calls slices)).overflowed = false ↔
      (∀ e ∈ entries slices.flatten, isWhole e = true) ∧
        (entries slices.flatten).length ≤ s.capacity := by
  obtain ⟨length, chunked, received, hend⟩ := acceptAll_calls hslices hframing s
  have hflag := overflowed_foldl_add (s := { capacity := s.capacity })
    (fun e => @ne_nil_of_mem_entries e slices.flatten) (Nat.zero_le _)
  rw [hend, overflowed_framed, hflag]
  simp

/-- If nothing is noted, the pairs are the entries of the body. -/
theorem map_ofPair_acceptAll_of_clear (hslices : ∀ slice ∈ slices, slice ≠ [])
    (hframing : framing.Announces slices.flatten) (s : FormSink)
    (hclear : (Sink.acceptAll s (framing.calls slices)).overflowed = false) :
    (Sink.acceptAll s (framing.calls slices)).pairs.map Entry.ofPair = entries slices.flatten := by
  obtain ⟨hwhole, hlength⟩ := (overflowed_acceptAll hslices hframing s).1 hclear
  rw [map_ofPair_acceptAll hslices hframing, map_front_stored hwhole hlength]

/-- A sink decodes a form as it is read from the whole body (`Form.entries`), however the body is
cut and framed. It notes nothing exactly if every key has at most 64 bytes, every value at most 128,
all of them are text, and there is room for the pairs; then it has the entries of the body as its
pairs, and looking up a key gives the value of the first entry with this key. -/
theorem acceptAll_decodes (hslices : ∀ slice ∈ slices, slice ≠ [])
    (hframing : framing.Announces slices.flatten) (s : FormSink) :
    let es := entries slices.flatten
    let t := Sink.acceptAll s (framing.calls slices)
    (t.overflowed = false ↔
      (∀ e ∈ es, e.1.length ≤ 64 ∧ e.2.length ≤ 128 ∧
        (Utf8.toString? e.1).isSome ∧ (Utf8.toString? e.2).isSome) ∧
      es.length ≤ s.capacity) ∧
    (t.overflowed = false →
      t.pairs.map Entry.ofPair = es ∧
      ∀ key, (t.get? key).map Utf8.ofString = es.lookup (Utf8.ofString key)) := by
  dsimp only
  constructor
  · rw [overflowed_acceptAll hslices hframing]
    simp only [isWhole_iff, keyCapacity, valueCapacity]
  · intro hclear
    have hpairs := map_ofPair_acceptAll_of_clear hslices hframing s hclear
    refine ⟨hpairs, fun key => ?_⟩
    rw [get?, ← Entry.lookup_map_ofPair, hpairs]

/-- Percent signs that are no escapes, an escape that is cut by a slice, and a piece that says
nothing. -/
theorem acceptAll_decodes_cut_escape :
    let slices := [Utf8.ofString "k=%zz%4", Utf8.ofString "1&&k=+"]
    let s : FormSink := { capacity := 2, pairs := [("old", "")], overflowed := true }
    let t := Sink.acceptAll s (Framing.chunked.calls slices)
    (∀ slice ∈ slices, slice ≠ []) ∧ Framing.chunked.Announces slices.flatten ∧
      t.overflowed = false ∧
      t.pairs.map Entry.ofPair
        = [(Utf8.ofString "k", Utf8.ofString "%zzA"), (Utf8.ofString "k", Utf8.ofString " ")] ∧
      (t.get? "k").map Utf8.ofString = some (Utf8.ofString "%zzA") := by
  intro slices s t
  have hslices : ∀ slice ∈ slices, slice ≠ [] := by decide
  have hentries : entries slices.flatten
      = [(Utf8.ofString "k", Utf8.ofString "%zzA"), (Utf8.ofString "k", Utf8.ofString " ")] := by
    decide
  obtain ⟨hflag, hkept⟩ := acceptAll_decodes hslices (.inl rfl) s
  have hclear : t.overflowed = false := by
    rw [hflag, hentries]
    decide
  obtain ⟨hpairs, hget⟩ := hkept hclear
  refine ⟨hslices, .inl rfl, hclear, hpairs.trans hentries, ?_⟩
  rw [hget, hentries]
  decide

/-! ## Entries that are too long -/

theorem filter_isWhole (es : List Entry) :
    es.filter isWhole = (es.filter leavesPair).filter fits := by
  rw [List.filter_filter]
  exact List.filter_congr fun e _ => isWhole_eq e

/-- The first entries that can be kept as they are, if those that leave a pair behind can. -/
theorem stored_eq_whole {n : Nat} (h : ∀ e ∈ stored n es, fits e = true) :
    stored n es = (es.filter isWhole).take n := by
  have hsplit : es.filter isWhole
      = stored n es ++ ((es.filter leavesPair).drop n).filter fits := by
    rw [filter_isWhole, ← List.take_append_drop n (es.filter leavesPair), List.filter_append,
      List.take_append_drop]
    exact congrArg (· ++ _) (List.filter_eq_self.2 h)
  have hlength : (stored n es).length = min n (es.filter leavesPair).length := List.length_take
  rw [hsplit]
  rcases Nat.le_total n (es.filter leavesPair).length with hle | hle
  · rw [Nat.min_eq_left hle] at hlength
    rw [List.take_left' hlength]
  · rw [List.drop_of_length_le hle, List.filter_nil, List.append_nil,
      List.take_of_length_le (by omega)]

/-- Cutting leaves some entries as they are exactly if each of them is short enough. -/
theorem map_front_eq_self_iff : es.map front = es ↔ ∀ e ∈ es, fits e = true := by
  have hfront (e : Entry) : front e = e ↔ fits e = true := by
    refine ⟨fun heq => ?_, front_of_fits⟩
    rw [fits_iff, ← heq]
    exact ⟨List.length_take_le .., List.length_take_le ..⟩
  calc
    es.map front = es ↔ es.map front = es.map id := by rw [List.map_id]
    _ ↔ ∀ e ∈ es, front e = e := List.map_inj_left
    _ ↔ ∀ e ∈ es, fits e = true := forall₂_congr fun e _ => hfront e

/-- Where no entry is turned away for want of pairs, those that can be kept as they are are all that
leave a pair behind only if all of these can. -/
theorem fits_of_length_eq {n : Nat} (hroom : (es.filter leavesPair).length ≤ n)
    (h : (stored n es).length = ((es.filter isWhole).take n).length) :
    ∀ e ∈ stored n es, fits e = true := by
  have hle := List.length_filter_le fits (es.filter leavesPair)
  rw [stored, filter_isWhole, List.take_of_length_le hroom,
    List.take_of_length_le (Nat.le_trans hle hroom)] at h
  rw [stored, List.take_of_length_le hroom]
  exact List.length_filter_eq_length_iff.1 h.symm

/-- What a sink has of a body. Its pairs are what there was room for of the entries that leave one
behind, and so they are these entries as the body has them exactly if there was room for all of
each. Then they are the first of the entries that can be kept as they are; and if no entry was
turned away for want of pairs, only then. -/
theorem acceptAll_keeps_fronts (hslices : ∀ slice ∈ slices, slice ≠ []) (s : FormSink) :
    let es := entries slices.flatten
    let kept := (Sink.acceptAll s (Framing.chunked.calls slices)).pairs.map Entry.ofPair
    let whole := (es.filter fun e => e.1.length ≤ 64 ∧ e.2.length ≤ 128 ∧
      (Utf8.toString? e.1).isSome ∧ (Utf8.toString? e.2).isSome).take s.capacity
    kept = (stored s.capacity es).map front ∧
    (kept = stored s.capacity es ↔ ∀ e ∈ stored s.capacity es, fits e = true) ∧
    ((∀ e ∈ stored s.capacity es, fits e = true) → kept = whole) ∧
    ((es.filter leavesPair).length ≤ s.capacity → kept = whole →
      ∀ e ∈ stored s.capacity es, fits e = true) := by
  intro es kept whole
  have hkept : kept = (stored s.capacity es).map front := map_ofPair_acceptAll hslices (.inl rfl) s
  have hwhole : whole = (es.filter isWhole).take s.capacity := by
    refine congrArg (List.take s.capacity) (List.filter_congr fun e _ => ?_)
    rw [Bool.eq_iff_iff, isWhole_iff, decide_eq_true_iff]
    rfl
  refine ⟨hkept, ?_, fun hfits => ?_, fun hroom hsame => ?_⟩
  · rw [hkept, map_front_eq_self_iff]
  · rw [hkept, map_front_eq_self_iff.2 hfits, hwhole, stored_eq_whole hfits]
  · refine fits_of_length_eq hroom ?_
    rw [← hwhole, ← hsame, hkept, List.length_map]

/-- A key that is too long, in a slice of its own, behind an entry that can be kept. -/
theorem acceptAll_keeps_fronts_of_long_key :
    let slices := [Utf8.ofString "k=1&", List.replicate 65 97, Utf8.ofString "=2"]
    let s : FormSink := { capacity := 2 }
    (∀ slice ∈ slices, slice ≠ []) ∧
      (Sink.acceptAll s (Framing.chunked.calls slices)).pairs.map Entry.ofPair
        = [(Utf8.ofString "k", Utf8.ofString "1"), (List.replicate 64 97, Utf8.ofString "2")] := by
  intro slices s
  have hslices : ∀ slice ∈ slices, slice ≠ [] := by decide
  have hentries : entries slices.flatten
      = [(Utf8.ofString "k", Utf8.ofString "1"), (List.replicate 65 97, Utf8.ofString "2")] := by
    decide
  refine ⟨hslices, ?_⟩
  rw [(acceptAll_keeps_fronts hslices s).1, hentries]
  decide

/-- A key of one byte too many leaves a pair behind whose key the body does not have, and with which
the sink has more than the entries that can be kept. -/
theorem acceptAll_cuts_long_key :
    let body : Bytes := List.replicate 65 97 ++ Utf8.ofString "=1"
    let t := Sink.acceptAll ({ capacity := 2 } : FormSink) (Framing.chunked.calls [body])
    t.pairs.map Entry.ofPair = [(List.replicate 64 97, Utf8.ofString "1")] ∧
      ¬ (∀ p ∈ t.pairs, Entry.ofPair p ∈ entries body) ∧
      t.pairs.map Entry.ofPair ≠ ((entries body).filter isWhole).take 2 := by
  intro body t
  have hentries : entries body = [(List.replicate 65 97, Utf8.ofString "1")] := by decide
  have hbody : [body].flatten = body := rfl
  have hkept : t.pairs.map Entry.ofPair = [(List.replicate 64 97, Utf8.ofString "1")] := by
    rw [map_ofPair_acceptAll (by decide) (.inl rfl), hbody, hentries]
    decide
  refine ⟨hkept, fun hall => ?_, ?_⟩
  · have hmem : (List.replicate 64 97, Utf8.ofString "1") ∈ t.pairs.map Entry.ofPair := by
      rw [hkept]
      exact List.mem_singleton_self _
    obtain ⟨p, hp, heq⟩ := List.mem_map.1 hmem
    have hwrong := hall p hp
    rw [heq, hentries] at hwrong
    exact absurd hwrong (by decide)
  · rw [hkept, hentries]
    decide

end Slices

end FormSink

end DeviceHttp
