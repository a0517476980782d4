import DeviceHttp.Proofs.Transfer.Feed

/-!
# Lines in a stream

A stream starts with a line that fits, or it does not, and then it is too long for one or ends in
it. `Window.line_cases` says that these are all cases; for each of them there is what `Feed.readLine`
makes of it. A line may hold a single carriage return or line feed, also as its last byte.
-/

namespace DeviceHttp

namespace Window

/-- A line, without its end, that a window of this size holds together with its end. -/
structure HoldsLine (capacity : Nat) (line : Bytes) : Prop where
  noEnd : ¬ crlf <:+: line
  length : line.length + 2 ≤ capacity

theorem holdsLine_of_not_mem {capacity : Nat} {line : Bytes} (h : 13 ∉ line)
    (hlength : line.length + 2 ≤ capacity) : HoldsLine capacity line where
  noEnd := by
    rintro ⟨x, y, rfl⟩
    simp [crlf] at h
  length := hlength

/-- A window that holds a line holds the empty one. -/
theorem HoldsLine.empty {capacity : Nat} {line : Bytes} (h : HoldsLine capacity line) :
    HoldsLine capacity [] :=
  holdsLine_of_not_mem List.not_mem_nil (Nat.le_trans (Nat.le_add_left 2 _) h.length)

/-- A stream is cut behind the first line, which is the part that no end of a line lies in. An end
of a line can neither start before the cut nor lie across it. -/
theorem around_crlf_iff {stream line rest : Bytes} :
    Cut.around crlf stream = some (line, rest) ↔
      stream = line ++ crlf ++ rest ∧ ¬ crlf <:+: line := by
  rw [Cut.around_eq_some_iff]
  constructor
  · rintro ⟨hstream, hmin⟩
    refine ⟨hstream, ?_⟩
    rintro ⟨x, y, hline⟩
    have hle := hmin x (y ++ crlf ++ rest) (by rw [hstream, ← hline]; simp)
    have hlength := congrArg List.length hline
    simp only [List.length_append, crlf, List.length_cons, List.length_nil] at hlength
    omega
  · rintro ⟨hstream, hno⟩
    refine ⟨hstream, ?_⟩
    intro x y hcut
    apply Nat.le_of_not_lt
    intro hlt
    have heq : x ++ (crlf ++ y) = line ++ (crlf ++ rest) := by
      rw [← List.append_assoc, ← List.append_assoc, ← hcut, hstream]
    rcases List.append_eq_append_iff.1 heq with ⟨m, hline, hm⟩ | ⟨m, hx, -⟩
    · -- an end of a line that starts in the line ends there, or takes a line feed for a return
      rcases m with _ | ⟨b, _ | ⟨c, m⟩⟩
      · rw [hline, List.append_nil] at hlt
        exact Nat.lt_irrefl _ hlt
      · simp only [crlf, List.cons_append, List.nil_append, List.cons.injEq] at hm
        exact absurd hm.2.1 (by decide)
      · simp only [crlf, List.cons_append, List.nil_append, List.cons.injEq] at hm
        exact hno ⟨x, m, by rw [hline, ← hm.1, ← hm.2.1]; simp [crlf]⟩
    · rw [hx, List.length_append] at hlt
      omega

/-- A stream is not cut exactly if there is no line end anywhere in it. -/
theorem around_crlf_eq_none_iff {stream : Bytes} :
    Cut.around crlf stream = none ↔ ¬ crlf <:+: stream := by
  rw [Cut.around_eq_none_iff]
  constructor
  · rintro hnone ⟨line, rest, hstream⟩
    exact hnone line rest hstream.symm
  · exact fun hnone line rest hstream => hnone ⟨line, rest, hstream.symm⟩

/-- A window in which no line is found misses the end of one. -/
theorem lineLength?_eq_none_iff {w : Window} : w.lineLength? = none ↔ ¬ crlf <:+: w.pending := by
  rw [lineLength?, Option.map_eq_none_iff, around_crlf_eq_none_iff]

/-- A stream that is cut before the end of its first line has no end of a line. -/
theorem not_crlf_of_cut {line : Bytes} {k : Nat} (hno : ¬ crlf <:+: line) (rest : Bytes)
    (hk : k < line.length + 2) : ¬ crlf <:+: (line ++ crlf ++ rest).take k := by
  rintro ⟨x, y, hxy⟩
  have hstream : line ++ crlf ++ rest = x ++ crlf ++ (y ++ (line ++ crlf ++ rest).drop k) := by
    rw [← List.append_assoc, hxy, List.take_append_drop]
  have hle := (Cut.around_eq_some_iff.1 (around_crlf_iff.2 ⟨rfl, hno⟩)).2 x _ hstream
  have hlength := congrArg List.length hxy
  simp only [List.length_append, List.length_take, crlf, List.length_cons, List.length_nil]
    at hlength
  omega

theorem take_of_line {line : Bytes} {k : Nat} (rest : Bytes) (hk : line.length + 2 ≤ k) :
    (line ++ crlf ++ rest).take k = line ++ crlf ++ rest.take (k - (line.length + 2)) := by
  have hle : (line ++ crlf).length ≤ k := by simpa [crlf] using hk
  rw [List.take_append, List.take_of_length_le hle]
  simp [crlf]

/-- A stream starts with a line that fits, is too long for one, or ends in it; whether it is too
long is told by as many bytes as fit. -/
theorem line_cases (capacity : Nat) (stream : Bytes) :
    (∃ line rest, HoldsLine capacity line ∧ stream = line ++ crlf ++ rest) ∨
      (¬ crlf <:+: stream.take capacity ∧ capacity ≤ stream.length) ∨
      (¬ crlf <:+: stream ∧ stream.length < capacity) := by
  cases hcut : Cut.around crlf (stream.take capacity) with
  | none =>
    have hno : ¬ crlf <:+: stream.take capacity := around_crlf_eq_none_iff.1 hcut
    by_cases hlong : capacity ≤ stream.length
    · exact .inr (.inl ⟨hno, hlong⟩)
    · rw [List.take_of_length_le (by omega)] at hno
      exact .inr (.inr ⟨hno, by omega⟩)
  | some parts =>
    rcases parts with ⟨line, rest⟩
    rcases around_crlf_iff.1 hcut with ⟨htake, hno⟩
    refine .inl ⟨line, rest ++ stream.drop capacity, ⟨hno, ?_⟩, ?_⟩
    · have hlength := congrArg List.length htake
      simp only [List.length_take, List.length_append, crlf, List.length_cons, List.length_nil]
        at hlength
      omega
    · rw [← List.append_assoc, ← htake, List.take_append_drop]

end Window

namespace Feed

open Window (crlf HoldsLine)

variable {f : Feed} {line rest : Bytes}

/-- The first line end is found behind a line that holds none, although there may be more of them
later. -/
theorem lineLength?_of_line (hline : HoldsLine f.capacity line)
    (hbytes : f.bytes = line ++ crlf ++ rest) : f.lineLength? = some line.length := by
  have htake : f.bytes.take f.capacity
      = line ++ crlf ++ rest.take (f.capacity - (line ++ crlf).length) := by
    have hlength := hline.length
    rw [hbytes, List.take_append, List.take_of_length_le]
    simpa [crlf] using hlength
  rw [lineLength?, htake, Window.around_crlf_iff.2 ⟨rfl, hline.noEnd⟩]
  rfl

theorem lineLength?_eq_none (h : ¬ crlf <:+: f.bytes.take f.capacity) : f.lineLength? = none := by
  exact Option.map_eq_none_iff.2 (Window.around_crlf_eq_none_iff.2 h)

/-- A line that fits is read. -/
theorem readLine_of_line (hline : HoldsLine f.capacity line)
    (hbytes : f.bytes = line ++ crlf ++ rest) : f.readLine = .ok line.length f := by
  rw [readLine, lineLength?_of_line hline hbytes]

theorem front_of_line (hbytes : f.bytes = line ++ crlf ++ rest) : f.front line.length = line := by
  rw [front, hbytes, List.append_assoc, List.take_left]

theorem consume_of_line (hbytes : f.bytes = line ++ crlf ++ rest) :
    f.consume (line.length + 2) = { f with bytes := rest } := by
  have hdrop : f.bytes.drop (line ++ crlf).length = rest := by
    rw [hbytes, List.drop_left]
  rw [consume, ← hdrop]
  simp [crlf]

/-- A window full of bytes without the end of a line is an error of the peer. -/
theorem readLine_of_long (hno : ¬ crlf <:+: f.bytes.take f.capacity)
    (hlong : f.capacity ≤ f.bytes.length) : f.readLine = .error .protocol f := by
  rw [readLine, lineLength?_eq_none hno, lineError, if_pos hlong]

/-- A stream that ends in a line is reported as it ends. -/
theorem readLine_of_end (hno : ¬ crlf <:+: f.bytes) (hshort : f.bytes.length < f.capacity) :
    f.readLine = .error f.ending.error f := by
  have htake : f.bytes.take f.capacity = f.bytes := List.take_of_length_le (Nat.le_of_lt hshort)
  rw [readLine, lineLength?_eq_none (by rwa [htake]), lineError, if_neg (Nat.not_le_of_lt hshort)]

/-- A line that is cut before its line end is complete is not read: the error is the one for the way
in which the stream ends. -/
theorem readLine_of_cut {k : Nat} (hline : HoldsLine f.capacity line)
    (hbytes : f.bytes = (line ++ crlf ++ rest).take k) (hk : k < line.length + 2) :
    f.readLine = .error f.ending.error f := by
  have hlength := hline.length
  apply readLine_of_end
  · rw [hbytes]
    exact Window.not_crlf_of_cut hline.noEnd rest hk
  · rw [hbytes, List.length_take]
    omega

end Feed

end DeviceHttp
