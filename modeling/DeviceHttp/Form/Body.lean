import DeviceHttp.Form.Encoding

/-!
# A form as a request body

The pairs of a form are encoded while they are read, one pair at a time, so the whole encoding is
never held. `FormBody.remaining` is what is left of it; a read takes a front part of that
(`read_fst`) and nothing else (`remaining_read`).
-/

namespace DeviceHttp

/-- A form on its way out. -/
structure FormBody where
  pairs : List Form.Pair
  /-- The part of the current pair that was encoded and not yet read. -/
  ready : Bytes
  /-- The pairs after the current one. -/
  later : List Form.Pair
  deriving DecidableEq, Repr

namespace FormBody

/-- A form from its start. -/
def ofPairs : List Form.Pair → FormBody
  | [] => ⟨[], [], []⟩
  | p :: ps => ⟨p :: ps, Form.encodePair p, ps⟩

/-- The same form from its start. -/
def reset (b : FormBody) : FormBody :=
  ofPairs b.pairs

/-- The length of the whole body. -/
def length (b : FormBody) : Nat :=
  Form.encodedLength b.pairs

/-- What is still to be read. -/
def remaining (b : FormBody) : Bytes :=
  b.ready ++ b.later.flatMap fun p => Form.ampersand :: Form.encodePair p

/-- The first `room` bytes of the encoding of `ready` and the pairs `later`, and what stays. -/
def take (room : Nat) (ready : Bytes) : List Form.Pair → Bytes × Bytes × List Form.Pair
  | [] => (ready.take room, ready.drop room, [])
  | p :: ps =>
    if room ≤ ready.length then (ready.take room, ready.drop room, p :: ps)
    else
      let (bytes, ready', later) :=
        take (room - ready.length) (Form.ampersand :: Form.encodePair p) ps
      (ready ++ bytes, ready', later)

/-- Read at most `room` bytes. -/
def read (room : Nat) (b : FormBody) : Bytes × FormBody :=
  let (bytes, ready, later) := take room b.ready b.later
  (bytes, { b with ready, later })

theorem take_eq (room : Nat) (ready : Bytes) (later : List Form.Pair) :
    let whole := ready ++ later.flatMap fun p => Form.ampersand :: Form.encodePair p
    let (bytes, ready', later') := take room ready later
    bytes = whole.take room ∧
      ready' ++ (later'.flatMap fun p => Form.ampersand :: Form.encodePair p) = whole.drop room := by
  induction later generalizing room ready with
  | nil => simp [take]
  | cons p ps ih =>
    by_cases h : room ≤ ready.length
    · simp [take, h, List.take_append_of_le_length, List.drop_append_of_le_length]
    · have hle : ready.length ≤ room := by omega
      have := ih (room - ready.length) (Form.ampersand :: Form.encodePair p)
      simp only [take, h, if_false]
      simp only [List.flatMap_cons] at this ⊢
      simp only [this, List.take_append, List.drop_append, List.take_of_length_le hle,
        List.drop_of_length_le hle, List.nil_append, and_self]

/-- A read takes the first bytes of what remains. -/
theorem read_fst (room : Nat) (b : FormBody) : (b.read room).1 = b.remaining.take room :=
  (take_eq room b.ready b.later).1

/-- A read leaves the rest of what remained. -/
theorem remaining_read (room : Nat) (b : FormBody) :
    (b.read room).2.remaining = b.remaining.drop room :=
  (take_eq room b.ready b.later).2

@[simp] theorem pairs_read (room : Nat) (b : FormBody) : (b.read room).2.pairs = b.pairs := rfl

@[simp] theorem remaining_ofPairs (ps : List Form.Pair) :
    (ofPairs ps).remaining = Form.encode ps := by
  cases ps <;> rfl

end FormBody

end DeviceHttp
