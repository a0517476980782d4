import DeviceHttp.Proofs.Storage.Table
import Mathlib.Data.Finmap

/-!
# The table as a bounded map

What a user sees of a table of files is a finite map from names to contents with room for so many
files of so many bytes (`BoundedMap`): whatever is asked of a table that starts empty, its answers
are those of the map (`MemoryStore.Represents.answers_eq`). The map knows nothing of the order of the
table, so a listing counts as the collection of its names.
-/

namespace DeviceHttp

/-- A name that a file can have. -/
structure FileName.Storable (name : String) : Prop where
  nonempty : name ≠ ""
  short : name.utf8ByteSize ≤ 32
  no_slash : '/' ∉ name.toList
  no_backslash : '\\' ∉ name.toList
  not_here : name ≠ "."
  not_above : name ≠ ".."

/-- The names that are taken are those that a directory could hold as one of its own, and that are
not too long. -/
theorem FileName.isValid_iff_storable {name : String} :
    FileName.isValid name = true ↔ FileName.Storable name := by
  unfold isValid Utf8.fits capacity
  constructor
  · intro h
    simp only [Bool.and_eq_true, decide_eq_true_eq, Bool.not_eq_true', List.contains_eq_mem,
      decide_eq_false_iff_not] at h
    obtain ⟨⟨⟨⟨⟨nonempty, not_here⟩, not_above⟩, no_slash⟩, no_backslash⟩, short⟩ := h
    exact ⟨nonempty, short, no_slash, no_backslash, not_here, not_above⟩
  · intro h
    simp [h.nonempty, h.short, h.no_slash, h.no_backslash, h.not_here, h.not_above]

instance (name : String) : Decidable (FileName.Storable name) :=
  decidable_of_iff _ FileName.isValid_iff_storable

/-! ## Calls and answers -/

/-- What a user asks of a table of files. -/
inductive TableCall
  | file (call : FileCall)
  /-- Whether there is a file. -/
  | contains (name : String)
  /-- All that is in a file. -/
  | contents (name : String)
  deriving DecidableEq, Repr

/-- The file that a call is about. -/
def FileCall.name? : FileCall → Option String
  | create name | append name _ | read name _ _ | size name | remove name => some name
  | list => none

/-- The file that a call is about. -/
def TableCall.name? : TableCall → Option String
  | file call => call.name?
  | contains name | contents name => some name

/-- What a user is answered. -/
inductive TableAnswer
  | done
  | bytes (bytes : Bytes)
  | length (n : Nat)
  /-- The names of all files, in no order. -/
  | names (names : Multiset String)
  | known (there : Bool)
  | contents (content : Option Bytes)
  | failed (e : StorageError)

/-- The answer that a call gives, and what it leaves. -/
def TableAnswer.of {φ α : Type} (shown : α → TableAnswer) :
    EStateM.Result StorageError φ α → TableAnswer × φ
  | .ok a files => (shown a, files)
  | .error e files => (.failed e, files)

/-- Where a call that fails leaves the files alone, an answer that is a failure does. -/
theorem TableAnswer.of_failed {φ α : Type} {result : EStateM.Result StorageError φ α} {files : φ}
    {e : StorageError} (shown : α → TableAnswer) (hshown : ∀ a, shown a ≠ .failed e)
    (herror : ∀ e' later, result = .error e' later → later = files)
    (h : (of shown result).1 = .failed e) : (of shown result).2 = files := by
  cases result with
  | ok a later => exact absurd h (hshown a)
  | error e' later => exact herror e' later rfl

namespace TableCall

section Runs

variable {σ : Type} (answer : TableCall → σ → TableAnswer × σ)

/-- What a list of calls leaves. -/
def after (calls : List TableCall) (s : σ) : σ :=
  calls.foldl (fun s call => (answer call s).2) s

/-- The answers to a list of calls. -/
def answers : List TableCall → σ → List TableAnswer
  | [], _ => []
  | call :: calls, s => (answer call s).1 :: answers calls (answer call s).2

end Runs

end TableCall

/-- What reads of these rooms bring, each from where the last one ended, up to one that brings
nothing; and whether there was such a one. -/
def FileSystem.readPieces {φ : Type} [FileSystem φ] (name : String) :
    (rooms : List Nat) → (offset : Nat) → FileAction φ (Bytes × Bool)
  | [], _ => pure ([], false)
  | room :: rooms, offset => do
    let piece ← read name offset room
    if piece = [] then pure ([], true)
    else
      let (pieces, ended) ← readPieces name rooms (offset + piece.length)
      pure (piece ++ pieces, ended)

namespace MemoryStore

/-- The answer of a table to a call. -/
def answer : TableCall → MemoryStore → TableAnswer × MemoryStore
  | .file (.create name), m => TableAnswer.of (fun _ => .done) (FileSystem.create name m)
  | .file (.append name bytes), m => TableAnswer.of (fun _ => .done) (FileSystem.append name bytes m)
  | .file (.read name offset room), m => TableAnswer.of .bytes (FileSystem.read name offset room m)
  | .file (.size name), m => TableAnswer.of .length (FileSystem.size name m)
  | .file (.remove name), m => TableAnswer.of (fun _ => .done) (FileSystem.remove name m)
  | .file .list, m => TableAnswer.of (fun names : List String => .names names) (FileSystem.list m)
  | .contains name, m =>
    let (there, m) := FileSystem.contains name m
    (.known there, m)
  | .contents name, m => (.contents (m.contents? name), m)

end MemoryStore

/-- A finite map from names to contents, of at most `maxFiles` files of at most `maxBytes` bytes. -/
structure BoundedMap (maxFiles maxBytes : Nat) where
  files : Finmap fun _ : String => Bytes
  storable : ∀ name ∈ files, FileName.Storable name
  few : files.keys.card ≤ maxFiles
  short : ∀ name content, files.lookup name = some content → content.length ≤ maxBytes

namespace BoundedMap

variable {maxFiles maxBytes : Nat}

/-- The map without files. -/
def empty : BoundedMap maxFiles maxBytes where
  files := ∅
  storable name h := absurd h Finmap.notMem_empty
  few := Nat.zero_le _
  short name content h := by simp at h

/-- The map with a content for a name, if there is room for it. -/
def put (name : String) (content : Bytes) (b : BoundedMap maxFiles maxBytes) :
    TableAnswer × BoundedMap maxFiles maxBytes :=
  if h : FileName.Storable name ∧ (b.files.insert name content).keys.card ≤ maxFiles ∧
      content.length ≤ maxBytes then
    (.done,
      { files := b.files.insert name content
        storable := fun other hother =>
          ((Finmap.mem_insert).1 hother).elim (fun heq => heq ▸ h.1) (b.storable other)
        few := h.2.1
        short := by
          intro other found hfound
          by_cases hother : other = name
          · subst hother
            rw [Finmap.lookup_insert] at hfound
            exact Option.some.inj hfound ▸ h.2.2
          · rw [Finmap.lookup_insert_of_ne _ hother] at hfound
            exact b.short other found hfound })
  else (.failed .noSpace, b)

/-- The map without a name. -/
def erase (name : String) (b : BoundedMap maxFiles maxBytes) : BoundedMap maxFiles maxBytes where
  files := b.files.erase name
  storable other h := b.storable other (Finmap.mem_erase.1 h).2
  few := by
    rw [Finmap.keys_erase]
    exact Nat.le_trans Finset.card_erase_le b.few
  short := by
    intro other content h
    by_cases hother : other = name
    · rw [hother, Finmap.lookup_erase] at h
      cases h
    · rw [Finmap.lookup_erase_ne hother] at h
      exact b.short other content h

/-- The answer of a map to a call. A length is given as a word of 32 bits, and a listing holds at
most 16 names. -/
def answer : TableCall → BoundedMap maxFiles maxBytes → TableAnswer × BoundedMap maxFiles maxBytes
  | .file (.create name), b =>
    if FileName.Storable name then b.put name [] else (.failed .invalidName, b)
  | .file (.append name bytes), b =>
    match b.files.lookup name with
    | none => (.failed .notFound, b)
    | some content => b.put name (content ++ bytes)
  | .file (.read name offset room), b =>
    match b.files.lookup name with
    | none => (.failed .notFound, b)
    | some content => (.bytes ((content.drop offset).take room), b)
  | .file (.size name), b =>
    match b.files.lookup name with
    | none => (.failed .notFound, b)
    | some content => (.length (content.length % 2 ^ 32), b)
  | .file (.remove name), b =>
    if name ∈ b.files then (.done, b.erase name) else (.failed .notFound, b)
  | .file .list, b =>
    if b.files.keys.card ≤ 16 then (.names b.files.keys.val, b) else (.failed .noSpace, b)
  | .contains name, b => (.known (decide (name ∈ b.files)), b)
  | .contents name, b => (.contents (b.files.lookup name), b)

end BoundedMap

namespace MemoryStore

variable {maxFiles maxBytes : Nat} {m later : MemoryStore} {b : BoundedMap maxFiles maxBytes}
  {name : String} {content : Bytes}

/-! ## A table and the map that it is -/

/-- The table has the files of the map, and its limits. -/
structure Represents (m : MemoryStore) (b : BoundedMap maxFiles maxBytes) : Prop where
  sound : m.Sound
  maxFiles_eq : m.maxFiles = maxFiles
  maxBytes_eq : m.maxBytes = maxBytes
  lookup : ∀ name, b.files.lookup name = m.contents? name

/-- The table and the map give one answer, and the table goes on to be the map. -/
def Agree (x : TableAnswer × MemoryStore) (y : TableAnswer × BoundedMap maxFiles maxBytes) : Prop :=
  x.1 = y.1 ∧ Represents x.2 y.2

theorem represents_empty (maxFiles maxBytes : Nat) :
    Represents { maxFiles, maxBytes } (.empty : BoundedMap maxFiles maxBytes) :=
  ⟨sound_empty maxFiles maxBytes, rfl, rfl, fun _ => Finmap.lookup_empty _⟩

/-- A map with the contents of a table has its names, each of them once. -/
theorem keys_eq_names {files : Finmap fun _ : String => Bytes} (hdistinct : m.names.Nodup)
    (hlookup : ∀ name, files.lookup name = m.contents? name) :
    files.keys.val = (m.names : Multiset String) := by
  refine (Multiset.Nodup.ext files.keys.nodup (Multiset.coe_nodup.2 hdistinct)).2 fun name => ?_
  rw [Finset.mem_val, Finmap.mem_keys, ← Finmap.lookup_isSome, hlookup, contents?_isSome_iff,
    Multiset.mem_coe]

theorem card_keys {files : Finmap fun _ : String => Bytes} (hdistinct : m.names.Nodup)
    (hlookup : ∀ name, files.lookup name = m.contents? name) :
    files.keys.card = m.files.length := by
  rw [Finset.card, keys_eq_names hdistinct hlookup, Multiset.coe_card, names, List.length_map]

namespace Represents

theorem mem_iff (h : Represents m b) : name ∈ b.files ↔ (m.contents? name).isSome := by
  rw [← h.lookup, Finmap.lookup_isSome]

/-- Where the table takes a content for a name, the map does, and the table goes on to represent the
map. -/
theorem put (h : Represents m b) (hsound : later.Sound) (hfiles : later.maxFiles = m.maxFiles)
    (hbytes : later.maxBytes = m.maxBytes)
    (hcontents : (fun other => later.contents? other)
      = Function.update (fun other => m.contents? other) name (some content)) :
    Agree (.done, later) (b.put name content) := by
  have hlookup : ∀ other, (b.files.insert name content).lookup other = later.contents? other := by
    intro other
    rw [congrFun hcontents other, Function.update_apply]
    split
    · next hother => rw [hother, Finmap.lookup_insert]
    · next hother => rw [Finmap.lookup_insert_of_ne _ hother, h.lookup]
  have hname : later.contents? name = some content := by
    rw [← hlookup, Finmap.lookup_insert]
  have hallowed : FileName.Storable name ∧ (b.files.insert name content).keys.card ≤ maxFiles ∧
      content.length ≤ maxBytes := by
    refine ⟨FileName.isValid_iff_storable.1 (hsound.isValid hname), ?_, ?_⟩
    · rw [card_keys hsound.distinct hlookup, ← h.maxFiles_eq, ← hfiles]
      exact hsound.few
    · rw [← h.maxBytes_eq, ← hbytes]
      exact hsound.short _ ((lookup_eq_some_iff_mem hsound.distinct).1 hname)
  unfold BoundedMap.put
  rw [dif_pos hallowed]
  exact ⟨rfl, hsound, hfiles.trans h.maxFiles_eq, hbytes.trans h.maxBytes_eq, hlookup⟩

/-- A map that is full takes no new name. -/
theorem put_of_full (h : Represents m b) (hname : m.contents? name = none)
    (hfull : m.maxFiles ≤ m.files.length) : b.put name content = (.failed .noSpace, b) := by
  have hnew : name ∉ b.files.keys := by
    rw [Finmap.mem_keys, h.mem_iff, hname]
    exact Bool.false_ne_true
  have hkeys : (b.files.insert name content).keys = insert name b.files.keys := by
    ext other
    rw [Finmap.mem_keys, Finmap.mem_insert, Finset.mem_insert, Finmap.mem_keys]
  have hcard : (b.files.insert name content).keys.card = m.files.length + 1 := by
    rw [hkeys, Finset.card_insert_of_notMem hnew, card_keys h.sound.distinct h.lookup]
  have hlimit := h.maxFiles_eq
  unfold BoundedMap.put
  rw [dif_neg]
  omega

/-- A file does not grow past its limit. -/
theorem put_of_long (h : Represents m b) (hlong : m.maxBytes < content.length) :
    b.put name content = (.failed .noSpace, b) := by
  have hlimit := h.maxBytes_eq
  unfold BoundedMap.put
  rw [dif_neg]
  omega

/-! ## One call -/

/-- A file that is created is empty in the table and in the map, and there is no room for it in both
or in neither. -/
theorem create (h : Represents m b) (name : String) :
    Agree (m.answer (.file (.create name))) (b.answer (.file (.create name))) := by
  have hm : m.answer (.file (.create name))
      = TableAnswer.of (fun _ => .done) (MemoryStore.create name m) := rfl
  rw [hm, MemoryStore.create, BoundedMap.answer]
  by_cases hvalid : FileName.Storable name
  · have hisValid := FileName.isValid_iff_storable.2 hvalid
    rw [if_pos hvalid, if_neg (by simp [hisValid])]
    split
    · next hname =>
      have hsound : (m.setContents name []).Sound := h.sound.setContents (Nat.zero_le _)
      exact h.put hsound rfl rfl (contents?_setContents hname)
    · next hname =>
      have hnone : m.contents? name = none := by simpa using hname
      split
      · next hroom =>
        exact h.put (h.sound.append hnone hisValid hroom) rfl rfl (contents?_append hnone)
      · next hfull =>
        rw [h.put_of_full hnone (Nat.le_of_not_lt hfull)]
        exact ⟨rfl, h⟩
  · have hisValid : FileName.isValid name = false := by
      rw [← Bool.not_eq_true, FileName.isValid_iff_storable]
      exact hvalid
    rw [if_neg hvalid, if_pos hisValid]
    exact ⟨rfl, h⟩

/-- What is added to a file is added in the map, if the file is there and has room for all of it;
otherwise nothing is. -/
theorem append (h : Represents m b) (name : String) (bytes : Bytes) :
    Agree (m.answer (.file (.append name bytes))) (b.answer (.file (.append name bytes))) := by
  have hm : m.answer (.file (.append name bytes))
      = TableAnswer.of (fun _ => .done) (MemoryStore.append name bytes m) := rfl
  rw [hm, MemoryStore.append, BoundedMap.answer, h.lookup]
  cases hname : m.contents? name with
  | none => exact ⟨rfl, h⟩
  | some content =>
    dsimp only
    split
    · next hroom =>
      have hshort : (content ++ bytes).length ≤ m.maxBytes := by simpa using hroom
      exact h.put (h.sound.setContents hshort) rfl rfl
        (contents?_setContents (by rw [hname]; rfl))
    · next hlong =>
      rw [h.put_of_long (by rw [List.length_append]; omega)]
      exact ⟨rfl, h⟩

/-- A file that is removed is gone from both, and the others are where a map has them. -/
theorem remove (h : Represents m b) (name : String) :
    Agree (m.answer (.file (.remove name))) (b.answer (.file (.remove name))) := by
  have hm : m.answer (.file (.remove name))
      = TableAnswer.of (fun _ => .done) (MemoryStore.remove name m) := rfl
  rw [hm, MemoryStore.remove, BoundedMap.answer]
  by_cases hname : (m.contents? name).isSome
  · rw [if_pos hname, if_pos (h.mem_iff.2 hname)]
    refine ⟨rfl, h.sound.swapRemove name, h.maxFiles_eq, h.maxBytes_eq, fun other => ?_⟩
    show (b.files.erase name).lookup other
      = ({ m with files := swapRemove name m.files } : MemoryStore).contents? other
    rw [congrFun (contents?_swapRemove h.sound) other, Function.update_apply]
    split
    · next hother => rw [hother, Finmap.lookup_erase]
    · next hother => rw [Finmap.lookup_erase_ne hother, h.lookup]
  · rw [if_neg hname, if_neg (mt h.mem_iff.1 hname)]
    exact ⟨rfl, h⟩

/-- The names of a table are those of the map, each of them once; too many of them are refused by
both. -/
theorem list (h : Represents m b) :
    Agree (m.answer (.file .list)) (b.answer (.file .list)) := by
  have hm : m.answer (.file .list)
      = TableAnswer.of (fun names : List String => .names names) (MemoryStore.list m) := rfl
  rw [hm, MemoryStore.list, FileSystem.maxListed, BoundedMap.answer,
    card_keys h.sound.distinct h.lookup, keys_eq_names h.sound.distinct h.lookup]
  by_cases hfew : m.files.length ≤ 16
  · rw [if_pos hfew, if_pos hfew]
    exact ⟨rfl, h⟩
  · rw [if_neg hfew, if_neg hfew]
    exact ⟨rfl, h⟩

/-- A table answers as the map that it is, and goes on to be the map. There is one case for each
call. -/
theorem answer (h : Represents m b) (call : TableCall) :
    Agree (m.answer call) (b.answer call) := by
  have hsize (name : String) : FileSystem.size name m = MemoryStore.size name m := rfl
  rcases call with (name | ⟨name, bytes⟩ | ⟨name, offset, room⟩ | name | name | _) | name | name
  case file.create => exact h.create name
  case file.append => exact h.append name bytes
  case file.read =>
    have hm : m.answer (.file (.read name offset room))
        = TableAnswer.of .bytes (MemoryStore.read name offset room m) := rfl
    rw [hm, MemoryStore.read, BoundedMap.answer, h.lookup]
    cases m.contents? name <;> exact ⟨rfl, h⟩
  case file.size =>
    rw [MemoryStore.answer, hsize, MemoryStore.size, BoundedMap.answer, h.lookup]
    cases m.contents? name <;> exact ⟨rfl, h⟩
  case file.remove => exact h.remove name
  case file.list => exact h.list
  case contains =>
    rw [MemoryStore.answer, FileSystem.contains, hsize, MemoryStore.size, BoundedMap.answer]
    cases hname : m.contents? name with
    | none =>
      have hno : name ∉ b.files := by
        rw [h.mem_iff, hname]
        exact Bool.false_ne_true
      exact ⟨by simp [hno], h⟩
    | some content =>
      have hyes : name ∈ b.files := by
        rw [h.mem_iff, hname]
        rfl
      exact ⟨by simp [hyes], h⟩
  case contents =>
    rw [MemoryStore.answer, BoundedMap.answer, h.lookup]
    exact ⟨rfl, h⟩

/-! ## Many calls -/

/-- A table and its map answer every list of calls alike. The induction is over the calls, and each
answer leaves a table and a map that belong together. -/
theorem answers_eq (h : Represents m b) (calls : List TableCall) :
    TableCall.answers MemoryStore.answer calls m = TableCall.answers BoundedMap.answer calls b ∧
      Represents (TableCall.after MemoryStore.answer calls m)
        (TableCall.after BoundedMap.answer calls b) := by
  induction calls generalizing m b with
  | nil => exact ⟨rfl, h⟩
  | cons call calls ih =>
    obtain ⟨hanswer, hnext⟩ := h.answer call
    obtain ⟨hanswers, hafter⟩ := ih hnext
    refine ⟨?_, hafter⟩
    rw [TableCall.answers, TableCall.answers, hanswer, hanswers]

end Represents

/-! ## What else a table can be relied on for -/

/-- A call that fails leaves the table as it was, so a caller need not look what became of it. -/
theorem answer_failed {call : TableCall} {e : StorageError} (h : (m.answer call).1 = .failed e) :
    (m.answer call).2 = m := by
  rcases call with (name | ⟨name, bytes⟩ | ⟨name, offset, room⟩ | name | name | _) | name | name
  case file.create =>
    refine TableAnswer.of_failed (fun _ => .done) (by simp) (fun e' later herror => ?_) h
    change MemoryStore.create name m = _ at herror
    unfold MemoryStore.create at herror
    split at herror
    · cases herror; rfl
    · split at herror
      · cases herror
      · split at herror
        · cases herror
        · cases herror; rfl
  case file.append =>
    refine TableAnswer.of_failed (fun _ => .done) (by simp) (fun e' later herror => ?_) h
    change MemoryStore.append name bytes m = _ at herror
    rw [MemoryStore.append] at herror
    cases hname : m.contents? name with
    | none => rw [hname] at herror; cases herror; rfl
    | some content =>
      rw [hname] at herror
      dsimp only at herror
      split at herror
      · cases herror
      · cases herror; rfl
  case file.read =>
    refine TableAnswer.of_failed .bytes (by simp) (fun e' later herror => ?_) h
    change MemoryStore.read name offset room m = _ at herror
    rw [MemoryStore.read] at herror
    cases hname : m.contents? name with
    | none => rw [hname] at herror; cases herror; rfl
    | some content => rw [hname] at herror; cases herror
  case file.size =>
    refine TableAnswer.of_failed .length (by simp) (fun e' later herror => ?_) h
    change MemoryStore.size name m = _ at herror
    rw [MemoryStore.size] at herror
    cases hname : m.contents? name with
    | none => rw [hname] at herror; cases herror; rfl
    | some content => rw [hname] at herror; cases herror
  case file.remove =>
    refine TableAnswer.of_failed (fun _ => .done) (by simp) (fun e' later herror => ?_) h
    change MemoryStore.remove name m = _ at herror
    unfold MemoryStore.remove at herror
    split at herror
    · cases herror
    · cases herror; rfl
  case file.list =>
    refine TableAnswer.of_failed (fun names : List String => .names names) (by simp)
      (fun e' later herror => ?_) h
    change MemoryStore.list m = _ at herror
    unfold MemoryStore.list at herror
    split at herror
    · cases herror
    · cases herror; rfl
  case contains =>
    rw [answer] at h
    cases h
  case contents => rfl

/-- A call that keeps the map, but for a change of its own file, keeps the other files. -/
theorem contents?_of_keeps {α : Type} {shown : α → TableAnswer} {after : α → Contents → Prop}
    {result : EStateM.Result StorageError MemoryStore α} {other : String}
    (h : FileAction.Keeps Sound (fun m name => m.contents? name) (fun name => m.contents? name)
      after result)
    (hafter : ∀ a files, after a files → files other = m.contents? other) :
    (TableAnswer.of shown result).2.contents? other = m.contents? other := by
  cases h with
  | ok sound done => exact hafter _ _ done
  | error sound same => exact congrFun same other

/-- A call changes no file but the one that it is about, although a removal moves another one in the
table. -/
theorem contents?_answer (hsound : m.Sound) {call : TableCall} {other : String}
    (hother : call.name? ≠ some other) :
    (m.answer call).2.contents? other = m.contents? other := by
  have hne {name : String} (h : some name ≠ some other) : other ≠ name := fun heq => h (heq ▸ rfl)
  rcases call with (name | ⟨name, bytes⟩ | ⟨name, offset, room⟩ | name | name | _) | name | name
  case file.create =>
    refine contents?_of_keeps (FileMap.create name hsound) fun _ files done => ?_
    rw [done, Function.update_of_ne (hne hother)]
    rfl
  case file.append =>
    refine contents?_of_keeps (FileMap.append name bytes hsound) fun _ files done => ?_
    obtain ⟨content, -, rfl⟩ := done
    rw [Function.update_of_ne (hne hother)]
    rfl
  case file.read =>
    exact contents?_of_keeps (FileMap.read name offset room hsound) fun _ files done =>
      congrFun done.1 other
  case file.size =>
    exact contents?_of_keeps (FileMap.size name hsound) fun _ files done => congrFun done.1 other
  case file.remove =>
    refine contents?_of_keeps (FileMap.remove name hsound) fun _ files done => ?_
    rw [done, Function.update_of_ne (hne hother)]
    rfl
  case file.list =>
    exact contents?_of_keeps (FileMap.list hsound) fun _ files done => congrFun done.1 other
  case contains =>
    have hsize : (TableAnswer.of .length (FileSystem.size name m)).2.contents? other
        = m.contents? other :=
      contents?_of_keeps (FileMap.size name hsound) fun _ files done => congrFun done.1 other
    rw [answer, FileSystem.contains]
    generalize FileSystem.size name m = result at hsize
    cases result <;> exact hsize
  case contents => rfl

/-- Reads of positive rooms bring a file from an offset on, as far as they go. With more of them
than there are bytes left they come to its end. -/
theorem readPieces_eq {rooms : List Nat} (offset : Nat) (hname : m.contents? name = some content)
    (hrooms : ∀ room ∈ rooms, 0 < room) :
    ∃ bytes ended, FileSystem.readPieces name rooms offset m = .ok (bytes, ended) m ∧
      bytes <+: content.drop offset ∧ (ended = true → bytes = content.drop offset) ∧
      (content.length - offset < rooms.length → ended = true) := by
  induction rooms generalizing offset with
  | nil => exact ⟨[], false, rfl, List.nil_prefix, nofun, fun h => absurd h (Nat.not_lt_zero _)⟩
  | cons room rooms ih =>
    obtain ⟨hroom, hrooms⟩ := List.forall_mem_cons.1 hrooms
    have hread : FileSystem.read name offset room m = .ok ((content.drop offset).take room) m := by
      show MemoryStore.read name offset room m = _
      rw [MemoryStore.read, hname]
    have hpiece := List.take_prefix room (content.drop offset)
    rw [FileSystem.readPieces]
    simp only [bind, EStateM.bind, hread]
    by_cases hnone : (content.drop offset).take room = []
    · have hdrop : content.drop offset = [] := by
        rcases List.take_eq_nil_iff.1 hnone with hzero | hdrop
        · omega
        · exact hdrop
      rw [if_pos hnone, hdrop]
      exact ⟨[], true, rfl, List.nil_prefix, fun _ => rfl, fun _ => rfl⟩
    · generalize (content.drop offset).take room = piece at hnone hpiece ⊢
      have hpos : 0 < piece.length := List.length_pos_iff.2 hnone
      -- what is left of the file is the piece, and what stands behind it
      have hrest : piece ++ content.drop (offset + piece.length) = content.drop offset := by
        rw [← List.drop_drop]
        exact List.prefix_iff_eq_append.1 hpiece
      obtain ⟨pieces, ended, hpieces, hprefix, hwhole, hend⟩ :=
        ih (offset + piece.length) hrooms
      rw [if_neg hnone]
      simp only [EStateM.bind, hpieces]
      refine ⟨piece ++ pieces, ended, rfl, ?_, fun h => ?_, fun h => hend ?_⟩
      · rw [← hrest]
        exact (List.prefix_append_right_inj piece).2 hprefix
      · rw [hwhole h, hrest]
      · have hle := hpiece.length_le
        rw [List.length_drop] at hle
        rw [List.length_cons] at h
        omega

/-- What a user may rely on at a table of at most `maxFiles` files of at most `maxBytes` bytes. -/
structure Dependable (maxFiles maxBytes : Nat) (m : MemoryStore) : Prop where
  distinct : m.names.Nodup
  storable : ∀ name ∈ m.names, FileName.Storable name
  few : m.names.length ≤ maxFiles
  short : ∀ name content, m.contents? name = some content → content.length ≤ maxBytes
  /-- A call that fails changes nothing. -/
  failed : ∀ call e, (m.answer call).1 = .failed e → (m.answer call).2 = m
  /-- A call leaves the files alone that it is not about. -/
  others : ∀ call other, call.name? ≠ some other →
    (m.answer call).2.contents? other = m.contents? other
  listed : m.names.length ≤ 16 → ∃ names, FileSystem.list m = .ok names m ∧ names.Nodup ∧
    ∀ name, name ∈ names ↔ (m.contents? name).isSome
  unlisted : 16 < m.names.length → FileSystem.list m = .error .noSpace m
  /-- The size of a file is its length, where a word of 32 bits holds it. -/
  sized : ∀ name content, m.contents? name = some content → content.length < 2 ^ 32 →
    FileSystem.size name m = .ok content.length m
  /-- Reads that follow each other until one brings nothing bring the file, and there is such a
  one. -/
  read : ∀ name content rooms, m.contents? name = some content → (∀ room ∈ rooms, 0 < room) →
    ∃ bytes ended, FileSystem.readPieces name rooms 0 m = .ok (bytes, ended) m ∧
      (ended = true → bytes = content) ∧ (content.length < rooms.length → ended = true)

/-- What holds of a bounded map can be relied on at a table that represents one. -/
theorem Represents.dependable (h : Represents m b) : Dependable maxFiles maxBytes m where
  distinct := h.sound.distinct
  storable name hname := FileName.isValid_iff_storable.1 (h.sound.valid name hname)
  few := by
    rw [names, List.length_map, ← h.maxFiles_eq]
    exact h.sound.few
  short name content hname := b.short name content ((h.lookup name).trans hname)
  failed _ _ := answer_failed
  others _ _ := contents?_answer h.sound
  listed hfew := by
    rw [names, List.length_map] at hfew
    exact ⟨m.names, if_pos hfew, h.sound.distinct, fun name => contents?_isSome_iff.symm⟩
  unlisted hmany := by
    rw [names, List.length_map] at hmany
    exact if_neg (Nat.not_le_of_lt hmany)
  sized name content hname hword := by
    show MemoryStore.size name m = _
    rw [MemoryStore.size, hname]
    exact congrArg (fun n => EStateM.Result.ok n m) (Nat.mod_eq_of_lt hword)
  read name content rooms hname hrooms := by
    obtain ⟨bytes, ended, hread, -, hwhole, hend⟩ := readPieces_eq 0 hname hrooms
    exact ⟨bytes, ended, hread, hwhole, hend⟩

/-- Whatever is asked of a table that starts without files, its answers are those of a map of at
most `maxFiles` files of at most `maxBytes` bytes, and it has the files of that map. A length is
answered as a word of 32 bits, by the map as by the table (`BoundedMap.answer`): a file of `2 ^ 32`
bytes or more is measured modulo `2 ^ 32`, and `Dependable.sized` is about the shorter ones. -/
theorem refines_boundedMap (maxFiles maxBytes : Nat) (calls : List TableCall) :
    TableCall.answers MemoryStore.answer calls { maxFiles, maxBytes }
        = TableCall.answers BoundedMap.answer calls
          (BoundedMap.empty : BoundedMap maxFiles maxBytes) ∧
      (∀ name, (TableCall.after MemoryStore.answer calls { maxFiles, maxBytes }).contents? name
        = (TableCall.after BoundedMap.answer calls
          (BoundedMap.empty : BoundedMap maxFiles maxBytes)).files.lookup name) ∧
      Dependable maxFiles maxBytes
        (TableCall.after MemoryStore.answer calls { maxFiles, maxBytes }) := by
  obtain ⟨hanswers, hafter⟩ := (represents_empty maxFiles maxBytes).answers_eq calls
  exact ⟨hanswers, fun name => (hafter.lookup name).symm, hafter.dependable⟩

end MemoryStore

end DeviceHttp
