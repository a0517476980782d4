import DeviceHttp.Proofs.Storage.BoundedMap
import DeviceHttp.Storage.Directory

/-!
# Memory in place of a directory

Files in memory and files in a directory of a host are asked the same questions
(`FileQuery.answer`). A directory that no one else touches mirrors a table of files in memory
(`Directory.Mirrors`): it has the same names with the same contents, in an order of its own. While
there is room in memory, every call answers the same on both sides and leaves them mirrored, so that
what runs on one of them runs on the other (`Directory.interchangeable`). Only the length of a file
that a word of 32 bits cannot count tells them apart (`Directory.distinguishable_by_long_file`).
-/

namespace DeviceHttp

/-! ## Questions to a file system -/

/-- What can be asked of any file system. -/
inductive FileQuery
  | call (call : FileCall)
  /-- Whether there is a file. -/
  | contains (name : String)
  deriving DecidableEq, Repr

namespace FileQuery

/-- The file that a query is about. -/
def name? : FileQuery → Option String
  | call c => c.name?
  | contains name => some name

/-- Whether a query adds to the files: it makes one, or makes one longer. -/
def isAddition : FileQuery → Bool
  | call (.create _) | call (.append ..) => true
  | _ => false

/-- The file whose length a query looks at. -/
def measured? : FileQuery → Option String
  | call (.size name) | contains name => some name
  | _ => none

section Answers

variable {φ : Type} [FileSystem φ]

/-- The answer of a file system to a query. -/
def answer : FileQuery → φ → TableAnswer × φ
  | call (.create name), files => TableAnswer.of (fun _ => .done) (FileSystem.create name files)
  | call (.append name bytes), files =>
    TableAnswer.of (fun _ => .done) (FileSystem.append name bytes files)
  | call (.read name offset room), files =>
    TableAnswer.of .bytes (FileSystem.read name offset room files)
  | call (.size name), files => TableAnswer.of .length (FileSystem.size name files)
  | call (.remove name), files => TableAnswer.of (fun _ => .done) (FileSystem.remove name files)
  | call .list, files =>
    TableAnswer.of (fun names : List String => .names names) (FileSystem.list files)
  | contains name, files =>
    let (there, files) := FileSystem.contains name files
    (.known there, files)

/-- What a list of queries leaves. -/
def after (queries : List FileQuery) (files : φ) : φ :=
  queries.foldl (fun files query => (answer query files).2) files

/-- The answers to a list of queries. -/
def answers : List FileQuery → φ → List TableAnswer
  | [], _ => []
  | query :: queries, files => (answer query files).1 :: answers queries (answer query files).2

theorem answers_cons {query : FileQuery} {queries : List FileQuery} {files later : φ}
    {x : TableAnswer} (h : answer query files = (x, later)) :
    answers (query :: queries) files = x :: answers queries later := by
  rw [answers, h]

theorem answer_contains_of_ok {name : String} {files later : φ} {n : Nat}
    (h : FileSystem.size name files = .ok n later) :
    answer (.contains name) files = (.known true, later) := by
  rw [answer, FileSystem.contains, h]

theorem answer_contains_of_error {name : String} {files later : φ} {e : StorageError}
    (h : FileSystem.size name files = .error e later) :
    answer (.contains name) files = (.known false, later) := by
  rw [answer, FileSystem.contains, h]

/-- Two file systems answer a list of queries alike if they answer each query of it alike. -/
theorem answers_eq {ψ : Type} [FileSystem ψ] {queries : List FileQuery} {files : φ} {files' : ψ}
    (h : ∀ before query rest, queries = before ++ query :: rest →
      (answer query (after before files)).1 = (answer query (after before files')).1) :
    answers queries files = answers queries files' := by
  induction queries generalizing files files' with
  | nil => rfl
  | cons first queries ih =>
    have hrest : answers queries (answer first files).2 = answers queries (answer first files').2 :=
      ih fun before query rest hsplit => h (first :: before) query rest (congrArg _ hsplit)
    have hfirst : (answer first files).1 = (answer first files').1 := h [] first queries rfl
    rw [answers, answers, hfirst, hrest]

end Answers

end FileQuery

deriving instance DecidableEq for TableAnswer

/-- A name that memory and every host take. -/
def FileName.Portable (name : String) : Prop :=
  FileName.Storable name ∧ '\x00' ∉ name.toList

instance (name : String) : Decidable (FileName.Portable name) :=
  inferInstanceAs (Decidable (_ ∧ _))

/-! ## The nodes of a directory -/

namespace Directory

variable {nodes : List (String × Node)} {name other : String} {node : Node}

/-- The nodes are in the order of their names, and no name stands twice. -/
def Sorted (nodes : List (String × Node)) : Prop :=
  nodes.Pairwise fun x y => x.1 < y.1

theorem Sorted.nodup (h : Sorted nodes) : (nodes.map Prod.fst).Nodup :=
  List.pairwise_map.2 (h.imp fun hlt => String.ne_of_lt hlt)

theorem lookup_cons {entry : String × Node} :
    (entry :: nodes).lookup other
      = if other = entry.1 then some entry.2 else nodes.lookup other := by
  rw [List.lookup_cons]
  by_cases hother : other = entry.1
  · rw [if_pos hother, beq_iff_eq.2 hother]
  · rw [if_neg hother, beq_false_of_ne hother]

/-- Under its name an entry that is put into a directory is found, and under every other name what
was found before. -/
theorem lookup_insert : (insert name node nodes).lookup other
    = if other = name then some node else nodes.lookup other := by
  induction nodes with
  | nil => rw [insert, lookup_cons]
  | cons entry nodes ih =>
    rw [insert]
    split
    · next heq =>
      rw [lookup_cons, lookup_cons, heq]
      split <;> rfl
    · next hne =>
      split
      · rw [lookup_cons]
      · rw [lookup_cons, lookup_cons, ih]
        by_cases hother : other = name
        · rw [if_pos hother, if_pos hother, if_neg fun heq => hne (heq.symm.trans hother)]
        · rw [if_neg hother, if_neg hother]

/-- A directory has no entries but the new one and those from before. -/
theorem mem_insert {entry : String × Node} (h : entry ∈ insert name node nodes) :
    entry = (name, node) ∨ entry ∈ nodes := by
  induction nodes with
  | nil => exact .inl (List.mem_singleton.1 h)
  | cons first nodes ih =>
    rw [insert] at h
    split at h
    · exact (List.mem_cons.1 h).imp_right (List.mem_cons_of_mem first)
    · split at h
      · exact List.mem_cons.1 h
      · rcases List.mem_cons.1 h with rfl | h
        · exact .inr List.mem_cons_self
        · exact (ih h).imp_right (List.mem_cons_of_mem first)

/-- An entry is put where its name belongs, and takes the place of one of that name. So the names
stay in order, each of them once. -/
theorem Sorted.insert (h : Sorted nodes) : Sorted (insert name node nodes) := by
  induction nodes with
  | nil => exact List.pairwise_singleton _ _
  | cons entry nodes ih =>
    obtain ⟨hfirst, hrest⟩ := List.pairwise_cons.1 h
    rw [Directory.insert]
    split
    · next heq =>
      subst heq
      exact List.pairwise_cons.2 ⟨hfirst, hrest⟩
    · next hne =>
      split
      · next hlt =>
        refine List.pairwise_cons.2 ⟨fun later hlater => ?_, h⟩
        rcases List.mem_cons.1 hlater with rfl | hlater
        · exact hlt
        · exact String.lt_trans hlt (hfirst later hlater)
      · next hge =>
        have hbefore : entry.1 < name := by
          rcases String.le_total entry.1 name with hle | hle
          · exact Decidable.byContradiction fun hnot =>
              hne (String.le_antisymm hle (String.not_lt.1 hnot))
          · exact absurd (String.le_antisymm (String.not_lt.1 hge) hle) hne
        refine List.pairwise_cons.2 ⟨fun later hlater => ?_, ih hrest⟩
        rcases mem_insert hlater with rfl | hlater
        · exact hbefore
        · exact hfirst later hlater

/-- A host looks for a file with a portable name in its directory. -/
theorem resolve_folder (h : FileName.Portable name) (refusal : StorageError) :
    resolve refusal name (folder nodes) = .ok (nodes, nodes.lookup name) := by
  have hvalid : FileName.isValid name = true := FileName.isValid_iff_storable.2 h.1
  have hnul : name.toList.contains '\x00' = false := by simpa using h.2
  rw [resolve, hvalid, hnul]
  rfl

/-! ## A directory that mirrors a table -/

open FileQuery (answer answers after answers_cons)
open MemoryStore (swapRemove lookup_eq_some_iff_mem lookup_filter_ne isSome_lookup_iff
  contents?_isSome_iff contents?_setContents contents?_append contents?_swapRemove)

variable {maxBytes : Nat} {m later : MemoryStore} {content : Bytes} {query : FileQuery}

/-- A directory has the files of a table of files of at most so many bytes, under their names and in
its own order, and nothing else. -/
structure Mirrors (maxBytes : Nat) (nodes : List (String × Node)) (m : MemoryStore) : Prop where
  sound : m.Sound
  maxBytes_eq : m.maxBytes = maxBytes
  sorted : Sorted nodes
  lookup : ∀ name, nodes.lookup name = (m.contents? name).map Node.file

/-- A directory that is there and mirrors a table. -/
def IsMirror (maxBytes : Nat) (d : Directory) (m : MemoryStore) : Prop :=
  ∃ nodes, d = folder nodes ∧ Mirrors maxBytes nodes m

/-- A query looks at no length that a word of 32 bits does not hold. -/
def Measurable (query : FileQuery) (m : MemoryStore) : Prop :=
  ∀ name content, query.measured? = some name → m.contents? name = some content →
    content.length < 2 ^ 32

theorem measurable_of_missing (hmeasured : query.measured? = some name)
    (hnone : m.contents? name = none) : Measurable query m := by
  intro name' content hname hcontent
  obtain rfl : name = name' := Option.some.inj (hmeasured.symm.trans hname)
  cases hnone.symm.trans hcontent

theorem measurable_iff (hmeasured : query.measured? = some name)
    (hcontent : m.contents? name = some content) :
    Measurable query m ↔ content.length < 2 ^ 32 := by
  refine ⟨fun h => h name content hmeasured hcontent, fun hword name' content' hname hcontent' => ?_⟩
  obtain rfl : name = name' := Option.some.inj (hmeasured.symm.trans hname)
  obtain rfl : content = content' := Option.some.inj (hcontent.symm.trans hcontent')
  exact hword

/-- What a directory answers to a query for a length that a word of 32 bits does not hold. -/
def Declines (query : FileQuery) (x : TableAnswer) : Prop :=
  (∀ name, query = .call (.size name) → x = .failed .outOfBounds) ∧
    ∀ name, query = .contains name → x = .known false

/-- The table and the directory answer a query alike, lengths past a word apart, which the directory
declines, and stay mirrored. -/
structure Matches (maxBytes : Nat) (query : FileQuery) (m : MemoryStore) (d : Directory) :
    Prop where
  same : Measurable query m → (answer query m).1 = (answer query d).1
  declined : ¬Measurable query m → Declines query (answer query d).1
  mirror : IsMirror maxBytes (answer query d).2 (answer query m).2

section Matches

variable {d : Directory} {nodes' : List (String × Node)} {x : TableAnswer}

theorem Matches.of_measurable (hmeasurable : Measurable query m)
    (hm : answer query m = (x, later)) (hd : answer query d = (x, folder nodes'))
    (hmirrors : Mirrors maxBytes nodes' later) : Matches maxBytes query m d := by
  refine ⟨fun _ => ?_, fun hlong => absurd hmeasurable hlong, ?_⟩
  · rw [hm, hd]
  · rw [hm, hd]
    exact ⟨nodes', rfl, hmirrors⟩

/-- A query that looks at no length is answered alike whatever the lengths are. -/
theorem Matches.of_same (hnone : query.measured? = none) (hm : answer query m = (x, later))
    (hd : answer query d = (x, folder nodes')) (hmirrors : Mirrors maxBytes nodes' later) :
    Matches maxBytes query m d :=
  .of_measurable (fun name _ hname => by cases hnone.symm.trans hname) hm hd hmirrors

/-- Past a word the two sides part, and the files are what they were. -/
theorem Matches.of_long {y : TableAnswer} (hlong : ¬Measurable query m)
    (hm : answer query m = (x, m)) (hd : answer query d = (y, folder nodes'))
    (hdeclines : Declines query y) (hmirrors : Mirrors maxBytes nodes' m) :
    Matches maxBytes query m d := by
  refine ⟨fun hmeasurable => absurd hmeasurable hlong, fun _ => ?_, ?_⟩
  · rwa [hd]
  · rw [hm, hd]
    exact ⟨nodes', rfl, hmirrors⟩

end Matches

namespace Mirrors

theorem empty (maxFiles maxBytes : Nat) : Mirrors maxBytes [] { maxFiles, maxBytes } :=
  ⟨MemoryStore.sound_empty maxFiles maxBytes, rfl, List.Pairwise.nil, fun _ => rfl⟩

/-- Every node is a file of the table. -/
theorem mem (h : Mirrors maxBytes nodes m) {entry : String × Node} (hentry : entry ∈ nodes) :
    ∃ content, entry.2 = .file content ∧ m.contents? entry.1 = some content := by
  have hfound : nodes.lookup entry.1 = some entry.2 :=
    (lookup_eq_some_iff_mem h.sorted.nodup).2 hentry
  rw [h.lookup, Option.map_eq_some_iff] at hfound
  obtain ⟨content, hcontent, hnode⟩ := hfound
  exact ⟨content, hnode.symm, hcontent⟩

/-- A listing of the directory has all of its nodes. -/
theorem filter_isListed (h : Mirrors maxBytes nodes m) : nodes.filter isListed = nodes := by
  refine List.filter_eq_self.2 fun entry hentry => ?_
  obtain ⟨content, hnode, hcontent⟩ := h.mem hentry
  obtain ⟨name, node⟩ := entry
  cases hnode
  exact h.sound.isValid hcontent

/-- The names on both sides are the same. -/
theorem names_perm (h : Mirrors maxBytes nodes m) : (nodes.map Prod.fst).Perm m.names := by
  refine (List.perm_ext_iff_of_nodup h.sorted.nodup h.sound.distinct).2 fun name => ?_
  rw [← isSome_lookup_iff, h.lookup, Option.isSome_map, contents?_isSome_iff]

/-- Both sides take a content for a name. -/
theorem update (h : Mirrors maxBytes nodes m) (hsound : later.Sound)
    (hbytes : later.maxBytes = m.maxBytes)
    (hcontents : (fun other => later.contents? other)
      = Function.update (fun other => m.contents? other) name (some content)) :
    Mirrors maxBytes (Directory.insert name (.file content) nodes) later where
  sound := hsound
  maxBytes_eq := hbytes.trans h.maxBytes_eq
  sorted := h.sorted.insert
  lookup other := by
    rw [Directory.lookup_insert, congrFun hcontents other, Function.update_apply]
    split
    · rfl
    · exact h.lookup other

/-- A file that is removed from both sides leaves two sides that have the same files. -/
theorem erase (h : Mirrors maxBytes nodes m) (name : String) :
    Mirrors maxBytes (nodes.filter fun entry => entry.1 ≠ name)
      { m with files := swapRemove name m.files } where
  sound := h.sound.swapRemove name
  maxBytes_eq := h.maxBytes_eq
  sorted := List.Pairwise.filter _ h.sorted
  lookup other := by
    rw [lookup_filter_ne, congrFun (contents?_swapRemove h.sound) other, Function.update_apply]
    split
    · rfl
    · exact h.lookup other

/-! ## One call -/

/-- A name stands for a file on both sides or on neither. -/
theorem cases (h : Mirrors maxBytes nodes m) (name : String) :
    m.contents? name = none ∧ nodes.lookup name = none ∨
      ∃ content, m.contents? name = some content ∧ nodes.lookup name = some (.file content) := by
  rw [h.lookup]
  cases m.contents? name with
  | none => exact .inl ⟨rfl, rfl⟩
  | some content => exact .inr ⟨content, rfl, rfl⟩

section Calls

variable (h : Mirrors maxBytes nodes m) (hname : FileName.Portable name)

include h hname

/-- Both sides have an empty file then. Memory may have no room for one more, and that is
excluded. -/
theorem create (hroom : (answer (.call (.create name)) m).1 ≠ .failed .noSpace) :
    Matches maxBytes (.call (.create name)) m (folder nodes) := by
  have hvalid : FileName.isValid name = true := FileName.isValid_iff_storable.2 hname.1
  have hm : answer (.call (.create name)) m
      = TableAnswer.of (fun _ => .done) (MemoryStore.create name m) := rfl
  have hd : answer (.call (.create name)) (folder nodes)
      = TableAnswer.of (fun _ => .done) (Directory.create name (folder nodes)) := rfl
  rw [MemoryStore.create, if_neg (by simp [hvalid])] at hm
  rw [Directory.create, resolve_folder hname] at hd
  rcases h.cases name with ⟨hnone, hnode⟩ | ⟨content, hcontent, hnode⟩
  · rw [if_neg (by simp [hnone])] at hm
    rw [hnode] at hd
    by_cases hless : m.files.length < m.maxFiles
    · rw [if_pos hless] at hm
      exact .of_same rfl hm hd
        (h.update (h.sound.append hnone hvalid hless) rfl (contents?_append hnone))
    · -- a full table is what `hroom` rules out
      rw [hm, if_neg hless] at hroom
      exact absurd rfl hroom
  · have hthere : (m.contents? name).isSome := by rw [hcontent]; rfl
    have hshort : ([] : Bytes).length ≤ m.maxBytes := Nat.zero_le _
    rw [if_pos hthere] at hm
    rw [hnode] at hd
    exact .of_same rfl hm hd (h.update (h.sound.setContents hshort) rfl (contents?_setContents hthere))

/-- Both sides add to the file or do not find it. Memory may have no room for the bytes, and that is
excluded. -/
theorem append (bytes : Bytes)
    (hroom : (answer (.call (.append name bytes)) m).1 ≠ .failed .noSpace) :
    Matches maxBytes (.call (.append name bytes)) m (folder nodes) := by
  have hm : answer (.call (.append name bytes)) m
      = TableAnswer.of (fun _ => .done) (MemoryStore.append name bytes m) := rfl
  have hd : answer (.call (.append name bytes)) (folder nodes)
      = TableAnswer.of (fun _ => .done) (Directory.append name bytes (folder nodes)) := rfl
  rw [MemoryStore.append] at hm
  rw [Directory.append, resolve_folder hname] at hd
  rcases h.cases name with ⟨hnone, hnode⟩ | ⟨content, hcontent, hnode⟩
  · rw [hnone] at hm
    rw [hnode] at hd
    exact .of_same rfl hm hd h
  · rw [hcontent] at hm
    rw [hnode] at hd
    dsimp only at hm
    by_cases hless : content.length + bytes.length ≤ m.maxBytes
    · have hthere : (m.contents? name).isSome := by rw [hcontent]; rfl
      have hshort : (content ++ bytes).length ≤ m.maxBytes := by simpa using hless
      rw [if_pos hless] at hm
      exact .of_same rfl hm hd
        (h.update (h.sound.setContents hshort) rfl (contents?_setContents hthere))
    · rw [hm, if_neg hless] at hroom
      exact absurd rfl hroom

/-- Both sides give the front of what stands from the offset on, as much as there is room for, and
nothing behind the end. -/
theorem read (offset room : Nat) :
    Matches maxBytes (.call (.read name offset room)) m (folder nodes) := by
  have hm : answer (.call (.read name offset room)) m
      = TableAnswer.of .bytes (MemoryStore.read name offset room m) := rfl
  have hd : answer (.call (.read name offset room)) (folder nodes)
      = TableAnswer.of .bytes (Directory.read name offset room (folder nodes)) := rfl
  rw [MemoryStore.read] at hm
  rw [Directory.read, resolve_folder hname] at hd
  rcases h.cases name with ⟨hnone, hnode⟩ | ⟨content, hcontent, hnode⟩
  · rw [hnone] at hm
    rw [hnode] at hd
    exact .of_same rfl hm hd h
  · rw [hcontent] at hm
    rw [hnode] at hd
    exact .of_same rfl hm hd h

/-- Both sides remove the file or do not find it. -/
theorem remove : Matches maxBytes (.call (.remove name)) m (folder nodes) := by
  have hm : answer (.call (.remove name)) m
      = TableAnswer.of (fun _ => .done) (MemoryStore.remove name m) := rfl
  have hd : answer (.call (.remove name)) (folder nodes)
      = TableAnswer.of (fun _ => .done) (Directory.remove name (folder nodes)) := rfl
  rw [MemoryStore.remove] at hm
  rw [Directory.remove, resolve_folder hname] at hd
  rcases h.cases name with ⟨hnone, hnode⟩ | ⟨content, hcontent, hnode⟩
  · rw [hnone] at hm
    rw [hnode] at hd
    exact .of_same rfl hm hd h
  · rw [hcontent] at hm
    rw [hnode] at hd
    exact .of_same rfl hm hd (h.erase name)

/-- Both sides say of a missing file that it is missing. Of one that is there the table has the
length modulo a word of 32 bits, and the directory has the length if a word holds it. -/
theorem size_eq :
    (m.contents? name = none ∧ MemoryStore.size name m = .error .notFound m ∧
      Directory.size name (folder nodes) = .error .notFound (folder nodes)) ∨
    ∃ content, m.contents? name = some content ∧
      MemoryStore.size name m = .ok (content.length % 2 ^ 32) m ∧
      Directory.size name (folder nodes)
        = if content.length < 2 ^ 32 then .ok content.length (folder nodes)
          else .error .outOfBounds (folder nodes) := by
  rw [MemoryStore.size, Directory.size, resolve_folder hname]
  rcases h.cases name with ⟨hnone, hnode⟩ | ⟨content, hcontent, hnode⟩
  · rw [hnone, hnode]
    exact .inl ⟨rfl, rfl, rfl⟩
  · rw [hcontent, hnode]
    exact .inr ⟨content, rfl, rfl, rfl⟩

/-- Both sides give the length of the file, if a word of 32 bits holds it. If not, the directory
says that it is out of bounds. -/
theorem size : Matches maxBytes (.call (.size name)) m (folder nodes) := by
  have hm : answer (.call (.size name)) m = TableAnswer.of .length (MemoryStore.size name m) := rfl
  have hd : answer (.call (.size name)) (folder nodes)
      = TableAnswer.of .length (Directory.size name (folder nodes)) := rfl
  rcases h.size_eq hname with ⟨hnone, hmissing, hmissing'⟩ | ⟨content, hcontent, hlength, hlength'⟩
  · rw [hmissing] at hm
    rw [hmissing'] at hd
    exact .of_measurable (measurable_of_missing rfl hnone) hm hd h
  · rw [hlength] at hm
    rw [hlength'] at hd
    by_cases hword : content.length < 2 ^ 32
    · rw [Nat.mod_eq_of_lt hword] at hm
      rw [if_pos hword] at hd
      exact .of_measurable ((measurable_iff rfl hcontent).2 hword) hm hd h
    · rw [if_neg hword] at hd
      exact .of_long (mt (measurable_iff rfl hcontent).1 hword) hm hd ⟨fun _ _ => rfl, nofun⟩ h

/-- Whether a file is there is asked by its size, so a directory denies a file whose length does not
fit. -/
theorem contains : Matches maxBytes (.contains name) m (folder nodes) := by
  rcases h.size_eq hname with ⟨hnone, hmissing, hmissing'⟩ | ⟨content, hcontent, hlength, hlength'⟩
  · exact .of_measurable (measurable_of_missing rfl hnone)
      (FileQuery.answer_contains_of_error hmissing)
      (FileQuery.answer_contains_of_error hmissing') h
  · have hm : answer (.contains name) m = (.known true, m) :=
      FileQuery.answer_contains_of_ok hlength
    by_cases hword : content.length < 2 ^ 32
    · rw [if_pos hword] at hlength'
      exact .of_measurable ((measurable_iff rfl hcontent).2 hword) hm
        (FileQuery.answer_contains_of_ok hlength') h
    · rw [if_neg hword] at hlength'
      exact .of_long (mt (measurable_iff rfl hcontent).1 hword) hm
        (FileQuery.answer_contains_of_error hlength') ⟨nofun, fun _ _ => rfl⟩ h

end Calls

/-- The names are the same as a set, and too many are too many on both sides. The order is the
table's own here, and that of the names there. -/
theorem list (h : Mirrors maxBytes nodes m) : Matches maxBytes (.call .list) m (folder nodes) := by
  have hm : answer (.call .list) m
      = TableAnswer.of (fun names : List String => .names names) (MemoryStore.list m) := rfl
  have hd : answer (.call .list) (folder nodes)
      = TableAnswer.of (fun names : List String => .names names)
        (if ((nodes.filter isListed).map Prod.fst).length ≤ FileSystem.maxListed then
          .ok ((nodes.filter isListed).map Prod.fst) (folder nodes)
        else .error .noSpace (folder nodes)) := rfl
  have hcount : (nodes.map Prod.fst).length = m.files.length := by
    rw [h.names_perm.length_eq, MemoryStore.names, List.length_map]
  rw [MemoryStore.list] at hm
  rw [h.filter_isListed, hcount] at hd
  by_cases hfew : m.files.length ≤ FileSystem.maxListed
  · have hnames : (↑(nodes.map Prod.fst) : Multiset String) = m.files.map Prod.fst :=
      Multiset.coe_eq_coe.2 h.names_perm
    rw [if_pos hfew] at hm hd
    rw [TableAnswer.of, hnames] at hd
    exact .of_same rfl hm hd h
  · rw [if_neg hfew] at hm hd
    exact .of_same rfl hm hd h

/-- In a table whose files are shorter than that, a word holds every length. -/
theorem measurable (h : Mirrors maxBytes nodes m) (hword : maxBytes < 2 ^ 32) (query : FileQuery) :
    Measurable query m := by
  intro name content _ hcontent
  have hshort := h.sound.short (name, content)
    ((lookup_eq_some_iff_mem h.sound.distinct).1 hcontent)
  rw [h.maxBytes_eq] at hshort
  exact Nat.lt_of_le_of_lt hshort hword

/-- Both sides answer a query alike, unless it adds something that memory has no room for. -/
theorem matches_query (h : Mirrors maxBytes nodes m)
    (hnames : ∀ name ∈ query.name?, FileName.Portable name)
    (hroom : query.isAddition = true → (answer query m).1 ≠ .failed .noSpace) :
    Matches maxBytes query m (folder nodes) := by
  cases query with
  | contains name => exact h.contains (hnames name rfl)
  | call c =>
    cases c with
    | create name => exact h.create (hnames name rfl) (hroom rfl)
    | append name bytes => exact h.append (hnames name rfl) bytes (hroom rfl)
    | read name offset room => exact h.read (hnames name rfl) offset room
    | size name => exact h.size (hnames name rfl)
    | remove name => exact h.remove (hnames name rfl)
    | list => exact h.list

end Mirrors

/-! ## Many calls -/

section Runs

variable {d : Directory} {queries : List FileQuery}

/-- Each query of a list meets a directory that mirrors the table, and they match in it. The
induction is over the queries in front, each of which leaves a mirror. -/
theorem matches_after (h : IsMirror maxBytes d m)
    (hnames : ∀ query ∈ queries, ∀ name ∈ query.name?, FileName.Portable name)
    (hroom : ∀ asked ∈ queries.zip (answers queries m),
      asked.1.isAddition = true → asked.2 ≠ .failed .noSpace)
    {before rest : List FileQuery} (hsplit : queries = before ++ query :: rest) :
    IsMirror maxBytes (after before d) (after before m) ∧
      Matches maxBytes query (after before m) (after before d) := by
  induction before generalizing queries m d with
  | nil =>
    subst hsplit
    obtain ⟨nodes, rfl, hmirrors⟩ := h
    exact ⟨⟨nodes, rfl, hmirrors⟩, hmirrors.matches_query (hnames query List.mem_cons_self)
      (hroom (query, _) List.mem_cons_self)⟩
  | cons first before ih =>
    subst hsplit
    obtain ⟨nodes, rfl, hmirrors⟩ := h
    have hfirst := hmirrors.matches_query (hnames first List.mem_cons_self)
      (hroom (first, _) List.mem_cons_self)
    exact ih hfirst.mirror (fun later hlater => hnames later (List.mem_cons_of_mem first hlater))
      (fun asked hasked => hroom asked (List.mem_cons_of_mem _ hasked)) rfl

/-- In a table whose files are shorter than that, every query of a list looks at lengths that a word
holds. -/
theorem measurable_after {maxFiles : Nat} (hword : maxBytes < 2 ^ 32)
    (hnames : ∀ query ∈ queries, ∀ name ∈ query.name?, FileName.Portable name)
    (hroom : ∀ asked ∈ queries.zip (answers queries ({ maxFiles, maxBytes } : MemoryStore)),
      asked.1.isAddition = true → asked.2 ≠ .failed .noSpace)
    {before rest : List FileQuery} (hsplit : queries = before ++ query :: rest) :
    Measurable query (after before ({ maxFiles, maxBytes } : MemoryStore)) := by
  have hstart : IsMirror maxBytes (folder []) ({ maxFiles, maxBytes } : MemoryStore) :=
    ⟨[], rfl, Mirrors.empty maxFiles maxBytes⟩
  obtain ⟨⟨nodes, -, hmirrors⟩, -⟩ := matches_after hstart hnames hroom hsplit
  exact hmirrors.measurable hword query

/-- A table of files in memory that starts empty and an empty directory that no one else touches are
asked the same, under names that both take, and memory has room for all that is added. Every answer
is the same on both sides, unless the query is for the length of a file that a word of 32 bits does
not hold, or whether there is such a file: the directory declines the one and denies the other. So
where no query looks at such a file, the two cannot be told apart. -/
theorem interchangeable (maxFiles maxBytes : Nat)
    (hnames : ∀ query ∈ queries, ∀ name ∈ query.name?, FileName.Portable name)
    (hroom : ∀ asked ∈ queries.zip (answers queries ({ maxFiles, maxBytes } : MemoryStore)),
      asked.1.isAddition = true → asked.2 ≠ .failed .noSpace) :
    let memory : MemoryStore := { maxFiles, maxBytes }
    let directory : Directory := folder []
    (∀ before query rest, queries = before ++ query :: rest →
      (Measurable query (after before memory) →
        (answer query (after before memory)).1 = (answer query (after before directory)).1) ∧
      (¬Measurable query (after before memory) →
        Declines query (answer query (after before directory)).1)) ∧
    ((∀ before query rest, queries = before ++ query :: rest →
        Measurable query (after before memory)) →
      answers queries memory = answers queries directory) := by
  intro memory directory
  have hstart : IsMirror maxBytes directory memory := ⟨[], rfl, Mirrors.empty maxFiles maxBytes⟩
  have hmatches (before query rest) (hsplit : queries = before ++ query :: rest) :
      Matches maxBytes query (after before memory) (after before directory) :=
    (matches_after hstart hnames hroom hsplit).2
  refine ⟨fun before query rest hsplit => ?_, fun hmeasurable => ?_⟩
  · exact ⟨(hmatches before query rest hsplit).same, (hmatches before query rest hsplit).declined⟩
  · exact FileQuery.answers_eq fun before query rest hsplit =>
      (hmatches before query rest hsplit).same (hmeasurable before query rest hsplit)

/-- Queries about a file that is there, one that is not and one that is gone: on both sides the
answers are those of the directory, with the names as a set. -/
theorem interchangeable_of_short_files :
    let queries : List FileQuery :=
      [.call (.create "b"), .call (.append "b" [1, 2, 3]), .call (.append "a" [4]),
        .call (.create "a"), .call (.read "b" 1 5), .call (.read "b" 9 5), .call (.size "b"),
        .contains "c", .call .list, .call (.remove "b"), .call (.remove "b"), .call .list]
    let memory : MemoryStore := { maxFiles := 2, maxBytes := 4 }
    (∀ asked ∈ queries.zip (answers queries memory),
        asked.1.isAddition = true → asked.2 ≠ .failed .noSpace) ∧
      answers queries (folder [])
        = [.done, .done, .failed .notFound, .done, .bytes [2, 3], .bytes [], .length 3,
          .known false, .names ↑["b", "a"], .done, .failed .notFound, .names ↑["a"]] := by
  intro queries memory
  have hnames : ∀ query ∈ queries, ∀ name ∈ query.name?, FileName.Portable name := by decide
  have hroom : ∀ asked ∈ queries.zip (answers queries memory),
      asked.1.isAddition = true → asked.2 ≠ .failed .noSpace := by decide
  have hsame := (interchangeable 2 4 hnames hroom).2 fun before query rest hsplit =>
    measurable_after (by decide) hnames hroom hsplit
  exact ⟨hroom, hsame.symm.trans rfl⟩

/-- Of a file of 2³² bytes, made by one call, memory says that it has no bytes and is there. The
directory does not say how many it has, and says that it is not there. -/
theorem answers_of_long {bytes : Bytes} (hlength : bytes.length = 2 ^ 32) :
    let queries : List FileQuery :=
      [.call (.create "a"), .call (.append "a" bytes), .call (.size "a"), .contains "a"]
    answers queries ({ maxFiles := 1, maxBytes := 2 ^ 32 } : MemoryStore)
        = [.done, .done, .length 0, .known true] ∧
      answers queries (folder []) = [.done, .done, .failed .outOfBounds, .known false] := by
  intro queries
  let memory (content : Bytes) : MemoryStore :=
    { maxFiles := 1, maxBytes := 2 ^ 32, files := [("a", content)] }
  let directory (content : Bytes) : Directory := folder [("a", .file content)]
  have hcreate : answer (.call (.create "a")) ({ maxFiles := 1, maxBytes := 2 ^ 32 } : MemoryStore)
      = (.done, memory []) := rfl
  have hcreate' : answer (.call (.create "a")) (folder []) = (.done, directory []) := rfl
  have happend' : answer (.call (.append "a" bytes)) (directory []) = (.done, directory bytes) :=
    rfl
  have happend : answer (.call (.append "a" bytes)) (memory []) = (.done, memory bytes) := by
    have hfits : ([] : Bytes).length + bytes.length ≤ 2 ^ 32 := by
      rw [hlength]
      decide
    show TableAnswer.of _ (if ([] : Bytes).length + bytes.length ≤ 2 ^ 32 then _ else _) = _
    rw [if_pos hfits]
    rfl
  have hmemory : FileSystem.size "a" (memory bytes) = .ok 0 (memory bytes) := by
    show EStateM.Result.ok (bytes.length % 2 ^ 32) _ = _
    rw [hlength, Nat.mod_self]
  have hdirectory : FileSystem.size "a" (directory bytes)
      = .error .outOfBounds (directory bytes) := by
    show (if bytes.length < 2 ^ 32 then _ else _) = _
    rw [hlength, if_neg (Nat.lt_irrefl _)]
  have hsize : answer (.call (.size "a")) (memory bytes) = (.length 0, memory bytes) :=
    congrArg (TableAnswer.of .length) hmemory
  have hsize' : answer (.call (.size "a")) (directory bytes)
      = (.failed .outOfBounds, directory bytes) :=
    congrArg (TableAnswer.of .length) hdirectory
  constructor
  · rw [answers_cons hcreate, answers_cons happend, answers_cons hsize,
      answers_cons (FileQuery.answer_contains_of_ok hmemory)]
    rfl
  · rw [answers_cons hcreate', answers_cons happend', answers_cons hsize',
      answers_cons (FileQuery.answer_contains_of_error hdirectory)]
    rfl

/-- A file of 2³² bytes tells the two sides apart, although both take the names and memory has room
for all that is added. -/
theorem distinguishable_by_long_file :
    let queries : List FileQuery :=
      [.call (.create "a"), .call (.append "a" (List.replicate (2 ^ 32) 0)), .call (.size "a"),
        .contains "a"]
    let memory : MemoryStore := { maxFiles := 1, maxBytes := 2 ^ 32 }
    (∀ query ∈ queries, ∀ name ∈ query.name?, FileName.Portable name) ∧
      (∀ asked ∈ queries.zip (answers queries memory),
        asked.1.isAddition = true → asked.2 ≠ .failed .noSpace) ∧
      answers queries memory = [.done, .done, .length 0, .known true] ∧
      answers queries (folder []) = [.done, .done, .failed .outOfBounds, .known false] ∧
      answers queries memory ≠ answers queries (folder []) := by
  intro queries memory
  obtain ⟨hmemory, hdirectory⟩ := answers_of_long (List.length_replicate (n := 2 ^ 32) (a := 0))
  have hportable : FileName.Portable "a" := by decide
  refine ⟨?_, ?_, hmemory, hdirectory, ?_⟩
  · intro query hquery name hname
    simp only [queries, List.mem_cons, List.not_mem_nil, or_false] at hquery
    rcases hquery with rfl | rfl | rfl | rfl <;> exact Option.some.inj hname ▸ hportable
  · rw [hmemory]
    intro asked hasked _
    simp only [queries, List.zip_cons_cons, List.zip_nil_right, List.mem_cons, List.not_mem_nil,
      or_false] at hasked
    rcases hasked with rfl | rfl | rfl | rfl <;> exact nofun
  · rw [hmemory, hdirectory]
    decide

end Runs

end Directory

end DeviceHttp
