import DeviceHttp.Proofs.Storage.FileMap
import DeviceHttp.Storage.MemoryStore
import Mathlib.Data.List.Nodup
import Mathlib.Data.List.Perm.Basic

/-!
# The table of files in memory

A table holds no name twice, holds valid names only, and keeps to its two limits
(`MemoryStore.Sound`): an empty one does, and no call breaks it. Such a table is a map from names to
contents. A file that is removed leaves its place to the last one, which changes the order of the
table and nothing else (`MemoryStore.swapRemove_perm`).
-/

namespace DeviceHttp.MemoryStore

/-! ## Tables as maps -/

section Entries

variable {β : Type} {files files' : List (String × β)} {name other : String} {content : β}

/-- Where no name stands twice, a file is found by its name. -/
theorem lookup_eq_some_iff_mem (h : (files.map Prod.fst).Nodup) :
    files.lookup name = some content ↔ (name, content) ∈ files := by
  constructor
  · intro hfound
    obtain ⟨before, after, rfl, -⟩ := List.lookup_eq_some_iff.1 hfound
    simp
  · intro hmem
    obtain ⟨before, after, rfl⟩ := List.append_of_mem hmem
    refine List.lookup_eq_some_iff.2 ⟨before, after, rfl, ?_⟩
    intro file hfile
    rw [List.map_append, List.nodup_append] at h
    have hne : file.1 ≠ name := h.2.2 _ (List.mem_map_of_mem hfile) _ (by simp)
    simpa using hne.symm

theorem isSome_lookup_iff : (files.lookup name).isSome ↔ name ∈ files.map Prod.fst := by
  induction files with
  | nil => simp
  | cons file files ih =>
    by_cases h : name = file.1 <;> simp [h]

/-- The order of a table does not matter. -/
theorem lookup_of_perm (h : files.Perm files') (hnames : (files.map Prod.fst).Nodup) :
    files.lookup name = files'.lookup name := by
  have hnames' : (files'.map Prod.fst).Nodup := (h.map Prod.fst).nodup_iff.1 hnames
  ext content
  rw [lookup_eq_some_iff_mem hnames, lookup_eq_some_iff_mem hnames', h.mem_iff]

/-- Setting the content of a file changes what is found under its name, and nothing else; a file
that is not there is not made by it. -/
theorem lookup_map_set :
    (files.map fun file => if file.1 = name then (name, content) else file).lookup other
      = if other = name then (files.lookup name).map fun _ => content else files.lookup other := by
  induction files with
  | nil => simp
  | cons file files ih =>
    rw [List.map_cons, List.lookup_cons, ih, List.lookup_cons, List.lookup_cons]
    by_cases hname : file.1 = name
    · rw [if_pos hname, hname]
      by_cases hother : other = name
      · simp [hother]
      · simp [hother, beq_eq_false_iff_ne.2 hother]
    · rw [if_neg hname]
      by_cases hother : other = name
      · simp [hother, beq_eq_false_iff_ne.2 (Ne.symm hname)]
      · simp [hother]

theorem map_fst_map_set :
    (files.map fun file => if file.1 = name then (name, content) else file).map Prod.fst
      = files.map Prod.fst := by
  rw [List.map_map]
  apply List.map_congr_left
  intro file _
  by_cases h : file.1 = name <;> simp [h]

/-- Leaving out a name changes what is found under it, and nothing else. -/
theorem lookup_filter_ne :
    (files.filter fun file => file.1 ≠ name).lookup other
      = if other = name then none else files.lookup other := by
  induction files with
  | nil => simp
  | cons file files ih =>
    by_cases hname : file.1 = name
    · rw [List.filter_cons_of_neg (by simpa using hname), ih]
      by_cases hother : other = name
      · rw [if_pos hother, if_pos hother]
      · have hne : (other == file.1) = false := by simp [hname, hother]
        rw [if_neg hother, if_neg hother, List.lookup_cons, hne]
    · rw [List.filter_cons_of_pos (by simpa using hname), List.lookup_cons, List.lookup_cons, ih]
      by_cases hother : other = name
      · have hne : (other == file.1) = false := by simp [hother, Ne.symm hname]
        rw [hne, if_pos hother]
      · rw [if_neg hother, if_neg hother]

/-- Removing a file takes it out of the table, and moves another one: what is left are the other
files, in some order. -/
theorem swapRemove_perm {files : List (String × Bytes)} (name : String)
    (h : (files.map Prod.fst).Nodup) :
    (swapRemove name files).Perm (files.filter fun file => file.1 ≠ name) := by
  induction files with
  | nil => exact .refl _
  | cons file files ih =>
    rw [List.map_cons, List.nodup_cons] at h
    rw [swapRemove, List.filter_cons]
    by_cases hname : file.1 = name
    · have hrest : files.filter (fun file => file.1 ≠ name) = files := by
        apply List.filter_eq_self.2
        intro later hlater
        have hne : later.1 ≠ name := by
          rintro rfl
          exact h.1 (hname ▸ List.mem_map_of_mem hlater)
        simpa using hne
      rw [if_pos hname, if_neg (by simpa using hname), hrest]
      rcases List.eq_nil_or_concat' files with rfl | ⟨front, last, rfl⟩
      · exact .refl _
      · rw [List.getLast?_concat, List.dropLast_concat]
        exact (List.perm_append_singleton last front).symm
    · rw [if_neg hname, if_pos (by simpa using hname)]
      exact (ih h.2).cons file

end Entries

/-- The names in the table, in its order. -/
def names (m : MemoryStore) : List String :=
  m.files.map Prod.fst

/-- What holds of every table that calls lead to. -/
structure Sound (m : MemoryStore) : Prop where
  distinct : m.names.Nodup
  valid : ∀ name ∈ m.names, FileName.isValid name = true
  few : m.files.length ≤ m.maxFiles
  short : ∀ file ∈ m.files, file.2.length ≤ m.maxBytes

instance (m : MemoryStore) : Decidable m.Sound :=
  decidable_of_iff
    (m.names.Nodup ∧ (∀ name ∈ m.names, FileName.isValid name = true) ∧
      m.files.length ≤ m.maxFiles ∧ ∀ file ∈ m.files, file.2.length ≤ m.maxBytes)
    ⟨fun ⟨distinct, valid, few, short⟩ => ⟨distinct, valid, few, short⟩,
      fun h => ⟨h.distinct, h.valid, h.few, h.short⟩⟩

/-- A table without files is sound. -/
theorem sound_empty (maxFiles maxBytes : Nat) : Sound { maxFiles, maxBytes } :=
  ⟨List.nodup_nil, by simp [names], Nat.zero_le _, by simp⟩

variable {m : MemoryStore} {name other : String} {content : Bytes}

theorem contents?_isSome_iff : (m.contents? name).isSome ↔ name ∈ m.names :=
  isSome_lookup_iff

theorem Sound.isValid (h : m.Sound) (hname : m.contents? name = some content) :
    FileName.isValid name = true :=
  h.valid name (contents?_isSome_iff.1 (Option.isSome_iff_exists.2 ⟨content, hname⟩))

/-! ## What the calls do to the table -/

theorem names_setContents (m : MemoryStore) (name : String) (content : Bytes) :
    (m.setContents name content).names = m.names :=
  map_fst_map_set

/-- A file that is there gets another content. -/
theorem contents?_setContents (hname : (m.contents? name).isSome) :
    (fun other => (m.setContents name content).contents? other)
      = Function.update (fun other => m.contents? other) name (some content) := by
  funext other
  obtain ⟨old, hold⟩ := Option.isSome_iff_exists.1 hname
  rw [Function.update_apply]
  show List.lookup other _ = _
  rw [setContents, lookup_map_set]
  split
  · rw [show m.files.lookup name = some old from hold]
    rfl
  · rfl

/-- New content for a file keeps a table sound, if it is not too long. -/
theorem Sound.setContents (h : m.Sound) (hshort : content.length ≤ m.maxBytes) :
    (m.setContents name content).Sound where
  distinct := by
    rw [names_setContents]
    exact h.distinct
  valid := by
    rw [names_setContents]
    exact h.valid
  few := by
    show (List.map _ m.files).length ≤ m.maxFiles
    rw [List.length_map]
    exact h.few
  short := by
    intro file hfile
    obtain ⟨old, hold, rfl⟩ := List.mem_map.1 hfile
    show (if old.1 = name then (name, content) else old).2.length ≤ m.maxBytes
    split
    · exact hshort
    · exact h.short old hold

/-- A file of a new name is put behind the others. -/
theorem contents?_append (hname : m.contents? name = none) :
    (fun other => ({ m with files := m.files ++ [(name, [])] } : MemoryStore).contents? other)
      = Function.update (fun other => m.contents? other) name (some []) := by
  funext other
  rw [Function.update_apply]
  show List.lookup other _ = _
  rw [List.lookup_append]
  split
  · next h =>
    rw [h, show m.files.lookup name = none from hname]
    simp
  · next h =>
    have hno : List.lookup other [(name, ([] : Bytes))] = none :=
      List.lookup_eq_none_iff.2 (by simpa using h)
    rw [hno, Option.or_none]
    rfl

/-- A new file keeps a table sound, if its name is valid and not taken and there is room for it. -/
theorem Sound.append (h : m.Sound) (hname : m.contents? name = none)
    (hvalid : FileName.isValid name = true) (hroom : m.files.length < m.maxFiles) :
    Sound { m with files := m.files ++ [(name, [])] } := by
  have hnames : names { m with files := m.files ++ [(name, [])] } = m.names ++ [name] :=
    List.map_append
  have hnew : name ∉ m.names := by
    intro hmem
    rw [← contents?_isSome_iff, hname] at hmem
    cases hmem
  refine ⟨?_, ?_, ?_, ?_⟩
  · rw [hnames]
    exact List.nodup_append.2 ⟨h.distinct, List.nodup_singleton name, by
      intro other hother last hlast heq
      rw [List.mem_singleton.1 hlast] at heq
      exact hnew (heq ▸ hother)⟩
  · rw [hnames]
    intro other hother
    rcases List.mem_append.1 hother with hother | hother
    · exact h.valid other hother
    · exact List.mem_singleton.1 hother ▸ hvalid
  · show (m.files ++ [(name, [])]).length ≤ m.maxFiles
    rw [List.length_append]
    exact hroom
  · intro file hfile
    rcases List.mem_append.1 hfile with hfile | hfile
    · exact h.short file hfile
    · rw [List.mem_singleton.1 hfile]
      exact Nat.zero_le _

/-- Removing a file moves the last one to its place, but under every other name the same is found as
before. -/
theorem contents?_swapRemove (h : m.Sound) :
    (fun other => ({ m with files := swapRemove name m.files } : MemoryStore).contents? other)
      = Function.update (fun other => m.contents? other) name none := by
  funext other
  have hperm := swapRemove_perm name h.distinct
  have hnames : ((swapRemove name m.files).map Prod.fst).Nodup :=
    (hperm.map Prod.fst).nodup_iff.2 (h.distinct.sublist (List.filter_sublist.map Prod.fst))
  rw [Function.update_apply]
  show List.lookup other _ = _
  rw [lookup_of_perm hperm hnames, lookup_filter_ne]
  rfl

/-- Removing a file keeps a table sound: the names that are left are some of those that there
were. -/
theorem Sound.swapRemove (h : m.Sound) (name : String) :
    Sound { m with files := swapRemove name m.files } := by
  have hperm := swapRemove_perm name h.distinct
  have hmem {file : String × Bytes} (hfile : file ∈ MemoryStore.swapRemove name m.files) :
      file ∈ m.files :=
    List.mem_of_mem_filter (hperm.mem_iff.1 hfile)
  refine ⟨?_, ?_, ?_, fun file hfile => h.short file (hmem hfile)⟩
  · exact (hperm.map Prod.fst).nodup_iff.2
      (h.distinct.sublist (List.filter_sublist.map Prod.fst))
  · intro other hother
    obtain ⟨file, hfile, rfl⟩ := List.mem_map.1 hother
    exact h.valid _ (List.mem_map_of_mem (hmem hfile))
  · show (MemoryStore.swapRemove name m.files).length ≤ m.maxFiles
    rw [hperm.length_eq]
    exact Nat.le_trans (List.length_filter_le _ _) h.few

/-! ## The table is a map -/

instance : FileMap MemoryStore where
  Sound := Sound
  contents m name := m.contents? name
  isValid_of_contents h hname := h.isValid hname
  create {m} name h := by
    show FileAction.Keeps _ _ _ _ (MemoryStore.create name m)
    unfold MemoryStore.create
    split
    · exact .error h rfl
    · next hvalid =>
      have hvalid : FileName.isValid name = true := by simpa using hvalid
      split
      · next hname => exact .ok (h.setContents (Nat.zero_le _)) (contents?_setContents hname)
      · next hname =>
        have hnone : m.contents? name = none := by simpa using hname
        split
        · next hroom => exact .ok (h.append hnone hvalid hroom) (contents?_append hnone)
        · exact .error h rfl
  append {m} name bytes h := by
    show FileAction.Keeps _ _ _ _ (MemoryStore.append name bytes m)
    unfold MemoryStore.append
    cases hname : m.contents? name with
    | none => exact .error h rfl
    | some content =>
      dsimp only
      split
      · next hroom =>
        have hshort : (content ++ bytes).length ≤ m.maxBytes := by simpa using hroom
        exact .ok (h.setContents hshort)
          ⟨content, rfl, contents?_setContents (by rw [hname]; rfl)⟩
      · exact .error h rfl
  read {m} name offset room h := by
    show FileAction.Keeps _ _ _ _ (MemoryStore.read name offset room m)
    unfold MemoryStore.read
    cases hname : m.contents? name with
    | none => exact .error h rfl
    | some content => exact .ok h ⟨rfl, content, rfl, rfl⟩
  size {m} name h := by
    show FileAction.Keeps _ _ _ _ (MemoryStore.size name m)
    unfold MemoryStore.size
    cases hname : m.contents? name with
    | none => exact .error h rfl
    | some content => exact .ok h ⟨rfl, content, rfl, Nat.mod_eq_of_lt⟩
  remove {m} name h := by
    show FileAction.Keeps _ _ _ _ (MemoryStore.remove name m)
    unfold MemoryStore.remove
    split
    · exact .ok (h.swapRemove name) (contents?_swapRemove h)
    · exact .error h rfl
  list {m} h := by
    show FileAction.Keeps _ _ _ _ (MemoryStore.list m)
    unfold MemoryStore.list
    split
    · exact .ok h ⟨rfl, h.distinct, fun name => contents?_isSome_iff.symm⟩
    · exact .error h rfl

/-- A table that lists its files has few enough of them, since with more it refuses. -/
theorem listsFew : FileMap.ListsFew MemoryStore := by
  intro m later names hlist
  change MemoryStore.list m = .ok names later at hlist
  unfold MemoryStore.list at hlist
  split at hlist
  · next hfew =>
    obtain ⟨rfl, -⟩ := EStateM.Result.ok.inj hlist
    rwa [List.length_map]
  · cases hlist

/-- No call on a file that is there fails, unless there is no room for what it adds. -/
theorem reliable : FileMap.Reliable MemoryStore where
  create {m name content} h hname := by
    have hname : m.contents? name = some content := hname
    show ∃ later, MemoryStore.create name m = .ok () later
    simp [MemoryStore.create, h.isValid hname, hname]
  read {m name content} offset room h hname := by
    have hname : m.contents? name = some content := hname
    show ∃ later, MemoryStore.read name offset room m = .ok _ later
    simp [MemoryStore.read, hname]
  remove {m name content} h hname := by
    have hname : m.contents? name = some content := hname
    show ∃ later, MemoryStore.remove name m = .ok () later
    simp [MemoryStore.remove, hname]

end DeviceHttp.MemoryStore
