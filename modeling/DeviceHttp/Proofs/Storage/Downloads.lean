import DeviceHttp.Proofs.Storage.FileBodies
import DeviceHttp.Proofs.Storage.Table
import DeviceHttp.Proofs.Transfer.Attended

/-!
# Downloads into files

A transaction that succeeds, into a file sink that noted no failure, has the content of the response
in the file, all of it, and the sink is closed. In a table of files that can be said of every moment:
from the reset on the file has the front of what was decoded, as much as the sink has counted, and
after an append that failed nothing is added any more (`Client.execute_fills_file`).
-/

namespace DeviceHttp

open FileMap (Frames Sound contents)

namespace FileSink

/-! ## What is in the file after any calls -/

section Fronts

variable {φ : Type} [FileSystem φ] [FileMap φ] {w : φ × FileSink} {body : Bytes}

/-- The file has a front of `body`, which the sink has counted, and all of it if the sink is open. -/
structure Keeping (body : Bytes) (w : φ × FileSink) : Prop where
  sound : Sound w.1
  kept : ∃ part, contents w.1 w.2.name = some part ∧ w.2.written = part.length ∧ part <+: body ∧
    (w.2.isOpen = true → part = body)

namespace Keeping

/-- A slice is appended as a whole or, if that fails, not at all; then the sink is closed, and the
file keeps the front that it has. -/
theorem write (h : Keeping body w) (slice : Bytes) :
    Keeping (body ++ slice) (FileSink.write slice w).2 := by
  obtain ⟨part, hpart, hwritten, hprefix, hwhole⟩ := h.kept
  have hlonger : part <+: body ++ slice := hprefix.trans (List.prefix_append body slice)
  cases hopen : w.2.isOpen with
  | false =>
    rw [write_of_closed hopen]
    exact ⟨h.sound, part, hpart, hwritten, hlonger, by simp [hopen]⟩
  | true =>
    obtain rfl := hwhole hopen
    by_cases hend : slice = []
    · obtain ⟨hfiles, -, hsame, -⟩ := accept_endMark w
      have hname := name_accept (.write []) w
      subst hend
      refine ⟨?_, part, ?_, hsame.trans hwritten, hlonger, fun _ => (List.append_nil part).symm⟩
      · exact hfiles ▸ h.sound
      · rw [← hpart, ← hfiles, ← hname]
        rfl
    · have hlength : w.2.written + slice.length = (part ++ slice).length := by
        rw [hwritten, List.length_append]
      rcases write_cases h.sound hopen hend hpart with
        ⟨later, hw, sound, hfile⟩ | ⟨later, e, hw, sound, same⟩
      · rw [hw]
        dsimp only
        split
        · exact ⟨sound, _, hfile, hlength, List.prefix_rfl, fun _ => rfl⟩
        · exact ⟨sound, _, hfile, hlength, List.prefix_rfl, fun _ => rfl⟩
      · rw [hw]
        exact ⟨sound, part, (congrFun same w.2.name).trans hpart, hwritten, hlonger, nofun⟩

theorem setLength (h : Keeping body w) (n : Nat) : Keeping body (w.1, w.2.setLength n) := by
  obtain ⟨part, hpart, hwritten, hprefix, hwhole⟩ := h.kept
  unfold FileSink.setLength
  dsimp only
  split
  · exact ⟨h.sound, part, hpart, hwritten, hprefix, nofun⟩
  · exact ⟨h.sound, part, hpart, hwritten, hprefix, hwhole⟩

end Keeping

end Fronts

/-! ## A sink in a table -/

/-- A sink for a file that is in a table. -/
structure Placed (w : MemoryStore × FileSink) : Prop where
  sound : w.1.Sound
  present : (w.1.contents? w.2.name).isSome

variable {w : MemoryStore × FileSink}

theorem Placed.frames (h : Placed w) :
    Frames w.2.name (fun name => w.1.contents? name) w.1 :=
  ⟨h.sound, fun _ _ => rfl, Option.isSome_iff_exists.1 h.present⟩

/-- A sink that is made for a file of a table has it there. -/
theorem placed_create {name : String} {files later : MemoryStore} {sink : FileSink}
    (hsound : files.Sound) (hcreate : create name files = .ok sink later) :
    Placed (later, sink) := by
  have hsound : Sound files := hsound
  have hkeeps := keeps_create name hsound
  rw [hcreate] at hkeeps
  cases hkeeps with
  | ok sound done =>
    obtain ⟨hname, hlater⟩ := done
    refine ⟨sound, ?_⟩
    have hfile : later.contents? name = some [] := by
      have := congrFun hlater name
      rwa [Function.update_self] at this
    show (later.contents? sink.name).isSome
    rw [hname, hfile]
    rfl

theorem Placed.acceptAll (h : Placed w) (calls : List Delivery) :
    Placed (Sink.acceptAll w calls) := by
  have hframes := frames_acceptAll h.frames calls
  refine ⟨hframes.sound, ?_⟩
  rw [name_acceptAll]
  exact Option.isSome_iff_exists.2 hframes.present

/-- A table takes a slice if the file has room for it. What else could go wrong does not happen in
memory. -/
theorem write_table {part slice : Bytes} (hopen : w.2.isOpen = true) (hslice : slice ≠ [])
    (hpart : w.1.contents? w.2.name = some part) :
    (write slice w).2.1.maxBytes = w.1.maxBytes ∧
      ((write slice w).2.2.error = w.2.error ∨ w.1.maxBytes < part.length + slice.length) := by
  obtain ⟨files, s⟩ := w
  have happend : FileSystem.append s.name slice files = MemoryStore.append s.name slice files := rfl
  unfold write
  dsimp only at hopen hpart ⊢
  rw [if_neg (by simp [hopen]), if_neg hslice, happend, MemoryStore.append, hpart]
  dsimp only
  by_cases hfits : part.length + slice.length ≤ files.maxBytes
  · rw [if_pos hfits]
    dsimp only
    split <;> exact ⟨rfl, .inl rfl⟩
  · rw [if_neg hfits]
    exact ⟨rfl, .inr (Nat.lt_of_not_le hfits)⟩

/-- The sink keeps what it is handed, in a table whose files have `room` bytes, and it has failed
only if that does not fit. -/
structure Housed (room : Nat) (body : Bytes) (w : MemoryStore × FileSink) : Prop where
  keeping : Keeping body w
  room_eq : w.1.maxBytes = room
  failed : w.2.error ≠ none → room < body.length

namespace Housed

variable {room : Nat} {body : Bytes}

/-- A slice that does not fit is the only one that a table refuses, and then the body is longer than
a file may be. -/
theorem write (h : Housed room body w) (slice : Bytes) :
    Housed room (body ++ slice) (FileSink.write slice w).2 := by
  have hkeeping := h.keeping.write slice
  obtain ⟨part, hpart, -, -, hwhole⟩ := h.keeping.kept
  -- a failure from before is one still, with more that does not fit
  have hlonger : w.2.error ≠ none → room < (body ++ slice).length := by
    intro hfailed
    have := h.failed hfailed
    rw [List.length_append]
    omega
  cases hopen : w.2.isOpen with
  | false =>
    rw [write_of_closed hopen] at hkeeping ⊢
    exact ⟨hkeeping, h.room_eq, hlonger⟩
  | true =>
    by_cases hend : slice = []
    · obtain ⟨hfiles, herror, -, -⟩ := accept_endMark w
      subst hend
      refine ⟨hkeeping, (congrArg MemoryStore.maxBytes hfiles).trans h.room_eq, fun hfailed => ?_⟩
      exact hlonger (herror ▸ hfailed)
    · obtain ⟨hroom, herror⟩ := write_table hopen hend hpart
      refine ⟨hkeeping, hroom.trans h.room_eq, fun hfailed => ?_⟩
      rcases herror with hsame | hfull
      · exact hlonger (hsame ▸ hfailed)
      · rw [List.length_append, ← hwhole hopen, ← h.room_eq]
        exact hfull

theorem setLength (h : Housed room body w) (n : Nat) : Housed room body (w.1, w.2.setLength n) := by
  refine ⟨h.keeping.setLength n, h.room_eq, fun hfailed => h.failed fun hnone => hfailed ?_⟩
  unfold FileSink.setLength
  dsimp only
  split <;> exact hnone

theorem acceptAll {calls : List Delivery} (h : Housed room body w) (hcalls : .reset ∉ calls) :
    Housed room (body ++ Delivery.written calls) (Sink.acceptAll w calls) :=
  Sink.acceptAll_written (fun n h => h.setLength n)
    (fun _ h => ⟨⟨h.keeping.sound, h.keeping.kept⟩, h.room_eq, h.failed⟩) (fun _ h => h)
    (fun slice h => h.write slice) h hcalls

end Housed

/-- In a table a sink can always start over. -/
theorem Placed.housed_reset (h : Placed w) :
    Housed w.1.maxBytes [] (Sink.accept w .reset) := by
  obtain ⟨files, s⟩ := w
  have hvalid : FileName.isValid s.name = true := by
    obtain ⟨content, hcontent⟩ := Option.isSome_iff_exists.1 h.present
    exact h.sound.isValid hcontent
  have hcreate : FileSystem.create s.name files = .ok () (files.setContents s.name []) := by
    show MemoryStore.create s.name files = _
    rw [MemoryStore.create, if_neg (by simp [hvalid]), if_pos h.present]
  have hreset : Sink.accept (files, s) .reset
      = (files.setContents s.name [], { name := s.name }) := by
    show reset (files, s) = _
    unfold reset
    dsimp only
    rw [hcreate]
  have hfile : (files.setContents s.name []).contents? s.name = some [] :=
    (congrFun (MemoryStore.contents?_setContents h.present) s.name).trans (Function.update_self ..)
  rw [hreset]
  exact ⟨⟨h.sound.setContents (Nat.zero_le _), [], hfile, rfl, List.prefix_rfl, fun _ => rfl⟩, rfl,
    fun hfailed => absurd rfl hfailed⟩

/-- The storage does not take this slice from the sink. -/
def Refuses (e : StorageError) (slice : Bytes) (w : MemoryStore × FileSink) : Prop :=
  w.2.isOpen = true ∧ slice ≠ [] ∧ ∃ left, FileSystem.append w.2.name slice w.1 = .error e left

/-- After an append that failed a sink adds nothing, whatever it is called with until the next
reset. -/
theorem Refuses.shut {e : StorageError} {slice : Bytes} {calls : List Delivery}
    (h : Refuses e slice w) (hcalls : .reset ∉ calls) :
    Shut (w.1, w.2.fail e) (Sink.acceptAll w (.write slice :: calls)) := by
  obtain ⟨files, s⟩ := w
  obtain ⟨hopen, hslice, left, happend⟩ := h
  obtain rfl : left = files := by
    change MemoryStore.append s.name slice files = _ at happend
    grind [MemoryStore.append]
  have hwrite : Sink.accept (left, s) (.write slice) = (left, s.fail e) := by
    show (write slice (left, s)).2 = _
    unfold write
    dsimp only at hopen happend ⊢
    rw [if_neg (by simp [hopen]), if_neg hslice, happend]
  rw [Sink.acceptAll_cons, hwrite]
  exact shut_acceptAll rfl hcalls

end FileSink

namespace Client

variable {φ : Type} [FileSystem φ] [FileMap φ] {w : φ × FileSink} {c : Client} {method : Method}
  {address : String} {source : Option Source} {timeout : Nat}

/-- A transaction that succeeds, into a sink that noted no failure, fills its file with the content
of the response that it ends on. -/
theorem filled_of_ok (hsound : Sound w.1)
    (hok : (c.execute method address source timeout).result = .ok ())
    (herror : ((c.execute method address source timeout).into w).2.error = none) :
    ∃ r, c.EndsOn method address source timeout r ∧
      FileSink.Filled r.content ((c.execute method address source timeout).into w) ∧
      ((c.execute method address source timeout).into w).2.isOpen = false := by
  obtain ⟨r, hends, hwritten⟩ := endsOn_of_ok hok
  obtain ⟨calls, hcalls, ⟨-, e, he⟩ | hhanded⟩ := c.handover_execute method address source timeout
  · cases hok.symm.trans he
  · refine ⟨r, hends, ?_⟩
    rw [hcalls] at hwritten
    rw [Transaction.into, hcalls] at herror ⊢
    obtain ⟨hfilled, hcloses⟩ := FileSink.filled_of_handover hhanded hsound herror
    change Delivery.written calls = r.content at hwritten
    exact ⟨hwritten ▸ hfilled, hcloses hok⟩

/-- A transaction into a file sink. Whatever the files are kept in and whichever calls fail, if the
transaction succeeds and the sink noted no failure, then the sink is closed and its file has the
content of the response that the transaction ended on, all of it. In a table, whatever becomes of the
transaction, the file has at every moment a front of what was decoded since the reset, as long as the
sink has counted, and all of that while the sink is open; the sink has failed only if that does not
fit into a file. The other files are as they were, and after an append that failed the sink stays
closed and adds nothing. -/
theorem execute_fills_file (c : Client) (method : Method) (address : String)
    (source : Option Source) (timeout : Nat) :
    let t := c.execute method address source timeout
    (∀ (φ : Type) [FileSystem φ] [FileMap φ] (w : φ × FileSink), Sound w.1 →
      let run := c.executeInto method address source timeout w
      run.1.result = .ok () → run.2.2.error = none →
        run.2.2.isOpen = false ∧ ∃ r, c.EndsOn method address source timeout r ∧
          contents run.2.1 w.2.name = some r.content ∧ run.2.2.written = r.content.length) ∧
    ∀ w : MemoryStore × FileSink, FileSink.Placed w →
      ∃ calls, .reset ∉ calls ∧ t.deliveries = .reset :: calls ∧
        c.executeInto method address source timeout w
          = (t, Sink.acceptAll w (.reset :: calls)) ∧
        FileSink.Placed (Sink.acceptAll w (.reset :: calls)) ∧
        ∀ done later, done ++ later = calls →
          let v := Sink.acceptAll w (.reset :: done)
          (∃ part, v.1.contents? w.2.name = some part ∧ v.2.written = part.length ∧
            part <+: Delivery.written done ∧ (v.2.isOpen = true → part = Delivery.written done)) ∧
          (v.2.error ≠ none → w.1.maxBytes < (Delivery.written done).length) ∧
          (∀ other, other ≠ w.2.name → v.1.contents? other = w.1.contents? other) ∧
          ∀ e slice more rest, FileSink.Refuses e slice v → later = .write slice :: more ++ rest →
            FileSink.Shut (v.1, v.2.fail e) (Sink.acceptAll v (.write slice :: more)) := by
  intro t
  refine ⟨fun φ _ _ w hsound => ?_, fun w hplaced => ?_⟩
  · rw [executeInto_eq]
    intro run hok herror
    obtain ⟨r, hends, hfilled, hclosed⟩ := filled_of_ok hsound hok herror
    refine ⟨hclosed, r, hends, ?_, hfilled.written⟩
    have hcontent := hfilled.content
    rwa [Transaction.into, FileSink.name_acceptAll] at hcontent
  · obtain ⟨calls, hcalls, hcases⟩ := c.handover_execute method address source timeout
    have hreset : .reset ∉ calls := by
      rcases hcases with ⟨rfl, -⟩ | hhanded
      · exact List.not_mem_nil
      · exact hhanded.reset_not_mem
    refine ⟨calls, hreset, hcalls, ?_, hplaced.acceptAll _, fun done later hsplit => ?_⟩
    · rw [executeInto_eq, Transaction.into, hcalls]
    · subst hsplit
      simp only [List.mem_append, not_or] at hreset
      intro v
      have hhoused : FileSink.Housed w.1.maxBytes ([] ++ Delivery.written done) v :=
        hplaced.housed_reset.acceptAll hreset.1
      have hname : v.2.name = w.2.name := FileSink.name_acceptAll _ w
      refine ⟨?_, hhoused.failed, fun other hother => ?_, fun e slice more rest hrefuses hlater => ?_⟩
      · obtain ⟨part, hpart, hwritten, hprefix, hwhole⟩ := hhoused.keeping.kept
        rw [hname] at hpart
        exact ⟨part, hpart, hwritten, hprefix, hwhole⟩
      · exact (FileSink.frames_acceptAll hplaced.frames _).others other hother
      · refine hrefuses.shut fun hmem => hreset.2 ?_
        rw [hlater]
        exact List.mem_append_left rest (List.mem_cons_of_mem _ hmem)

/-- A file that is overwritten by three bytes, and one that has room for two: this one stays empty,
and the sink is closed. -/
theorem execute_fills_file_of_three_bytes :
    let c : Client := { Client.new 64 with
      network := [some (.sending
        [Utf8.ofString "HTTP/1.1 200 OK\r\nContent-Length: 3\r\n\r\n" ++ [1, 2, 3]])] }
    let files : MemoryStore := { maxFiles := 1, maxBytes := 8, files := [("f", [0])] }
    let narrow : MemoryStore := { maxFiles := 1, maxBytes := 2, files := [("f", [])] }
    let into := fun files : MemoryStore =>
      (c.executeInto .get "http://a/" none 1000 (files, ({ name := "f" } : FileSink))).2
    (∃ r, c.EndsOn .get "http://a/" none 1000 r ∧ (into files).1.contents? "f" = some r.content) ∧
      (into narrow).2.isOpen = false ∧ (into narrow).1.contents? "f" = some [] := by
  intro c files narrow into
  obtain ⟨hwhole, hpart⟩ := c.execute_fills_file .get "http://a/" none 1000
  have hfacts : (c.execute .get "http://a/" none 1000).result = .ok () ∧
      (into files).2.error = none ∧
      (c.execute .get "http://a/" none 1000).deliveries
        = [.reset, .setLength 3, .write [1, 2, 3]] := by
    decide +kernel
  obtain ⟨hok, herror, hdeliveries⟩ := hfacts
  constructor
  · have hsound : files.Sound := by decide +kernel
    obtain ⟨-, r, hends, hcontent, -⟩ := hwhole MemoryStore (files, { name := "f" }) hsound
      (by rw [executeInto_eq]; exact hok) herror
    exact ⟨r, hends, hcontent⟩
  · have hcreate : FileSink.create "f" ({ maxFiles := 1, maxBytes := 2 } : MemoryStore)
        = .ok { name := "f" } narrow := rfl
    have hplaced := FileSink.placed_create (MemoryStore.sound_empty 1 2) hcreate
    obtain ⟨calls, -, hcalls, hinto, -, hmoments⟩ := hpart (narrow, { name := "f" }) hplaced
    obtain rfl : calls = [.setLength 3, .write [1, 2, 3]] :=
      (List.cons.inj (hcalls.symm.trans hdeliveries)).2
    have hrefuses : FileSink.Refuses .noSpace [1, 2, 3]
        (Sink.acceptAll (narrow, ({ name := "f" } : FileSink)) [.reset, .setLength 3]) :=
      ⟨by decide +kernel, by decide, _, rfl⟩
    have hshut := (hmoments [.setLength 3] [.write [1, 2, 3]] rfl).2.2.2 _ _ [] [] hrefuses rfl
    have hsink : into narrow = Sink.acceptAll (Sink.acceptAll
        (narrow, ({ name := "f" } : FileSink)) [.reset, .setLength 3]) [.write [1, 2, 3]] :=
      congrArg Prod.snd hinto
    rw [hsink, hshut.files]
    exact ⟨hshut.closed, rfl⟩

end Client

end DeviceHttp
