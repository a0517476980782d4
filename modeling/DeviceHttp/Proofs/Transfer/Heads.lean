import DeviceHttp.Proofs.Transfer.Reply

/-!
# How a response begins

`Opens` says that a stream starts with an accepted status line and some header lines, all of which
can be read. Every response that gets as far as its headers opens with a longest such list of lines
(`Feed.readHeaders_ends`). Behind it stands the empty line, the location that ends the block because
it is to be followed, or something that is no header line. So the first location in a block is what
decides whether a response is followed (`Feed.readResponse_follows_iff`).
-/

namespace DeviceHttp

open Window (crlf HoldsLine)

namespace Window

variable {capacity : Nat} {line line' rest rest' : Bytes}

/-- A stream has one first line. -/
theorem line_unique (hline : ¬ crlf <:+: line) (hline' : ¬ crlf <:+: line')
    (h : line ++ crlf ++ rest = line' ++ crlf ++ rest') : line = line' ∧ rest = rest' := by
  have hcut := around_crlf_iff.2 ⟨h, hline'⟩
  rw [around_crlf_iff.2 ⟨rfl, hline⟩] at hcut
  exact Prod.mk.inj (Option.some.inj hcut)

/-- A line that fits ends in the first bytes of the stream. -/
theorem crlf_infix_take (hline : HoldsLine capacity line) (rest : Bytes) :
    crlf <:+: (line ++ crlf ++ rest).take capacity := by
  rw [take_of_line rest hline.length]
  exact ⟨line, _, rfl⟩

end Window

namespace HeaderBlock

/-- The line names a location that can be kept. -/
def NamesLocation (line : Bytes) (location : String) : Prop :=
  ∃ value, HeaderLine.read? line = some ("Location".toList, value) ∧
    String.ofList value = location ∧ Utf8.fits Url.textCapacity location = true

theorem ne_nil_of_namesLocation {line : Bytes} {location : String}
    (h : NamesLocation line location) : line ≠ [] := by
  rintro rfl
  obtain ⟨value, hread, -, -⟩ := h
  have hnone : HeaderLine.read? [] = none := by decide +kernel
  cases hnone.symm.trans hread

/-- A line that names a location puts it into the block and changes nothing else there. -/
theorem addLine_of_namesLocation {line : Bytes} {location : String}
    (h : NamesLocation line location) (block : HeaderBlock) :
    block.addLine line = .ok { block with location := some location } := by
  obtain ⟨value, hread, rfl, hfits⟩ := h
  rw [addLine, hread]
  dsimp only
  rw [String.ofList_toList, addField, if_neg (by decide), if_neg (by decide), if_neg (by decide),
    if_pos rfl, if_pos hfits]

/-- A location is named by a header line of that name whose value is not too long; how the name is
written does not matter. -/
theorem namesLocation_iff {line : Bytes} {location : String} :
    NamesLocation line location ↔
      HeaderLine.Says line "Location" location ∧ (Utf8.ofString location).length ≤ 256 := by
  constructor
  · rintro ⟨value, hread, rfl, hfits⟩
    exact ⟨by simpa using HeaderLine.read?_eq_some_iff.1 hread, Utf8.fits_iff.1 hfits⟩
  · rintro ⟨hsaid, hfits⟩
    exact ⟨location.toList, HeaderLine.read?_of_said hsaid, String.ofList_toList,
      Utf8.fits_iff.2 hfits⟩

/-- Only the line of a location adds one to a block. -/
theorem namesLocation_of_addLine {block later : HeaderBlock} {line : Bytes} {location : String}
    (h : block.addLine line = .ok later) (hbefore : block.location = none)
    (hafter : later.location = some location) : NamesLocation line location := by
  rcases (adds_of_addLine h).location_cases with hkept | ⟨value, hsaid, hfits, hvalue⟩
  · cases (hkept.trans hbefore).symm.trans hafter
  · obtain rfl := Option.some.inj (hvalue.symm.trans hafter)
    exact namesLocation_iff.2 ⟨hsaid, hfits⟩

/-- Lines that fit and can be read, and what is known behind them. -/
structure Reads (capacity : Nat) (block : HeaderBlock) (ls : List Bytes) (later : HeaderBlock) :
    Prop where
  lines : ∀ line ∈ ls, HoldsLine capacity line ∧ line ≠ []
  fold : ls.foldlM addLine block = .ok later

namespace Reads

variable {capacity : Nat} {block next later : HeaderBlock} {line : Bytes} {ls : List Bytes}

theorem nil (capacity : Nat) (block : HeaderBlock) : Reads capacity block [] block :=
  ⟨by simp, rfl⟩

theorem cons (hline : HoldsLine capacity line) (hne : line ≠ [])
    (hnext : block.addLine line = .ok next) (h : Reads capacity next ls later) :
    Reads capacity block (line :: ls) later := by
  refine ⟨List.forall_mem_cons.2 ⟨⟨hline, hne⟩, h.lines⟩, ?_⟩
  rw [List.foldlM_cons, hnext]
  exact h.fold

theorem location_eq_none (h : Reads capacity block ls later) (hlater : later.location = none) :
    block.location = none :=
  location_eq_none_of_foldlM h.fold hlater

end Reads

/-- No header line is read behind the ones that were, and no empty one: what follows is not a line,
or not one that can be read. -/
def Stuck (capacity : Nat) (block : HeaderBlock) (rest : Bytes) : Prop :=
  ∀ line after, rest = line ++ crlf ++ after → HoldsLine capacity line →
    line ≠ [] ∧ ∃ e, block.addLine line = .error e

/-- The header lines are all there: behind them stands the empty line, or nothing that is read. -/
def Ends (capacity : Nat) (block : HeaderBlock) (rest : Bytes) : Prop :=
  (∃ after, rest = crlf ++ after) ∨ block.Stuck capacity rest

/-- Where the header lines end, no other line is read. -/
theorem Ends.not_line {capacity : Nat} {block next : HeaderBlock} {line rest after : Bytes}
    (h : block.Ends capacity rest) (hrest : rest = line ++ crlf ++ after)
    (hline : HoldsLine capacity line) (hne : line ≠ []) : block.addLine line ≠ .ok next := by
  intro hnext
  rcases h with ⟨after', hafter⟩ | hstuck
  · have hempty : rest = [] ++ crlf ++ after' := hafter
    have hno : ¬ crlf <:+: ([] : Bytes) := by decide
    exact hne (Window.line_unique hno hline.noEnd (hempty.symm.trans hrest)).1.symm
  · obtain ⟨-, e, he⟩ := hstuck line after hrest hline
    cases hnext.symm.trans he

/-- A stream has one list of header lines, up to a place where the block ends. Two readings go along
line by line, and neither can go on where the other one ends. -/
theorem Reads.unique {capacity : Nat} {block later later' : HeaderBlock} {ls ls' : List Bytes}
    {rest rest' : Bytes} (h : Reads capacity block ls later) (h' : Reads capacity block ls' later')
    (hend : later.Ends capacity rest) (hend' : later'.Ends capacity rest')
    (heq : Reply.lines ls ++ rest = Reply.lines ls' ++ rest') :
    later = later' ∧ rest = rest' := by
  induction ls generalizing block ls' with
  | nil =>
    obtain rfl : block = later := Except.ok.inj h.fold
    cases ls' with
    | nil => exact ⟨Except.ok.inj h'.fold, heq⟩
    | cons line ls' =>
      obtain ⟨⟨hline, hne⟩, -⟩ := List.forall_mem_cons.1 h'.lines
      obtain ⟨next, hnext, -⟩ := foldlM_addLine_cons h'.fold
      rw [Reply.lines_cons, List.append_assoc _ (Reply.lines ls')] at heq
      exact absurd hnext (hend.not_line heq hline hne)
  | cons line ls ih =>
    obtain ⟨⟨hline, hne⟩, hrest⟩ := List.forall_mem_cons.1 h.lines
    obtain ⟨next, hnext, hfold⟩ := foldlM_addLine_cons h.fold
    rw [Reply.lines_cons, List.append_assoc _ (Reply.lines ls)] at heq
    cases ls' with
    | nil =>
      obtain rfl : block = later' := Except.ok.inj h'.fold
      exact absurd hnext (hend'.not_line heq.symm hline hne)
    | cons line' ls' =>
      obtain ⟨⟨hline', -⟩, hrest'⟩ := List.forall_mem_cons.1 h'.lines
      obtain ⟨next', hnext', hfold'⟩ := foldlM_addLine_cons h'.fold
      rw [Reply.lines_cons, List.append_assoc _ (Reply.lines ls')] at heq
      obtain ⟨rfl, hbehind⟩ := Window.line_unique hline.noEnd hline'.noEnd heq
      obtain rfl := Except.ok.inj (hnext.symm.trans hnext')
      exact ih ⟨hrest, hfold⟩ ⟨hrest', hfold'⟩ hbehind

end HeaderBlock

/-- A response starts with a status line of this code. -/
def Reports (capacity : Nat) (bytes : Bytes) (code : Nat) : Prop :=
  ∃ line rest, HoldsLine capacity line ∧ StatusLine.parse line = .ok code ∧
    bytes = line ++ crlf ++ rest

/-- What the status is behind a response: the code that it reports, or else what it was before. -/
inductive StatusAfter (capacity : Nat) (bytes : Bytes) (before : Nat) : Nat → Prop
  | reported {code : Nat} (reports : Reports capacity bytes code) :
    StatusAfter capacity bytes before code
  | kept (silent : ∀ code, ¬ Reports capacity bytes code) :
    StatusAfter capacity bytes before before

theorem not_reports_nil (capacity code : Nat) : ¬ Reports capacity [] code := by
  rintro ⟨line, rest, -, -, hbytes⟩
  simp [crlf] at hbytes

/-- A response starts with a status line that is accepted and these header lines. -/
structure Opens (capacity : Nat) (bytes : Bytes) (code : Nat) (ls : List Bytes)
    (block : HeaderBlock) (rest : Bytes) : Prop where
  accepted : Client.accepts code = true
  reads : HeaderBlock.Reads capacity {} ls block
  status : ∃ line, HoldsLine capacity line ∧ StatusLine.parse line = .ok code ∧
    bytes = line ++ crlf ++ (Reply.lines ls ++ rest)

/-- A response starts with one list of header lines. -/
theorem Opens.unique {capacity code code' : Nat} {bytes rest rest' : Bytes} {ls ls' : List Bytes}
    {block block' : HeaderBlock} (h : Opens capacity bytes code ls block rest)
    (h' : Opens capacity bytes code' ls' block' rest') (hend : block.Ends capacity rest)
    (hend' : block'.Ends capacity rest') : block = block' ∧ rest = rest' := by
  obtain ⟨line, hline, -, hbytes⟩ := h.status
  obtain ⟨line', hline', -, hbytes'⟩ := h'.status
  obtain ⟨-, hlines⟩ := Window.line_unique hline.noEnd hline'.noEnd (hbytes.symm.trans hbytes')
  exact h.reads.unique h'.reads hend hend' hlines

/-- A response names a location, and it can be read up to there. -/
def LeadsTo (capacity : Nat) (bytes : Bytes) (location : String) : Prop :=
  ∃ code ls block line rest, Opens capacity bytes code ls block (line ++ crlf ++ rest) ∧
    block.location = none ∧ HoldsLine capacity line ∧ HeaderBlock.NamesLocation line location

theorem Opens.reports {capacity code : Nat} {bytes rest : Bytes} {ls : List Bytes}
    {block : HeaderBlock} (h : Opens capacity bytes code ls block rest) :
    Reports capacity bytes code := by
  obtain ⟨line, hline, hcode, hbytes⟩ := h.status
  exact ⟨line, _, hline, hcode, hbytes⟩

theorem not_opens_nil {capacity code : Nat} {rest : Bytes} {ls : List Bytes}
    {block : HeaderBlock} : ¬ Opens capacity [] code ls block rest :=
  fun h => not_reports_nil capacity code h.reports

theorem LeadsTo.reports {capacity : Nat} {bytes : Bytes} {location : String}
    (h : LeadsTo capacity bytes location) : ∃ code, Reports capacity bytes code := by
  obtain ⟨code, ls, block, line, rest, hopens, -⟩ := h
  exact ⟨code, hopens.reports⟩

theorem not_leadsTo_nil (capacity : Nat) (location : String) : ¬ LeadsTo capacity [] location := by
  intro h
  obtain ⟨code, hreports⟩ := h.reports
  exact not_reports_nil capacity code hreports

namespace Feed

variable {f : Feed} {follow : Bool}

/-! ## Blocks of headers -/

/-- What stands behind the header lines that were read, and what it leads to. -/
inductive HeaderEnd (follow : Bool) (later : HeaderBlock) (f : Feed) (rest : Bytes) :
    Outcome Exchange.Next → Prop
  /-- The empty line. -/
  | blank {after : Bytes} (behind : rest = crlf ++ after) :
    HeaderEnd follow later f rest (.ok (.body later.framing) (deliverAll later.announcement
      { f with bytes := after, location := later.location.or f.location }))
  /-- A location that is followed. -/
  | redirect {line after : Bytes} {location : String} (followed : follow = true)
    (fits : HoldsLine f.capacity line) (names : HeaderBlock.NamesLocation line location)
    (behind : rest = line ++ crlf ++ after) :
    HeaderEnd follow later f rest (.ok (.redirect location)
      { f with bytes := after, location := some location })
  /-- No header line. -/
  | fault {e : TransferError} {g : Feed} (stuck : later.Stuck f.capacity rest)
    (record : g.toRecord = { f.toRecord with location := later.location.or f.location }) :
    HeaderEnd follow later f rest (.error e g)

/-- What stands behind one line more stands behind the lines in front of it too. -/
theorem HeaderEnd.later {next later : HeaderBlock} {tail rest : Bytes}
    {o : Outcome Exchange.Next} (hlater : later.location = none → next.location = none)
    (h : HeaderEnd follow later { f with bytes := tail, location := next.location.or f.location }
      rest o) : HeaderEnd follow later f rest o := by
  have hlocation : later.location.or (next.location.or f.location)
      = later.location.or f.location := by
    cases hl : later.location with
    | none => rw [hlater hl, Option.none_or]
    | some location => rfl
  cases h with
  | blank behind =>
    have hend : HeaderEnd follow later f rest _ := .blank behind
    rw [← hlocation] at hend
    exact hend
  | redirect followed fits names behind => exact .redirect followed fits names behind
  | fault stuck record => exact .fault stuck (hlocation ▸ record)

/-- What stands at the start of a block whose next line is not a header line. -/
theorem headerEnd_of_error {block : HeaderBlock} {e : TransferError}
    (hkept : block.location.or f.location = f.location) (hstuck : block.Stuck f.capacity f.bytes)
    (h : f.readHeaders follow block = .error e f) :
    HeaderEnd follow block f f.bytes (f.readHeaders follow block) := by
  rw [h]
  exact .fault hstuck (by rw [hkept])

/-- An empty line in front ends the block: the response has all its header lines, and none of them
is followed. -/
theorem headerEnd_of_blank {block : HeaderBlock} {rest : Bytes}
    (hkept : block.location.or f.location = f.location) (hblank : HoldsLine f.capacity [])
    (hbytes : f.bytes = crlf ++ rest) :
    HeaderEnd follow block f f.bytes (f.readHeaders follow block) := by
  have hempty : f.bytes = [] ++ crlf ++ rest := hbytes
  have hconsume : f.consume 2 = { f with bytes := rest } := consume_of_line hempty
  rw [readHeaders_blank (readLine_of_line hblank hempty), hconsume]
  have hend : HeaderEnd follow block f f.bytes _ := .blank hbytes
  rw [hkept] at hend
  exact hend

/-- The first location of a block that is followed ends it, whatever comes behind that line. -/
theorem headerEnd_of_location {block next : HeaderBlock} {line rest : Bytes} {location : String}
    (hfollow : follow = true) (hline : HoldsLine f.capacity line)
    (hbytes : f.bytes = line ++ crlf ++ rest) (hbefore : block.location = none)
    (hnext : block.addLine line = .ok next) (hlocation : next.location = some location) :
    HeaderEnd follow block f f.bytes (f.readHeaders follow block) := by
  subst hfollow
  have hnames := HeaderBlock.namesLocation_of_addLine hnext hbefore hlocation
  have hlength : line.length ≠ 0 := by
    intro h
    exact HeaderBlock.ne_nil_of_namesLocation hnames (List.length_eq_zero_iff.1 h)
  rw [← front_of_line hbytes] at hnext
  rw [readHeaders_redirect (readLine_of_line hline hbytes) hlength hnext hlocation,
    consume_of_line hbytes]
  exact .redirect rfl hline hnames hbytes

/-- A block of headers is a list of lines that can be read, and an end. In a block whose locations
are followed no line but the last one names one. -/
theorem readHeaders_ends (follow : Bool) (block : HeaderBlock) (f : Feed)
    (hkept : block.location.or f.location = f.location)
    (hstart : follow = true → block.location = none) :
    ∃ ls later rest, HeaderBlock.Reads f.capacity block ls later ∧
      (follow = true → later.location = none) ∧ f.bytes = Reply.lines ls ++ rest ∧
      HeaderEnd follow later f rest (f.readHeaders follow block) := by
  induction hn : f.bytes.length using Nat.strongRecOn generalizing f block with
  | ind n ih =>
    subst hn
    have hhere (h : HeaderEnd follow block f f.bytes (f.readHeaders follow block)) :
        ∃ ls later rest, HeaderBlock.Reads f.capacity block ls later ∧
          (follow = true → later.location = none) ∧ f.bytes = Reply.lines ls ++ rest ∧
          HeaderEnd follow later f rest (f.readHeaders follow block) :=
      ⟨[], block, f.bytes, .nil _ _, hstart, rfl, h⟩
    rcases Window.line_cases f.capacity f.bytes with
      ⟨line, rest, hline, hbytes⟩ | ⟨hno, hlong⟩ | ⟨hno, hshort⟩
    · by_cases hne : line = []
      · subst hne
        exact hhere (headerEnd_of_blank hkept hline hbytes)
      · cases hnext : block.addLine line with
        | error e =>
          have hlength : line.length ≠ 0 := by
            intro h
            exact hne (List.length_eq_zero_iff.1 h)
          refine hhere (headerEnd_of_error hkept ?_ (readHeaders_malformed
            (readLine_of_line hline hbytes) hlength ((front_of_line hbytes).symm ▸ hnext)))
          intro line' after heq hline'
          obtain ⟨rfl, -⟩ := Window.line_unique hline.noEnd hline'.noEnd (hbytes.symm.trans heq)
          exact ⟨hne, e, hnext⟩
        | ok next =>
          by_cases hgo : follow = true → next.location = none
          · rw [readHeaders_cons hline hne hnext hgo hbytes]
            have hshorter : rest.length < f.bytes.length := by
              rw [hbytes]
              simp only [crlf, List.length_append, List.length_cons, List.length_nil]
              omega
            obtain ⟨ls, later, behind, hreads, hstay, hlines, hend⟩ :=
              ih rest.length hshorter next
                { f with bytes := rest, location := next.location.or f.location }
                (by cases next.location <;> rfl) hgo rfl
            refine ⟨line :: ls, later, behind, hreads.cons hline hne hnext, hstay, ?_,
              hend.later hreads.location_eq_none⟩
            have hlines : rest = Reply.lines ls ++ behind := hlines
            rw [hbytes, Reply.lines_cons, List.append_assoc _ (Reply.lines ls), ← hlines]
          · obtain ⟨hfollow, hsome⟩ := Classical.not_imp.1 hgo
            obtain ⟨location, hlocation⟩ := Option.ne_none_iff_exists'.1 hsome
            exact hhere (headerEnd_of_location hfollow hline hbytes (hstart hfollow) hnext
              hlocation)
    · refine hhere (headerEnd_of_error hkept ?_ (readHeaders_of_error (readLine_of_long hno hlong)))
      intro line after heq hline
      exact absurd (heq ▸ Window.crlf_infix_take hline after) hno
    · refine hhere (headerEnd_of_error hkept ?_ (readHeaders_of_error (readLine_of_end hno hshort)))
      intro line after heq hline
      exact absurd ⟨line, after, heq.symm⟩ hno

/-! ## Responses -/

/-- What a response comes to, up to its body. -/
inductive ResponseEnd (follow : Bool) (f : Feed) : Outcome Client.Step → Prop
  /-- There is no status line, or none that is accepted. -/
  | refused {e : TransferError} {g : Feed} (status : Nat)
    (record : g.toRecord = { f.toRecord with status })
    (seen : StatusAfter f.capacity f.bytes f.status status)
    (unopened : ∀ code ls block rest, ¬ Opens f.capacity f.bytes code ls block rest) :
    ResponseEnd follow f (.error e g)
  /-- The headers end in something that is no header line. -/
  | fault {code : Nat} {ls : List Bytes} {block : HeaderBlock} {rest : Bytes} {e : TransferError}
    {g : Feed} (opens : Opens f.capacity f.bytes code ls block rest)
    (stay : follow = true → block.location = none) (stuck : block.Stuck f.capacity rest)
    (record : g.toRecord
      = { f.toRecord with status := code, location := block.location.or f.location }) :
    ResponseEnd follow f (.error e g)
  /-- The headers end at a location that is followed. -/
  | redirect {code : Nat} {location : String} {g : Feed} (followed : follow = true)
    (leads : LeadsTo f.capacity f.bytes location) (reports : Reports f.capacity f.bytes code)
    (record : g.toRecord = { f.toRecord with status := code, location := some location }) :
    ResponseEnd follow f (.ok (.redirect location) g)
  /-- There is a body, which is what is left to read. -/
  | body {code : Nat} {ls : List Bytes} {block : HeaderBlock} {content : Bytes} {g : Feed}
    (opens : Opens f.capacity f.bytes code ls block (crlf ++ content))
    (stay : follow = true → block.location = none)
    (start : g = deliverAll block.announcement
      { f with bytes := content, status := code, location := block.location.or f.location }) :
    ResponseEnd follow f (andThen (g.readBody block.framing) fun _ g => .ok .complete g)

/-- Behind the status line of a response that opens come its headers. -/
theorem readResponse_of_opens {code : Nat} {ls : List Bytes} {block : HeaderBlock} {rest : Bytes}
    (h : Opens f.capacity f.bytes code ls block rest) :
    f.readResponse follow = andThen
      (readHeaders follow {} { f with bytes := Reply.lines ls ++ rest, status := code }) finish := by
  obtain ⟨haccepted, -, line, hline, hcode, hbytes⟩ := h
  exact readResponse_of_line hline hcode haccepted hbytes

/-- Behind an accepted status line the response ends in the way in which its header block does. -/
theorem responseEnd_of_line (follow : Bool) {line rest : Bytes} {code : Nat}
    (hline : HoldsLine f.capacity line) (hcode : StatusLine.parse line = .ok code)
    (haccepted : Client.accepts code = true) (hbytes : f.bytes = line ++ crlf ++ rest) :
    ResponseEnd follow f (f.readResponse follow) := by
  obtain ⟨ls, block, behind, hreads, hstay, hlines, hend⟩ := readHeaders_ends follow {}
    { f with bytes := rest, status := code } (Option.none_or) (fun _ => rfl)
  have hlines : rest = Reply.lines ls ++ behind := hlines
  have hopens : Opens f.capacity f.bytes code ls block behind :=
    ⟨haccepted, hreads, line, hline, hcode, hlines ▸ hbytes⟩
  rw [readResponse_of_line hline hcode haccepted hbytes]
  generalize readHeaders follow {} { f with bytes := rest, status := code } = o at hend
  cases hend with
  | blank behind =>
    subst behind
    exact .body hopens hstay rfl
  | redirect followed fits names behind =>
    subst behind
    exact .redirect followed ⟨code, ls, block, _, _, hopens, hstay followed, fits, names⟩
      hopens.reports rfl
  | fault stuck record => exact .fault hopens hstay stuck record

/-- Every response ends in one of these ways. The status line decides first, then the header block,
and the body only where no location is followed. -/
theorem readResponse_ends (follow : Bool) (f : Feed) :
    ResponseEnd follow f (f.readResponse follow) := by
  have hstatus {e : TransferError} (h : f.readLine = .error e f)
      (hno : ∀ line rest, HoldsLine f.capacity line → f.bytes ≠ line ++ crlf ++ rest) :
      ResponseEnd follow f (f.readResponse follow) := by
    have hread : f.readResponse follow = .error e f := by
      rw [readResponse, readStatus, h]
      rfl
    rw [hread]
    have hsilent (code : Nat) : ¬ Reports f.capacity f.bytes code := by
      rintro ⟨line, rest, hline, -, hbytes⟩
      exact hno line rest hline hbytes
    exact .refused f.status rfl (.kept hsilent) fun code _ _ _ hopens =>
      hsilent code hopens.reports
  rcases Window.line_cases f.capacity f.bytes with
    ⟨line, rest, hline, hbytes⟩ | ⟨hno, hlong⟩ | ⟨hno, hshort⟩
  · have honly {code : Nat} (h : Reports f.capacity f.bytes code) :
        StatusLine.parse line = .ok code := by
      obtain ⟨line', rest', hline', hcode, hbytes'⟩ := h
      obtain ⟨rfl, -⟩ := Window.line_unique hline.noEnd hline'.noEnd (hbytes.symm.trans hbytes')
      exact hcode
    cases hcode : StatusLine.parse line with
    | error e =>
      have hread : f.readResponse follow = .error e f := by
        rw [readResponse, readStatus, readLine_of_line hline hbytes]
        show andThen (takeStatus line.length f) _ = _
        rw [takeStatus, front_of_line hbytes, hcode]
        rfl
      have hsilent (code : Nat) : ¬ Reports f.capacity f.bytes code := by
        intro hreports
        cases hcode.symm.trans (honly hreports)
      rw [hread]
      exact .refused f.status rfl (.kept hsilent) fun code _ _ _ hopens =>
        hsilent code hopens.reports
    | ok code =>
      by_cases haccepted : Client.accepts code = true
      · exact responseEnd_of_line follow hline hcode haccepted hbytes
      · have hread : f.readResponse follow
            = .error (.status code) { f with bytes := rest, status := code } := by
          rw [readResponse, readStatus_of_line hline hcode hbytes]
          exact if_neg haccepted
        rw [hread]
        refine .refused code rfl (.reported ⟨line, rest, hline, hcode, hbytes⟩) ?_
        intro code' ls block behind hopens
        obtain rfl := Except.ok.inj (hcode.symm.trans (honly hopens.reports))
        exact haccepted hopens.accepted
  · apply hstatus (readLine_of_long hno hlong)
    intro line rest hline hbytes
    exact hno (hbytes ▸ Window.crlf_infix_take hline rest)
  · apply hstatus (readLine_of_end hno hshort)
    intro line rest hline hbytes
    exact hno ⟨line, rest, hbytes.symm⟩

/-- Lines that are read, and the location behind them: the block is left at that line, since none of
the lines before it names one. -/
theorem readHeaders_of_location {block later : HeaderBlock} {ls : List Bytes} {line rest : Bytes}
    {location : String} (hreads : HeaderBlock.Reads f.capacity block ls later)
    (hlater : later.location = none) (hline : HoldsLine f.capacity line)
    (hnames : HeaderBlock.NamesLocation line location)
    (hbytes : f.bytes = Reply.lines ls ++ (line ++ crlf ++ rest)) :
    ∃ g, f.readHeaders true block = .ok (.redirect location) g := by
  induction ls generalizing f block with
  | nil =>
    have hbytes : f.bytes = line ++ crlf ++ rest := hbytes
    have hlength : line.length ≠ 0 := by
      intro h
      exact HeaderBlock.ne_nil_of_namesLocation hnames (List.length_eq_zero_iff.1 h)
    have hnext := HeaderBlock.addLine_of_namesLocation hnames block
    rw [← front_of_line hbytes] at hnext
    exact ⟨_, readHeaders_redirect (readLine_of_line hline hbytes) hlength hnext rfl⟩
  | cons first ls ih =>
    obtain ⟨⟨hfirst, hne⟩, hrest⟩ := List.forall_mem_cons.1 hreads.lines
    obtain ⟨next, hnext, hfold⟩ := HeaderBlock.foldlM_addLine_cons hreads.fold
    have hreads : HeaderBlock.Reads f.capacity next ls later := ⟨hrest, hfold⟩
    rw [Reply.lines_cons, List.append_assoc _ (Reply.lines ls)] at hbytes
    rw [readHeaders_cons hfirst hne hnext (fun _ => hreads.location_eq_none hlater) hbytes]
    exact ih (f := { f with
      bytes := Reply.lines ls ++ (line ++ crlf ++ rest),
      location := next.location.or f.location }) hreads hline rfl

/-- A response is followed exactly if it leads to a location: its status is accepted, and all its
lines up to the first location can be read. -/
theorem readResponse_follows_iff {location : String} :
    (∃ g, f.readResponse true = .ok (.redirect location) g) ↔
      LeadsTo f.capacity f.bytes location := by
  constructor
  · rintro ⟨g, hg⟩
    have hend := readResponse_ends true f
    rw [hg] at hend
    generalize ho : (EStateM.Result.ok (.redirect location) g : Outcome Client.Step) = o at hend
    cases hend with
    | refused status record seen unopened => cases ho
    | fault opens stay stuck record => cases ho
    | redirect followed leads reports record =>
      cases ho
      exact leads
    | body opens stay start =>
      obtain ⟨u, k, -, hk⟩ := ok_of_andThen ho.symm
      cases hk
  · rintro ⟨code, ls, block, line, rest, hopens, hnone, hline, hnames⟩
    obtain ⟨g, hg⟩ := readHeaders_of_location
      (f := { f with bytes := Reply.lines ls ++ (line ++ crlf ++ rest), status := code })
      hopens.reads hnone hline hnames rfl
    rw [readResponse_of_opens hopens, hg]
    exact ⟨g, rfl⟩

end Feed

end DeviceHttp
