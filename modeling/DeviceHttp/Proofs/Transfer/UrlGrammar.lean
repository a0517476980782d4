import DeviceHttp.Transfer.Url

/-!
# The grammar of a URL

`Url.Cuts` says where a text is cut into the parts of a URL: at its first `://`, where the authority
behind that ends, and where the fragment starts. `Url.Spells` adds what each part must be and which
field it becomes. The parser accepts exactly the texts that spell a URL (`Url.parse_grammar`), and
the text that it is displayed with is one of them, so URLs are equal exactly if they are displayed
alike (`Url.parse_displayed`).
-/

namespace DeviceHttp.Url

/-! ## The grammar -/

/-- The separator of scheme and authority. -/
def colonSlashSlash : List Char :=
  [':', '/', '/']

/-- The parts of a text, each as short as it can be at its place. -/
structure Cuts (cs scheme authority target fragment : List Char) : Prop where
  whole : cs = scheme ++ colonSlashSlash ++ (authority ++ target ++ fragment)
  first : ∀ x y, cs = x ++ colonSlashSlash ++ y → scheme.length ≤ x.length
  inAuthority : ∀ c ∈ authority, c ≠ '/' ∧ c ≠ '?' ∧ c ≠ '#'
  startsTarget : ∀ c ∈ target.head?, c = '/' ∨ c = '?'
  inTarget : '#' ∉ target
  startsFragment : ∀ c ∈ fragment.head?, c = '#'

/-- A number as a port; zero stands for the default. -/
def Names (n : Nat) (port : UInt16) : Prop :=
  n < 65536 ∧ port.toNat = if n = 0 then 80 else n

/-- An authority is a host, or a host, a colon and the digits of a port. -/
inductive Splits : List Char → List Char → UInt16 → Prop
  | host {host : List Char} (plain : ':' ∉ host) : Splits host host 80
  | hostPort {host digits : List Char} {port : UInt16} (plain : ':' ∉ host) (some : digits ≠ [])
    (digit : ∀ c ∈ digits, c.isDigit = true) (names : Names (Decimal.value digits) port) :
    Splits (host ++ ':' :: digits) host port

/-- A request target, and the same with a slash in front. -/
inductive Roots : List Char → List Char → Prop
  | slash {cs : List Char} : Roots ('/' :: cs) ('/' :: cs)
  | missing {cs : List Char} (none : cs.head? ≠ some '/') : Roots cs ('/' :: cs)

/-- Every part within its capacity, and a host that is not empty. -/
structure Fits (url : Url) : Prop where
  scheme : (Utf8.ofString url.scheme).length ≤ 8
  named : 1 ≤ (Utf8.ofString url.host).length
  host : (Utf8.ofString url.host).length ≤ 64
  path : (Utf8.ofString url.path).length ≤ 256

/-- The characters are a text of this URL. -/
def Spells (cs : List Char) (url : Url) : Prop :=
  ∃ authority target fragment, Cuts cs url.scheme.toList authority target fragment ∧
    Splits authority url.host.toList url.port ∧ Roots target url.path.toList ∧ Fits url

/-! ## The parser against the grammar -/

theorem cuts_iff {cs scheme authority target : List Char} :
    (∃ fragment, Cuts cs scheme authority target fragment) ↔
      ∃ rest, Cut.around colonSlashSlash cs = some (scheme, rest) ∧
        (rest.takeWhile (· ≠ '#')).takeWhile inAuthority = authority ∧
        (rest.takeWhile (· ≠ '#')).dropWhile inAuthority = target := by
  constructor
  · rintro ⟨fragment, h⟩
    refine ⟨_, Cut.around_eq_some_iff.2 ⟨h.whole, h.first⟩, ?_⟩
    have hrest : (authority ++ target ++ fragment).takeWhile (· ≠ '#') = authority ++ target := by
      refine (Cut.while_append (fun c hc => ?_) fun c hc => ?_).1
      · rcases List.mem_append.1 hc with hc | hc
        · simpa using (h.inAuthority c hc).2.2
        · simpa using fun hsharp : c = '#' => h.inTarget (hsharp ▸ hc)
      · simpa using h.startsFragment c hc
    rw [hrest]
    refine Cut.while_append (fun c hc => ?_) fun c hc => ?_
    · obtain ⟨hslash, hquestion, -⟩ := h.inAuthority c hc
      simp [inAuthority, hslash, hquestion]
    · rcases h.startsTarget c hc with rfl | rfl <;> rfl
  · rintro ⟨rest, haround, rfl, rfl⟩
    obtain ⟨hwhole, hfirst⟩ := Cut.around_eq_some_iff.1 haround
    have hbefore : ∀ c ∈ rest.takeWhile (· ≠ '#'), c ≠ '#' := fun c hc => by
      simpa using List.all_eq_true.1 List.all_takeWhile c hc
    refine ⟨rest.dropWhile (· ≠ '#'), ⟨?_, hfirst, fun c hc => ?_, fun c hc => ?_, ?_, fun c hc => ?_⟩⟩
    · rw [List.takeWhile_append_dropWhile, List.takeWhile_append_dropWhile, ← hwhole]
    · have hin := List.all_eq_true.1 List.all_takeWhile c hc
      simp only [inAuthority, Bool.and_eq_true, decide_eq_true_eq] at hin
      exact ⟨hin.1, hin.2, hbefore c ((List.takeWhile_prefix _).mem hc)⟩
    · have hnot := List.head?_dropWhile_not inAuthority (rest.takeWhile (· ≠ '#'))
      rw [Option.mem_def.1 hc] at hnot
      simpa [inAuthority, Decidable.or_iff_not_imp_left] using hnot
    · exact fun hmem => hbefore '#' ((List.dropWhile_suffix _).mem hmem) rfl
    · have hnot := List.head?_dropWhile_not (fun c : Char => decide (c ≠ '#')) rest
      rw [Option.mem_def.1 hc] at hnot
      simpa using hnot

theorem readPort_eq_some_iff {cs : List Char} {port : UInt16} :
    readPort cs = some port ↔
      cs ≠ [] ∧ (∀ c ∈ cs, c.isDigit = true) ∧ Names (Decimal.value cs) port := by
  have hport : ∀ n, n < 65536 → (UInt16.ofNat n).toNat = n := fun n hn =>
    UInt16.toNat_ofNat_of_lt' hn
  unfold readPort Names
  rw [Option.map_eq_some_iff]
  constructor
  · rintro ⟨n, hdigits, rfl⟩
    obtain ⟨hne, hdigit, hlt, rfl⟩ := Decimal.digits?_eq_some_iff.1 hdigits
    refine ⟨hne, hdigit, hlt, ?_⟩
    split
    · rfl
    · exact hport _ hlt
  · rintro ⟨hne, hdigit, hlt, hnames⟩
    refine ⟨_, Decimal.digits?_eq_some_iff.2 ⟨hne, hdigit, hlt, rfl⟩, UInt16.toNat_inj.1 ?_⟩
    rw [hnames]
    split
    · rfl
    · exact hport _ hlt

theorem readAuthority_eq_some_iff {cs host : List Char} {port : UInt16} :
    readAuthority cs = some (host, port) ↔ Splits cs host port := by
  constructor
  · intro h
    unfold readAuthority at h
    cases hcut : Cut.around [':'] cs with
    | none =>
      rw [hcut] at h
      obtain ⟨rfl, rfl⟩ := Prod.mk.inj (Option.some.inj h)
      exact .host (Cut.around_singleton_eq_none_iff.1 hcut)
    | some parts =>
      rw [hcut] at h
      obtain ⟨p, hp, heq⟩ := Option.map_eq_some_iff.1 h
      obtain ⟨rfl, rfl⟩ := Prod.mk.inj heq
      obtain ⟨hne, hdigit, hnames⟩ := readPort_eq_some_iff.1 hp
      obtain ⟨rfl, hplain⟩ := Cut.around_singleton_eq_some_iff.1 hcut
      exact .hostPort hplain hne hdigit hnames
  · rintro (hplain | ⟨hplain, hne, hdigit, hnames⟩)
    · rw [readAuthority, Cut.around_singleton_eq_none_iff.2 hplain]
      rfl
    · rw [readAuthority, Cut.around_of_notMem hplain]
      exact Option.map_eq_some_iff.2 ⟨port, readPort_eq_some_iff.2 ⟨hne, hdigit, hnames⟩, rfl⟩

theorem rooted_eq_iff {target path : List Char} : rooted target = path ↔ Roots target path := by
  constructor
  · rintro rfl
    unfold rooted
    split
    · exact .slash
    · next hslash =>
      refine .missing fun hhead => ?_
      cases target with
      | nil => cases hhead
      | cons c cs => exact hslash cs (congrArg (· :: cs) (Option.some.inj hhead))
  · rintro (⟨⟩ | ⟨hnone⟩)
    · rfl
    · unfold rooted
      split
      · exact absurd rfl hnone
      · rfl

theorem fits_iff {url : Url} :
    Fits url ↔ url.host.toList ≠ [] ∧ Utf8.fits schemeCapacity url.scheme ∧
      Utf8.fits hostCapacity url.host ∧ Utf8.fits pathCapacity url.path := by
  have hempty : 1 ≤ (Utf8.ofString url.host).length ↔ url.host.toList ≠ [] := by
    rw [Nat.one_le_iff_ne_zero, ne_eq, List.length_eq_zero_iff]
    refine not_congr ⟨fun h => Utf8.encode_injective h, fun h => ?_⟩
    rw [Utf8.ofString, h, Utf8.encode_nil]
  rw [Utf8.fits_iff, Utf8.fits_iff, Utf8.fits_iff, ← hempty]
  constructor
  · exact fun h => ⟨h.named, h.scheme, h.host, h.path⟩
  · rintro ⟨hnamed, hscheme, hhost, hpath⟩
    exact ⟨hscheme, hnamed, hhost, hpath⟩

theorem ofParts?_eq_some_iff {scheme host path : List Char} {port : UInt16} {url : Url} :
    ofParts? scheme host port path = some url ↔
      (scheme = url.scheme.toList ∧ host = url.host.toList ∧ port = url.port ∧
        path = url.path.toList) ∧ Fits url := by
  unfold ofParts?
  rw [Option.ite_none_right_eq_some, fits_iff]
  simp only [Bool.and_eq_true, decide_eq_true_eq, and_assoc]
  constructor
  · rintro ⟨hhost, hscheme, hfits, hpath, heq⟩
    obtain rfl := Option.some.inj heq
    simp only [String.toList_ofList, true_and]
    exact ⟨hhost, hscheme, hfits, hpath⟩
  · rintro ⟨rfl, rfl, rfl, rfl, hhost, hscheme, hfits, hpath⟩
    simp only [String.ofList_toList, and_true]
    exact ⟨hhost, hscheme, hfits, hpath⟩

/-- The parser finds a URL exactly in the texts of that URL. One direction follows the parser step
by step, the other one the parts of the text. -/
theorem read?_eq_some_iff {cs : List Char} {url : Url} : read? cs = some url ↔ Spells cs url := by
  unfold read?
  rw [Option.bind_eq_some_iff]
  constructor
  · rintro ⟨⟨scheme, rest⟩, haround, h⟩
    obtain ⟨⟨host, port⟩, hauthority, hparts⟩ := Option.bind_eq_some_iff.1 h
    obtain ⟨⟨rfl, rfl, rfl, hpath⟩, hfits⟩ := ofParts?_eq_some_iff.1 hparts
    obtain ⟨fragment, hcuts⟩ := cuts_iff.2 ⟨rest, haround, rfl, rfl⟩
    exact ⟨_, _, fragment, hcuts, readAuthority_eq_some_iff.1 hauthority, rooted_eq_iff.1 hpath,
      hfits⟩
  · rintro ⟨authority, target, fragment, hcuts, hsplits, hroots, hfits⟩
    obtain ⟨rest, haround, rfl, rfl⟩ := cuts_iff.1 ⟨fragment, hcuts⟩
    refine ⟨_, haround, ?_⟩
    dsimp only
    rw [readAuthority_eq_some_iff.2 hsplits, Option.bind_some, rooted_eq_iff.2 hroots]
    exact ofParts?_eq_some_iff.2 ⟨⟨rfl, rfl, rfl, rfl⟩, hfits⟩

theorem parse_eq_ok_iff {text : String} {url : Url} :
    parse text = .ok url ↔ Spells text.toList url := by
  rw [← read?_eq_some_iff, parse]
  cases read? text.toList <;> simp

/-- Parsing succeeds exactly on the texts that the grammar has for a URL, and with that URL; a part
that does not fit is never cut short. -/
theorem parse_grammar (text : String) :
    (∀ url, parse text = .ok url ↔ Spells text.toList url) ∧
      (parse text = .error .malformedUrl ↔ ∀ url, ¬ Spells text.toList url) := by
  refine ⟨fun url => parse_eq_ok_iff, fun herror url hspells => ?_, fun hnone => ?_⟩
  · rw [parse_eq_ok_iff.2 hspells] at herror
    cases herror
  · cases hparse : parse text with
    | ok url => exact absurd (parse_eq_ok_iff.1 hparse) (hnone url)
    | error e => rw [error_of_parse hparse]

/-! ## The text of a URL -/

/-- The authority that a URL is displayed with. -/
def shownAuthority (url : Url) : List Char :=
  url.host.toList ++ if url.port = defaultPort then [] else ':' :: Decimal.render url.port.toNat

theorem toList_render (url : Url) :
    url.render.toList = url.scheme.toList ++ colonSlashSlash ++
      (url.shownAuthority ++ url.path.toList ++ []) := by
  unfold render shownAuthority Decimal.text
  by_cases hport : url.port = defaultPort <;>
    simp [hport, String.toList_append, String.toList_ofList, colonSlashSlash]

/-- Any authority behind the separator leaves the cut where it was. -/
theorem Cuts.shortest {cs scheme authority target fragment : List Char}
    (h : Cuts cs scheme authority target fragment) (rest : List Char) :
    ∀ x y, scheme ++ colonSlashSlash ++ rest = x ++ colonSlashSlash ++ y →
      scheme.length ≤ x.length := by
  have hcut : Cut.around colonSlashSlash (scheme ++ colonSlashSlash ++ []) = some (scheme, []) := by
    refine Cut.around_eq_some_iff.2 ⟨rfl, fun x y hxy => ?_⟩
    refine h.first x (y ++ (authority ++ target ++ fragment)) ?_
    rw [List.append_nil] at hxy
    rw [h.whole, hxy, List.append_assoc]
  have hlater := Cut.around_append_right hcut rest
  rw [List.append_nil, List.nil_append] at hlater
  exact (Cut.around_eq_some_iff.1 hlater).2

theorem Splits.plain {authority host : List Char} {port : UInt16}
    (h : Splits authority host port) : ':' ∉ host ∧ host ⊆ authority := by
  cases h with
  | host hplain => exact ⟨hplain, List.Subset.refl _⟩
  | hostPort hplain => exact ⟨hplain, List.subset_append_left _ _⟩

theorem Splits.port_ne_zero {authority host : List Char} {port : UInt16}
    (h : Splits authority host port) : port.toNat ≠ 0 := by
  cases h with
  | host => decide
  | hostPort _ _ _ hnames =>
    rw [hnames.2]
    split <;> omega

theorem splits_shown {url : Url} (hplain : ':' ∉ url.host.toList) (hport : url.port.toNat ≠ 0) :
    Splits url.shownAuthority url.host.toList url.port := by
  unfold shownAuthority
  split
  · next hdefault =>
    rw [hdefault, List.append_nil]
    exact .host hplain
  · refine .hostPort hplain (Decimal.render_ne_nil _) ?_ ?_
    · exact List.all_eq_true.1 (Decimal.all_isDigit_render _)
    · rw [Decimal.value_render]
      exact ⟨url.port.toNat_lt, (if_neg hport).symm⟩

/-- No character that ends an authority is in the one that is displayed. -/
theorem inAuthority_shown {url : Url} (hhost : ∀ c ∈ url.host.toList, c ≠ '/' ∧ c ≠ '?' ∧ c ≠ '#') :
    ∀ c ∈ url.shownAuthority, c ≠ '/' ∧ c ≠ '?' ∧ c ≠ '#' := by
  intro c hc
  rcases List.mem_append.1 hc with hc | hc
  · exact hhost c hc
  split at hc
  · cases hc
  rcases List.mem_cons.1 hc with rfl | hc
  · decide
  have hdigit := List.all_eq_true.1 (Decimal.all_isDigit_render _) c hc
  refine ⟨?_, ?_, ?_⟩ <;>
    · rintro rfl
      cases hdigit

theorem Roots.path {target path : List Char} (h : Roots target path) :
    ∃ cs, path = '/' :: cs ∧ ∀ c ∈ cs, c ∈ target := by
  cases h with
  | slash => exact ⟨_, rfl, fun c hc => List.mem_cons_of_mem _ hc⟩
  | missing => exact ⟨_, rfl, fun c hc => hc⟩

/-- A URL is displayed as one of its own texts, the one without a port where the port is the
default, and without a fragment. -/
theorem Spells.render {cs : List Char} {url : Url} (h : Spells cs url) :
    Spells url.render.toList url := by
  obtain ⟨authority, target, fragment, hcuts, hsplits, hroots, hfits⟩ := h
  obtain ⟨hplain, hsubset⟩ := hsplits.plain
  obtain ⟨path, hpath, hmem⟩ := hroots.path
  refine ⟨url.shownAuthority, url.path.toList, [], ?_, splits_shown hplain hsplits.port_ne_zero, ?_,
    hfits⟩
  · refine ⟨toList_render url, ?_, ?_, fun c hc => ?_, ?_, fun c hc => by cases hc⟩
    · rw [toList_render]
      exact hcuts.shortest _
    · exact inAuthority_shown fun c hc => hcuts.inAuthority c (hsubset hc)
    · rw [hpath] at hc
      exact .inl (Option.some.inj hc).symm
    · rw [hpath, List.mem_cons, not_or]
      exact ⟨by decide, fun hsharp => hcuts.inTarget (hmem _ hsharp)⟩
  · rw [hpath]
    exact .slash

/-- What a URL is displayed as parses to that URL again, and is displayed in the same way; two URLs
that were parsed are equal exactly if they are displayed as the same text. -/
theorem parse_displayed {text text' : String} {url url' : Url} (h : parse text = .ok url)
    (h' : parse text' = .ok url') :
    (∃ again, parse url.render = .ok again ∧ again = url ∧ again.render = url.render) ∧
      (url = url' ↔ url.render = url'.render) := by
  have hrender := parse_eq_ok_iff.2 (parse_eq_ok_iff.1 h).render
  have hrender' := parse_eq_ok_iff.2 (parse_eq_ok_iff.1 h').render
  refine ⟨⟨url, hrender, rfl, rfl⟩, fun heq => by rw [heq], fun htext => ?_⟩
  rw [htext, hrender'] at hrender
  exact (Except.ok.inj hrender).symm

/-- The scheme ends in the separator's first characters, and one of the two ports is the default. -/
theorem parse_displayed_of_odd_scheme :
    let url : Url := ⟨"a:/", "h", 80, "/?x"⟩
    let url' : Url := ⟨"a:/", "h", 81, "/?x"⟩
    (parse "a:/://h:0?x#f" = .ok url ∧ parse "a:/://h:0081?x" = .ok url') ∧
      ((∃ again, parse url.render = .ok again ∧ again = url ∧ again.render = url.render) ∧
        (url = url' ↔ url.render = url'.render)) :=
  have hurl : parse "a:/://h:0?x#f" = .ok ⟨"a:/", "h", 80, "/?x"⟩ := rfl
  have hurl' : parse "a:/://h:0081?x" = .ok ⟨"a:/", "h", 81, "/?x"⟩ := rfl
  ⟨⟨hurl, hurl'⟩, parse_displayed hurl hurl'⟩

end DeviceHttp.Url
