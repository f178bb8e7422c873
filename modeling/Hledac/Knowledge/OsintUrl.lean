import Hledac.Py.UrlCase

/-!
# OSINT URLs for fingerprints

The Python path of `_normalize_osint_url`; `quality_assessment.py:181-238`. The parts of the parsed URL are
written one after the other, and what is written need not be read as it was: the default scheme and its
slashes turn the first segment of a relative path into a location, the parameters of the last segment are
lost, and without its trailing slash a path has another last segment.
-/

namespace Hledac.Knowledge.OsintUrl

open Hledac.Py Hledac.Py.UrlParser

/-- A query as name and value pairs. -/
abbrev Pairs := List (List Char × List Char)

/-- The scheme of a URL that has none. -/
def http : List Char := "http".toList

/-- `TRACKING_QUERY_PARAMS`. -/
def trackingQueryParams : List (List Char) :=
  ["utm_source", "utm_medium", "utm_campaign", "utm_content", "utm_term", "fbclid", "ref"].map String.toList

/-- The path without trailing slashes, but the root. -/
def trimPath (path : List Char) : List Char := if 1 < path.length then path.rdropWhile (· = '/') else path

def schemeOr (scheme : List Char) : List Char := if scheme = [] then http else scheme

section Model

variable (t : LocationTables)

/-- `query_params` that are no tracking parameters. -/
def filtered (query : List Char) : Pairs :=
  (parseQsl true query).filter fun pair => !trackingQueryParams.contains (t.lower pair.1)

/-- `_normalize_osint_url`, without the Rust engine. The parser gives schemes in lower case already, and
texts of characters have no query that `urlencode` refuses; lines 181-238. -/
def normalizeOsintUrl (url : List Char) : List Char :=
  if url = [] then []
  else
    let url := stripChars url
    match t.parser.urlparse url with
    | none => url
    | some parsed =>
      let query := if filtered t parsed.query = [] then [] else urlencode (filtered t parsed.query)
      schemeOr parsed.scheme ++ ':' :: '/' :: '/' :: t.lower parsed.netloc ++ trimPath parsed.path ++
        if query = [] then [] else '?' :: query

/-! ### What it is for -/

/-- What a URL says. A malformed port is `none`. -/
structure Content where
  scheme : List Char
  host : Option (List Char)
  port : Option (Option Nat)
  path : List Char
  params : List Char
  query : Pairs

/-- The content of a text that the parser accepts, the whitespace around it taken off: the host up to case,
the path up to trailing slashes, and the parameters that do not track. -/
def contentOf? (url : List Char) : Option Content :=
  (t.parser.urlparse (stripChars url)).map fun parsed =>
    { scheme := parsed.scheme
      host := (t.parser.hostnameOf parsed.netloc).map t.folded
      port := UrlParser.port parsed.netloc
      path := parsed.path.rdropWhile (· = '/')
      params := parsed.params
      query := filtered t parsed.query }

/-- The same content, the query in any order. -/
structure Content.Agrees (a b : Content) : Prop where
  scheme : a.scheme = b.scheme
  host : a.host = b.host
  port : a.port = b.port
  path : a.path = b.path
  params : a.params = b.params
  query : a.query.Perm b.query

/-- The normal form of an accepted URL is one itself, and is that of no URL with another content. -/
structure Normalizes (u v : List Char) : Prop where
  idempotent : ∀ a, contentOf? t u = some a →
    normalizeOsintUrl t (normalizeOsintUrl t u) = normalizeOsintUrl t u
  separates : ∀ a b, contentOf? t u = some a → contentOf? t v = some b →
    normalizeOsintUrl t u = normalizeOsintUrl t v → a.Agrees b

/-- Location and path as they are written. -/
def kept (parsed : ParseResult) : List Char := t.lower parsed.netloc ++ trimPath parsed.path

/-- What is written is read as it was: no whitespace ends it, and up to its first slash it is refused as a
location or one in lower case, before a path whose last segment has no parameters. -/
structure Settled (parsed : ParseResult) : Prop where
  ending : filtered t parsed.query = [] → ∀ ch, (kept t parsed).getLast? = some ch → isSpace ch = false
  reread : t.parser.refuses ((kept t parsed).takeWhile isLocationChar) = true ∨
    (t.lower ((kept t parsed).takeWhile isLocationChar) = (kept t parsed).takeWhile isLocationChar ∧
      (schemeOr parsed.scheme ∈ usesParams →
        ';' ∉ ((kept t parsed).dropWhile isLocationChar).rtakeWhile (· ≠ '/')))

/-- Of two URLs that are written alike both or neither have a scheme and a location, and the parameters of
their paths are the same. -/
def Apart (a b : ParseResult) : Prop :=
  schemeOr a.scheme = schemeOr b.scheme → kept t a = kept t b → filtered t a.query = filtered t b.query →
    (a.scheme = [] ↔ b.scheme = []) ∧ (a.netloc = [] ↔ b.netloc = []) ∧ a.params = b.params

/-- The inputs that are handled. -/
structure Regular (u v : List Char) : Prop where
  settled : u ≠ [] → ∀ a, t.parser.urlparse (stripChars u) = some a → Settled t a
  apart : u ≠ [] → v ≠ [] → ∀ a b, t.parser.urlparse (stripChars u) = some a →
    t.parser.urlparse (stripChars v) = some b → Apart t a b

end Model

variable {t : LocationTables} {parsed a b : ParseResult} {url path : List Char} {ch : Char}

/-! ### Paths without trailing slashes -/

theorem trimPath_front (path : List Char) : trimPath path <+: path := by
  rw [trimPath]
  split
  · exact List.rdropWhile_prefix _ _
  · exact List.prefix_refl path

theorem rdropWhile_trimPath (path : List Char) :
    (trimPath path).rdropWhile (· = '/') = path.rdropWhile (· = '/') := by
  rw [trimPath]
  split
  · exact List.rdropWhile_idempotent _ _
  · rfl

theorem trimPath_of_suffix {tail : List Char} (h : tail <:+ trimPath path) : trimPath tail = tail := by
  rw [trimPath]
  split
  · next hlong =>
    rw [trimPath] at h
    split at h
    · rw [List.rdropWhile_eq_self_iff]
      intro hne
      have hpath : path.rdropWhile (· = '/') ≠ [] := by
        intro hnil
        rw [hnil, List.suffix_nil] at h
        exact hne h
      rw [h.getLast hne]
      exact List.rdropWhile_last_not _ _ hpath
    · next hshort =>
      have hle := h.length_le
      omega
  · rfl

/-! ### Normal forms -/

theorem isScheme_http : IsScheme http := ⟨rfl, rfl, rfl⟩

theorem schemeOr_of_ne {scheme : List Char} (h : scheme ≠ []) : schemeOr scheme = scheme := if_neg h

theorem isScheme_schemeOr (hw : WellParsed parsed) : IsScheme (schemeOr parsed.scheme) := by
  by_cases hnil : parsed.scheme = []
  · rw [schemeOr, if_pos hnil]
    exact isScheme_http
  · rw [schemeOr_of_ne hnil]
    exact hw.scheme.resolve_left hnil

theorem lower_netloc (hw : WellParsed parsed) (h : ch ∈ t.lower parsed.netloc) :
    isLocationChar ch = true ∧ isBreak ch = false ∧ ch ≠ '?' ∧ ch ≠ '#' := by
  cases hdelim : isDelimiter ch with
  | false => exact isLocationChar_of_isDelimiter hdelim
  | true =>
    obtain ⟨hloc, hbreak⟩ := hw.netloc ch ((DelimiterTables.mem_lower_delimiter hdelim).1 h)
    refine ⟨hloc, hbreak, ?_, ?_⟩
    · rintro rfl
      exact absurd hloc (by decide)
    · rintro rfl
      exact absurd hloc (by decide)

theorem parts_kept (hw : WellParsed parsed) (pairs : Pairs) : Parts (kept t parsed) (urlencode pairs) where
  body ch hch := by
    rcases List.mem_append.1 hch with hmem | hmem
    · obtain ⟨_, hbreak, hquery, hfragment⟩ := lower_netloc hw hmem
      exact ⟨hquery, hfragment, hbreak⟩
    · exact hw.path ch ((trimPath_front _).mem hmem)
  query _ h := notBreak_of_mem_urlencode h

theorem normalizeOsintUrl_eq (hurl : url ≠ []) (h : t.parser.urlparse (stripChars url) = some parsed) :
    normalizeOsintUrl t url =
      unsplit (schemeOr parsed.scheme) (kept t parsed) (urlencode (filtered t parsed.query)) := by
  have hquery : (if filtered t parsed.query = [] then [] else urlencode (filtered t parsed.query)) =
      urlencode (filtered t parsed.query) := by
    split
    · next hnil => rw [hnil]; rfl
    · rfl
  rw [normalizeOsintUrl, if_neg hurl]
  simp only [h, hquery, unsplit, kept, List.append_assoc, List.cons_append]

theorem normalizeOsintUrl_refused (hurl : url ≠ []) (h : t.parser.urlparse (stripChars url) = none) :
    normalizeOsintUrl t url = stripChars url := by
  rw [normalizeOsintUrl, if_neg hurl]
  simp only [h]

theorem unsplit_ne_nil (scheme body query : List Char) : unsplit scheme body query ≠ [] := by
  simp [unsplit]

theorem filtered_urlencode (query : List Char) : filtered t (urlencode (filtered t query)) = filtered t query := by
  rw [filtered, parseQsl_urlencode (.inl rfl), filtered, List.filter_filter]
  simp only [Bool.and_self]

theorem urlencode_injective {p q : Pairs} (h : urlencode p = urlencode q) : p = q := by
  have hparse := congrArg (parseQsl true) h
  rwa [parseQsl_urlencode (.inl rfl), parseQsl_urlencode (.inl rfl)] at hparse

theorem unsplit_kept_iff (ha : WellParsed a) (hb : WellParsed b) :
    unsplit (schemeOr a.scheme) (kept t a) (urlencode (filtered t a.query)) =
        unsplit (schemeOr b.scheme) (kept t b) (urlencode (filtered t b.query)) ↔
      schemeOr a.scheme = schemeOr b.scheme ∧ kept t a = kept t b ∧ filtered t a.query = filtered t b.query := by
  constructor
  · intro h
    obtain ⟨hscheme, hkept, hquery⟩ := unsplit_injective (isScheme_schemeOr ha) (isScheme_schemeOr hb)
      (parts_kept ha _) (parts_kept hb _) h
    exact ⟨hscheme, hkept, urlencode_injective hquery⟩
  · rintro ⟨hscheme, hkept, hquery⟩
    rw [hscheme, hkept, hquery]

/-! ### Apart -/

theorem cut_kept (hw : WellParsed parsed) (hne : parsed.netloc ≠ []) :
    (kept t parsed).takeWhile isLocationChar = t.lower parsed.netloc ∧
      (kept t parsed).dropWhile isLocationChar = trimPath parsed.path :=
  cut_location (fun _ hch => (lower_netloc hw hch).1) ((hw.path_start hne).front (trimPath_front _))

theorem kept_nil (h : parsed.netloc = []) : kept t parsed = trimPath parsed.path := by
  rw [kept, h]
  rfl

theorem netloc_path_of_kept (ha : WellParsed a) (hb : WellParsed b) (hkept : kept t a = kept t b)
    (hnetloc : a.netloc = [] ↔ b.netloc = []) : t.lower a.netloc = t.lower b.netloc ∧
      a.path.rdropWhile (· = '/') = b.path.rdropWhile (· = '/') := by
  rw [← rdropWhile_trimPath a.path, ← rdropWhile_trimPath b.path]
  by_cases hnil : a.netloc = []
  · rw [kept_nil hnil, kept_nil (hnetloc.1 hnil)] at hkept
    rw [hnil, hnetloc.1 hnil, hkept]
    exact ⟨rfl, rfl⟩
  · obtain ⟨hlocation, hpath⟩ := cut_kept (t := t) ha hnil
    obtain ⟨hlocation', hpath'⟩ := cut_kept (t := t) hb (mt hnetloc.2 hnil)
    rw [hkept] at hlocation hpath
    rw [← hlocation, hlocation', ← hpath, hpath']
    exact ⟨rfl, rfl⟩

theorem path_ne_of_kept (hb : WellParsed b) (hkept : kept t a = kept t b) (ha : a.netloc = [])
    (hne : b.netloc ≠ []) : a.path.rdropWhile (· = '/') ≠ b.path.rdropWhile (· = '/') := by
  intro hpath
  have hstop : ∀ ch, (t.lower b.netloc).getLast? = some ch → decide (ch = '/') = false := by
    intro ch hch
    rw [decide_eq_false_iff_not]
    rintro rfl
    exact absurd (lower_netloc hb (List.mem_of_getLast? hch)).1 (by decide)
  rw [kept_nil ha] at hkept
  rw [← rdropWhile_trimPath a.path, hkept, kept, rdropWhile_append_stop hstop, rdropWhile_trimPath] at hpath
  have hnil : t.lower b.netloc = [] := List.append_left_eq_self.1 hpath
  exact hne (CaseTables.lower_eq_nil.1 hnil)

theorem contentOf?_eq (h : t.parser.urlparse (stripChars url) = some parsed) : contentOf? t url =
    some ⟨parsed.scheme, (t.parser.hostnameOf parsed.netloc).map t.folded, UrlParser.port parsed.netloc,
      parsed.path.rdropWhile (· = '/'), parsed.params, filtered t parsed.query⟩ := by
  rw [contentOf?, h, Option.map_some]

/-! ### Read back -/

theorem isSpace_of_isAlpha (h : ch.isAlpha = true) : isSpace ch = false := by
  rw [isAlpha_iff] at h
  rw [Bool.eq_false_iff]
  intro hspace
  simp only [isSpace, Bool.or_eq_true, Bool.and_eq_true, decide_eq_true_eq, beq_iff_eq] at hspace
  omega

theorem isSpace_of_mem_urlencode {pairs : Pairs} (h : ch ∈ urlencode pairs) : isSpace ch = false := by
  rw [Bool.eq_false_iff]
  intro hspace
  rcases of_mem_urlencode h with hquoted | hmem
  · simp only [isQuoted, List.contains_cons, List.contains_nil, Bool.or_false, Bool.or_eq_true, Bool.and_eq_true,
      decide_eq_true_eq, beq_iff_eq] at hquoted
    simp only [isSpace, Bool.or_eq_true, Bool.and_eq_true, decide_eq_true_eq, beq_iff_eq] at hspace
    omega
  · simp only [List.mem_cons, List.not_mem_nil, or_false] at hmem
    rcases hmem with rfl | rfl | rfl <;> exact absurd hspace (by decide)

variable {scheme body query : List Char}

theorem stripChars_unsplit (hs : IsScheme scheme) (body query : List Char) :
    stripChars (unsplit scheme body query) = (unsplit scheme body query).rdropWhile isSpace := by
  have hfront : (unsplit scheme body query).dropWhile isSpace = unsplit scheme body query := by
    cases scheme with
    | nil => exact absurd rfl hs.ne_nil
    | cons ch rest =>
      have halpha : ch.isAlpha = true := hs.head
      exact List.dropWhile_cons_of_neg (by rw [isSpace_of_isAlpha halpha]; exact Bool.noConfusion)
  rw [stripChars, hfront]

theorem stripChars_unsplit_nil (hs : IsScheme scheme) (body : List Char) :
    stripChars (unsplit scheme body []) = unsplit scheme (body.rdropWhile isSpace) [] := by
  have htext : ∀ body, unsplit scheme body [] = (scheme ++ [':', '/', '/']) ++ body := fun body => by
    simp [unsplit]
  rw [stripChars_unsplit hs, htext, htext]
  apply rdropWhile_append_stop
  intro ch hch
  rw [List.getLast?_append_of_ne_nil _ (List.cons_ne_nil _ _)] at hch
  obtain rfl := Option.some.inj hch
  rfl

theorem stripChars_unsplit_urlencode (hs : IsScheme scheme) (body : List Char) {pairs : Pairs} (hne : pairs ≠ []) :
    stripChars (unsplit scheme body (urlencode pairs)) = unsplit scheme body (urlencode pairs) := by
  have htext : unsplit scheme body (urlencode pairs) =
      (scheme ++ ':' :: '/' :: '/' :: body ++ ['?']) ++ urlencode pairs := by
    simp [unsplit, if_neg (urlencode_ne_nil hne)]
  have hquery : (urlencode pairs).rdropWhile isSpace = urlencode pairs := by
    rw [List.rdropWhile_eq_self_iff]
    intro hl
    rw [isSpace_of_mem_urlencode (List.getLast_mem hl)]
    exact Bool.noConfusion
  rw [stripChars_unsplit hs, htext, rdropWhile_append_stop, hquery]
  intro ch hch
  rw [List.getLast?_append_of_ne_nil _ (List.cons_ne_nil _ _)] at hch
  obtain rfl := Option.some.inj hch
  rfl

/-- The parts that a text without surrounding whitespace is read as. -/
def rereadParts (scheme body query : List Char) : ParseResult :=
  parseParams ⟨scheme, body.takeWhile isLocationChar, body.dropWhile isLocationChar, query, []⟩

theorem normalizeOsintUrl_unsplit {text : List Char} (hne : text ≠ []) (hs : IsScheme scheme)
    (hparts : Parts body query) (hstrip : stripChars text = unsplit scheme body query) :
    normalizeOsintUrl t text =
      if t.parser.refuses (body.takeWhile isLocationChar) then unsplit scheme body query
      else unsplit scheme (kept t (rereadParts scheme body query)) (urlencode (filtered t query)) := by
  have hparse : t.parser.urlparse (stripChars text) =
      if t.parser.refuses (body.takeWhile isLocationChar) then none else some (rereadParts scheme body query) := by
    rw [hstrip, urlparse_eq, urlsplit_unsplit hs hparts]
    split <;> rfl
  by_cases hrefuses : t.parser.refuses (body.takeWhile isLocationChar) = true
  · rw [if_pos hrefuses] at hparse ⊢
    rw [normalizeOsintUrl_refused hne hparse, hstrip]
  · rw [if_neg hrefuses] at hparse ⊢
    rw [normalizeOsintUrl_eq hne hparse]
    have hscheme : schemeOr (rereadParts scheme body query).scheme = scheme := schemeOr_of_ne hs.ne_nil
    rw [hscheme]
    rfl

theorem kept_reread_iff (hparts : Parts body query) (htrim : trimPath (body.dropWhile isLocationChar) =
    body.dropWhile isLocationChar) : kept t (rereadParts scheme body query) = body ↔
      t.lower (body.takeWhile isLocationChar) = body.takeWhile isLocationChar ∧
        (scheme ∈ usesParams → ';' ∉ (body.dropWhile isLocationChar).rtakeWhile (· ≠ '/')) := by
  have hiff := parseParams_path_eq_iff
    ⟨scheme, body.takeWhile isLocationChar, body.dropWhile isLocationChar, query, []⟩
  rw [← hiff]
  have hslash : StartsAtSlash (body.dropWhile isLocationChar) := startsAtSlash_dropWhile fun ch hch =>
    ⟨(hparts.body ch hch).1, (hparts.body ch hch).2.1⟩
  have hprefix : (rereadParts scheme body query).path <+: body.dropWhile isLocationChar := parseParams_front
  have hlower : ∀ ch ∈ t.lower (body.takeWhile isLocationChar), isLocationChar ch = true := by
    intro ch hch
    cases hdelim : isDelimiter ch with
    | false => exact (isLocationChar_of_isDelimiter hdelim).1
    | true => exact List.mem_takeWhile_imp ((DelimiterTables.mem_lower_delimiter hdelim).1 hch)
  obtain ⟨htake, hdrop⟩ := cut_location hlower
    ((hslash.front hprefix).front (trimPath_front (rereadParts scheme body query).path))
  constructor
  · intro h
    have htext : t.lower (body.takeWhile isLocationChar) ++ trimPath (rereadParts scheme body query).path = body := h
    rw [htext] at htake hdrop
    refine ⟨htake.symm, hprefix.eq_of_length_le ?_⟩
    rw [hdrop]
    exact (trimPath_front _).length_le
  · rintro ⟨hlocation, hpath⟩
    have hsame : (rereadParts scheme body query).path = body.dropWhile isLocationChar := hpath
    calc t.lower (body.takeWhile isLocationChar) ++ trimPath (rereadParts scheme body query).path
        = body.takeWhile isLocationChar ++ body.dropWhile isLocationChar := by rw [hlocation, hsame, htrim]
      _ = body := List.takeWhile_append_dropWhile

theorem kept_reread_ne {short : List Char} (hlt : short.countP isSpace < body.countP isSpace) :
    kept t (rereadParts scheme short query) ≠ body := by
  intro h
  have hprefix : trimPath (rereadParts scheme short query).path <+: short.dropWhile isLocationChar :=
    (trimPath_front _).trans parseParams_front
  have hkept : (kept t (rereadParts scheme short query)).countP isSpace =
      (short.takeWhile isLocationChar).countP isSpace +
        (trimPath (rereadParts scheme short query).path).countP isSpace := by
    rw [kept, List.countP_append]
    exact congrArg (· + _) (CaseTables.countP_lower _)
  have hshort : (short.takeWhile isLocationChar).countP isSpace + (short.dropWhile isLocationChar).countP isSpace =
      short.countP isSpace := by
    rw [← List.countP_append, List.takeWhile_append_dropWhile]
  have hle := hprefix.sublist.countP_le (p := isSpace)
  rw [h] at hkept
  omega

theorem idempotent_iff (hw : WellParsed parsed) {form : List Char}
    (hform : form = unsplit (schemeOr parsed.scheme) (kept t parsed) (urlencode (filtered t parsed.query))) :
    normalizeOsintUrl t form = form ↔ Settled t parsed := by
  have hs := isScheme_schemeOr hw
  have hne : form ≠ [] := by
    rw [hform]
    exact unsplit_ne_nil _ _ _
  have hparts := parts_kept (t := t) hw (filtered t parsed.query)
  have htrim : trimPath ((kept t parsed).dropWhile isLocationChar) = (kept t parsed).dropWhile isLocationChar := by
    rw [kept, List.dropWhile_append_of_pos fun ch hch => (lower_netloc hw hch).1]
    exact trimPath_of_suffix (List.dropWhile_suffix _)
  -- without whitespace at its end the form is read as it stands
  have hread (hstrip : stripChars form = form) : normalizeOsintUrl t form = form ↔
      t.parser.refuses ((kept t parsed).takeWhile isLocationChar) = true ∨
        (t.lower ((kept t parsed).takeWhile isLocationChar) = (kept t parsed).takeWhile isLocationChar ∧
          (schemeOr parsed.scheme ∈ usesParams →
            ';' ∉ ((kept t parsed).dropWhile isLocationChar).rtakeWhile (· ≠ '/'))) := by
    rw [normalizeOsintUrl_unsplit hne hs hparts (hstrip.trans hform), filtered_urlencode]
    by_cases hrefuses : t.parser.refuses ((kept t parsed).takeWhile isLocationChar) = true
    · rw [if_pos hrefuses]
      exact iff_of_true hform.symm (.inl hrefuses)
    · rw [if_neg hrefuses, or_iff_right hrefuses, ← kept_reread_iff hparts htrim, hform, unsplit_right_inj]
  by_cases hquery : filtered t parsed.query = []
  · have hform' : form = unsplit (schemeOr parsed.scheme) (kept t parsed) [] := by rw [hform, hquery]; rfl
    by_cases hending : ∀ ch, (kept t parsed).getLast? = some ch → isSpace ch = false
    · have hdrop : (kept t parsed).rdropWhile isSpace = kept t parsed := by
        rw [List.rdropWhile_eq_self_iff]
        intro hl
        rw [hending _ (List.getLast?_eq_getLast_of_ne_nil hl)]
        exact Bool.noConfusion
      have hstrip : stripChars form = form := by rw [hform', stripChars_unsplit_nil hs, hdrop]
      rw [hread hstrip]
      exact ⟨fun h => ⟨fun _ => hending, h⟩, fun h => h.reread⟩
    · apply iff_of_false _ fun h => hending (h.ending hquery)
      -- the whitespace is stripped, and nothing puts it back
      rw [not_forall] at hending
      obtain ⟨ch, hch⟩ := hending
      rw [Classical.not_imp, Bool.not_eq_false] at hch
      obtain ⟨front, hfront⟩ := List.getLast?_eq_some_iff.1 hch.1
      have hlt : ((kept t parsed).rdropWhile isSpace).countP isSpace < (kept t parsed).countP isSpace := by
        have hle := (List.rdropWhile_prefix isSpace front).sublist.countP_le (p := isSpace)
        rw [hfront, List.rdropWhile_concat_pos _ _ _ hch.2, List.countP_append, List.countP_singleton,
          if_pos hch.2]
        omega
      have hshort : Parts ((kept t parsed).rdropWhile isSpace) [] :=
        ⟨fun ch hch => hparts.body ch ((List.rdropWhile_prefix _ _).mem hch), fun _ h => absurd h List.not_mem_nil⟩
      have hstrip : stripChars form = unsplit (schemeOr parsed.scheme) ((kept t parsed).rdropWhile isSpace) [] := by
        rw [hform', stripChars_unsplit_nil hs]
      have hnone : urlencode (filtered t []) = [] := rfl
      rw [normalizeOsintUrl_unsplit hne hs hshort hstrip, hnone, hform']
      split
      · rw [unsplit_right_inj]
        intro hsame
        rw [hsame] at hlt
        exact Nat.lt_irrefl _ hlt
      · rw [unsplit_right_inj]
        exact kept_reread_ne hlt
  · have hstrip : stripChars form = form := by rw [hform, stripChars_unsplit_urlencode hs _ hquery]
    rw [hread hstrip]
    exact ⟨fun h => ⟨fun hnil => absurd hnil hquery, h⟩, fun h => h.reread⟩

/-! ### The normal form -/

variable {u v : List Char} {x y : Content}

theorem urlparse_of_contentOf? (h : contentOf? t url = some x) :
    ∃ parsed, t.parser.urlparse (stripChars url) = some parsed := by
  obtain ⟨parsed, hparsed, _⟩ := Option.map_eq_some_iff.1 h
  exact ⟨parsed, hparsed⟩

theorem eq_nil_of_normalizeOsintUrl (hv : contentOf? t v = some y) (h : normalizeOsintUrl t v = []) : v = [] := by
  by_contra hne
  obtain ⟨parsed, hparsed⟩ := urlparse_of_contentOf? hv
  rw [normalizeOsintUrl_eq hne hparsed] at h
  exact unsplit_ne_nil _ _ _ h

theorem agrees_iff (ha : WellParsed a) (hb : WellParsed b) (hu : t.parser.urlparse (stripChars u) = some a)
    (hv : t.parser.urlparse (stripChars v) = some b) (hx : contentOf? t u = some x) (hy : contentOf? t v = some y)
    (hscheme : schemeOr a.scheme = schemeOr b.scheme) (hkept : kept t a = kept t b)
    (hquery : filtered t a.query = filtered t b.query) :
    x.Agrees y ↔ (a.scheme = [] ↔ b.scheme = []) ∧ (a.netloc = [] ↔ b.netloc = []) ∧ a.params = b.params := by
  rw [contentOf?_eq hu, Option.some_inj] at hx
  rw [contentOf?_eq hv, Option.some_inj] at hy
  subst hx hy
  constructor
  · intro h
    have hsame : a.scheme = b.scheme := h.scheme
    refine ⟨by rw [hsame], ⟨fun hnil => ?_, fun hnil => ?_⟩, h.params⟩
    · by_contra hne
      exact path_ne_of_kept hb hkept hnil hne h.path
    · by_contra hne
      exact path_ne_of_kept ha hkept.symm hnil hne h.path.symm
  · rintro ⟨hnone, hnetloc, hparams⟩
    obtain ⟨hlower, hpath⟩ := netloc_path_of_kept ha hb hkept hnetloc
    have hfolded := LocationTables.folded_of_lower hlower
    refine ⟨?_, LocationTables.hostnameOf_of_folded hfolded, LocationTables.port_of_folded hfolded, hpath, hparams,
      List.Perm.of_eq hquery⟩
    by_cases hnil : a.scheme = []
    · exact hnil.trans (hnone.1 hnil).symm
    · rwa [schemeOr_of_ne hnil, schemeOr_of_ne (mt hnone.2 hnil)] at hscheme

/-- The normal form of a URL is stable and is that of no other content exactly for regular inputs. -/
theorem normalizes_iff (t : LocationTables) (u v : List Char) : Normalizes t u v ↔ Regular t u v := by
  constructor
  · intro h
    refine ⟨fun hu a hparse => ?_, fun hu hv a b hparse hparse' hscheme hkept hquery => ?_⟩
    · exact (idempotent_iff (wellParsed_of_urlparse hparse) (normalizeOsintUrl_eq hu hparse)).1
        (h.idempotent _ (contentOf?_eq hparse))
    · have ha := wellParsed_of_urlparse hparse
      have hb := wellParsed_of_urlparse hparse'
      have hsame : normalizeOsintUrl t u = normalizeOsintUrl t v := by
        rw [normalizeOsintUrl_eq hu hparse, normalizeOsintUrl_eq hv hparse']
        exact (unsplit_kept_iff ha hb).2 ⟨hscheme, hkept, hquery⟩
      exact (agrees_iff ha hb hparse hparse' (contentOf?_eq hparse) (contentOf?_eq hparse') hscheme hkept hquery).1
        (h.separates _ _ (contentOf?_eq hparse) (contentOf?_eq hparse') hsame)
  · intro h
    refine ⟨fun x hx => ?_, fun x y hx hy hsame => ?_⟩
    · obtain ⟨a, hparse⟩ := urlparse_of_contentOf? hx
      by_cases hu : u = []
      · rw [hu]
        rfl
      · exact (idempotent_iff (wellParsed_of_urlparse hparse) (normalizeOsintUrl_eq hu hparse)).2
          (h.settled hu a hparse)
    · obtain ⟨a, hparse⟩ := urlparse_of_contentOf? hx
      obtain ⟨b, hparse'⟩ := urlparse_of_contentOf? hy
      by_cases hu : u = []
      · -- the empty text is alone with its normal form
        have hv : v = [] := eq_nil_of_normalizeOsintUrl hy (by rw [← hsame, hu]; rfl)
        rw [hu, ← hv, hy, Option.some_inj] at hx
        rw [hx]
        exact ⟨rfl, rfl, rfl, rfl, rfl, List.Perm.refl _⟩
      · have hv : v ≠ [] := by
          rintro rfl
          exact hu (eq_nil_of_normalizeOsintUrl hx (by rw [hsame]; rfl))
        have ha := wellParsed_of_urlparse hparse
        have hb := wellParsed_of_urlparse hparse'
        rw [normalizeOsintUrl_eq hu hparse, normalizeOsintUrl_eq hv hparse', unsplit_kept_iff ha hb] at hsame
        obtain ⟨hscheme, hkept, hquery⟩ := hsame
        exact (agrees_iff ha hb hparse hparse' hx hy hscheme hkept hquery).2
          (h.apart hu hv a b hparse hparse' hscheme hkept hquery)

/-- Without its trailing slash the path ends in parameters, which the second pass takes off. -/
theorem not_normalizes :
    ¬ Normalizes LocationTables.ascii "http://h/a;b/".toList "http://h/a;b/".toList := by
  intro h
  have hparse : ∃ a, contentOf? LocationTables.ascii "http://h/a;b/".toList = some a :=
    Option.isSome_iff_exists.1 (by decide)
  obtain ⟨a, ha⟩ := hparse
  exact absurd (h.idempotent a ha) (by decide)

end Hledac.Knowledge.OsintUrl
