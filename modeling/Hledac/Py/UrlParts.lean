import Hledac.Py.Parse
import Hledac.Py.Quote
import Hledac.Py.Url

/-!
# The parts of a URL

`urlsplit` and `urlparse` of `urllib.parse`, with the host name and the port of a network location, and
what they make of a text that is put together from parts.
-/

namespace Hledac.Py

/-- `SplitResult`. -/
@[ext] structure SplitResult where
  scheme : List Char
  netloc : List Char
  path : List Char
  query : List Char
  fragment : List Char

/-- `ParseResult`, whose path is without the parameters of its last segment. -/
structure ParseResult where
  scheme : List Char
  netloc : List Char
  path : List Char
  params : List Char
  query : List Char
  fragment : List Char

namespace UrlParser

/-- The scheme of a cleaned URL in lower case; none is the empty text. -/
def schemeOf (url : List Char) : List Char :=
  let scheme := url.takeWhile (· ≠ ':')
  if ':' ∈ url && (scheme.head?.map Char.isAlpha).getD false && scheme.all isSchemeChar then
    scheme.map Char.toLower
  else []

/-- What stands after the network location. -/
def afterLocation : List Char → List Char
  | '/' :: '/' :: rest => rest.dropWhile isLocationChar
  | rest => rest

/-- `urlsplit(url)`; `none` where it raises `ValueError`. -/
def urlsplit (p : UrlParser) (url : List Char) : Option SplitResult :=
  match p.netloc url with
  | none => none
  | some netloc =>
    let rest := afterLocation (afterScheme (cleaned url))
    let beforeFragment := rest.takeWhile (· ≠ '#')
    some
      { scheme := schemeOf (cleaned url)
        netloc
        path := beforeFragment.takeWhile (· ≠ '?')
        query := (beforeFragment.dropWhile (· ≠ '?')).drop 1
        fragment := (rest.dropWhile (· ≠ '#')).drop 1 }

/-- `uses_params`. -/
def usesParams : List (List Char) :=
  ["", "ftp", "hdl", "prospero", "http", "imap", "https", "shttp", "rtsp", "rtsps", "rtspu", "sip",
    "sips", "mms", "sftp", "tel"].map String.toList

/-- `_splitparams`: the last segment of the path is cut at its first semicolon. -/
def splitParams (path : List Char) : List Char × List Char :=
  let segment := path.rtakeWhile (· ≠ '/')
  (path.rdropWhile (· ≠ '/') ++ segment.takeWhile (· ≠ ';'), (segment.dropWhile (· ≠ ';')).drop 1)

local instance lawfulBEq_chars : LawfulBEq (List Char) := inferInstance

/-- The parameters that `urlparse` takes off the path. -/
def parseParams (r : SplitResult) : ParseResult :=
  let (path, params) := if r.scheme ∈ usesParams ∧ ';' ∈ r.path then splitParams r.path else (r.path, [])
  { scheme := r.scheme, netloc := r.netloc, path, params, query := r.query, fragment := r.fragment }

/-- `urlparse(url)`; `none` where it raises `ValueError`. -/
def urlparse (p : UrlParser) (url : List Char) : Option ParseResult := (p.urlsplit url).map parseParams

/-- `hostname` of a network location. -/
def hostnameOf (p : UrlParser) (location : List Char) : Option (List Char) :=
  if hostOf location = [] then none else some (p.lowerHost (hostOf location))

/-- The text of the port: what follows the first colon after the host. -/
def portText (location : List Char) : List Char := ((afterHost location).dropWhile (· ≠ ':')).drop 1

/-- `port` of a network location; `none` where it raises `ValueError`. -/
def port (location : List Char) : Option (Option Nat) :=
  let text := portText location
  if text = [] then some none
  else if text.all Char.isDigit then
    match readNat text with
    | some n => if n ≤ 65535 then some (some n) else none
    | none => none
  else none

/-! ### What a split leaves -/

/-- A scheme that is recognised, in lower case. -/
structure IsScheme (scheme : List Char) : Prop where
  head : (scheme.head?.map Char.isAlpha).getD false = true
  chars : scheme.all isSchemeChar = true
  lowered : scheme.map Char.toLower = scheme

theorem IsScheme.ne_nil {scheme : List Char} (hs : IsScheme scheme) : scheme ≠ [] := by
  rintro rfl
  exact absurd hs.head (by decide)

/-- The characters that are taken out everywhere. -/
def isBreak (ch : Char) : Bool := ch = '\t' || ch = '\r' || ch = '\n'

/-- The parts of a URL stop where the next part starts. -/
structure WellSplit (r : SplitResult) : Prop where
  scheme : r.scheme = [] ∨ IsScheme r.scheme
  netloc : ∀ ch ∈ r.netloc, isLocationChar ch = true ∧ isBreak ch = false
  path : ∀ ch ∈ r.path, ch ≠ '?' ∧ ch ≠ '#' ∧ isBreak ch = false
  path_start : r.netloc ≠ [] → r.path = [] ∨ ∃ rest, r.path = '/' :: rest

theorem isBreak_of_mem_cleaned {url : List Char} {ch : Char} (h : ch ∈ cleaned url) : isBreak ch = false := by
  simpa [isBreak] using (List.mem_filter.1 h).2

theorem mem_of_mem_afterScheme {url : List Char} {ch : Char} (h : ch ∈ afterScheme url) : ch ∈ url := by
  rw [afterScheme] at h
  split at h
  · exact List.mem_of_mem_drop h
  · exact h

theorem isAlpha_iff {ch : Char} :
    ch.isAlpha = true ↔ (65 ≤ ch.toNat ∧ ch.toNat ≤ 90) ∨ (97 ≤ ch.toNat ∧ ch.toNat ≤ 122) := by
  delta Char.isAlpha Char.isUpper Char.isLower
  simp only [ge_iff_le, Bool.or_eq_true, Bool.and_eq_true, decide_eq_true_eq, UInt32.le_iff_toNat_le]
  exact Iff.rfl

theorem isAlpha_toLower (ch : Char) : ch.toLower.isAlpha = ch.isAlpha := by
  rw [Bool.eq_iff_iff, isAlpha_iff, isAlpha_iff, toNat_toLower]
  split <;> omega

theorem isSchemeChar_toLower {ch : Char} (h : isSchemeChar ch = true) : isSchemeChar ch.toLower = true := by
  by_cases halpha : ch.isAlpha = true
  · have hlow : ch.toLower.isAlpha = true := (isAlpha_toLower ch).trans halpha
    simp [isSchemeChar, Char.isAlphanum, hlow]
  · have hsame : ch.toLower = ch := by
      apply Char.ext
      apply UInt32.toNat_inj.1
      show ch.toLower.toNat = ch.toNat
      rw [isAlpha_iff] at halpha
      rw [toNat_toLower, if_neg fun hrange => halpha (.inl hrange)]
    rw [hsame]
    exact h

theorem isScheme_schemeOf (url : List Char) : schemeOf url = [] ∨ IsScheme (schemeOf url) := by
  rw [schemeOf]
  split
  · next h =>
    right
    simp only [Bool.and_eq_true] at h
    refine ⟨?_, ?_, ?_⟩
    · rw [List.head?_map, Option.map_map]
      have hcomp : Char.isAlpha ∘ Char.toLower = Char.isAlpha := funext isAlpha_toLower
      rw [hcomp]
      exact h.1.2
    · rw [List.all_map, List.all_eq_true]
      exact fun ch hch => isSchemeChar_toLower (List.all_eq_true.1 h.2 ch hch)
    · rw [List.map_map]
      apply List.map_congr_left
      exact fun ch _ => toLower_toLower ch
  · exact .inl rfl

theorem netloc_cases {p : UrlParser} {url netloc : List Char} (h : p.netloc url = some netloc) :
    (∃ rest, afterScheme (cleaned url) = '/' :: '/' :: rest ∧ netloc = rest.takeWhile isLocationChar ∧
      p.refuses netloc = false) ∨ netloc = [] := by
  rw [UrlParser.netloc] at h
  split at h
  · next rest heq =>
    left
    dsimp only at h
    split at h
    · cases h
    · next hrefuses =>
      obtain rfl := Option.some.inj h
      exact ⟨rest, heq, rfl, by simpa using hrefuses⟩
  · right
    exact (Option.some.inj h).symm

theorem netloc_of_urlsplit {p : UrlParser} {url : List Char} {r : SplitResult} (h : p.urlsplit url = some r) :
    p.netloc url = some r.netloc := by
  rw [urlsplit] at h
  cases hnetloc : p.netloc url with
  | none => simp [hnetloc] at h
  | some netloc =>
    simp only [hnetloc, Option.some.injEq] at h
    rw [← h]

theorem wellSplit_of_urlsplit {p : UrlParser} {url : List Char} {r : SplitResult}
    (h : p.urlsplit url = some r) : WellSplit r := by
  rw [urlsplit] at h
  have hclean : ∀ ch ∈ afterScheme (cleaned url), isBreak ch = false := fun ch hch =>
    isBreak_of_mem_cleaned (mem_of_mem_afterScheme hch)
  have hrest : ∀ ch ∈ afterLocation (afterScheme (cleaned url)), isBreak ch = false := by
    intro ch hch
    apply hclean
    rw [afterLocation.eq_def] at hch
    split at hch
    · next rest heq =>
      rw [heq]
      exact List.mem_cons_of_mem _ (List.mem_cons_of_mem _ ((List.dropWhile_sublist _).mem hch))
    · exact hch
  cases hnetloc : p.netloc url with
  | none => simp [hnetloc] at h
  | some netloc =>
    simp only [hnetloc, Option.some.injEq] at h
    subst h
    refine ⟨isScheme_schemeOf _, ?_, ?_, ?_⟩
    · intro ch hch
      rcases netloc_cases hnetloc with ⟨rest, heq, rfl, -⟩ | rfl
      · refine ⟨List.mem_takeWhile_imp hch, hclean ch ?_⟩
        rw [heq]
        exact List.mem_cons_of_mem _ (List.mem_cons_of_mem _ ((List.takeWhile_sublist _).mem hch))
      · cases hch
    · intro ch hch
      have hbefore := (List.takeWhile_sublist _).mem hch
      refine ⟨by simpa using List.mem_takeWhile_imp hch, by simpa using List.mem_takeWhile_imp hbefore,
        hrest ch ((List.takeWhile_sublist _).mem hbefore)⟩
    · intro hne
      rcases netloc_cases hnetloc with ⟨rest, heq, rfl, -⟩ | rfl
      · rw [heq, afterLocation]
        -- the path starts at the first character that is none of a location
        cases hdrop : rest.dropWhile isLocationChar with
        | nil => exact .inl rfl
        | cons ch after =>
          have hch := List.head_dropWhile_not isLocationChar (l := rest) (by rw [hdrop]; simp)
          simp only [hdrop, List.head_cons, isLocationChar, Bool.not_eq_false', Bool.or_eq_true,
            decide_eq_true_iff, or_assoc] at hch
          rcases hch with rfl | rfl | rfl
          · exact .inr ⟨(after.takeWhile (· ≠ '#')).takeWhile (· ≠ '?'), by simp⟩
          · exact .inl (by simp)
          · exact .inl (by simp)
      · exact absurd rfl hne

/-- A path that is absolute or empty. -/
def StartsAtSlash (path : List Char) : Prop := path = [] ∨ ∃ rest, path = '/' :: rest

theorem StartsAtSlash.front {path front : List Char} (h : StartsAtSlash path) (hfront : front <+: path) :
    StartsAtSlash front := by
  obtain ⟨rest, rfl⟩ := hfront
  cases front with
  | nil => exact .inl rfl
  | cons ch after =>
    cases h with
    | inl hnil => cases hnil
    | inr hstart =>
      obtain ⟨tail, htail⟩ := hstart
      exact .inr ⟨after, by rw [(List.cons.inj htail).1]⟩

theorem startsAtSlash_dropWhile {body : List Char} (h : ∀ ch ∈ body, ch ≠ '?' ∧ ch ≠ '#') :
    StartsAtSlash (body.dropWhile isLocationChar) := by
  cases hdrop : body.dropWhile isLocationChar with
  | nil => exact .inl rfl
  | cons ch after =>
    have hch := List.head_dropWhile_not isLocationChar (l := body) (by rw [hdrop]; simp)
    have hmem : ch ∈ body := (List.dropWhile_sublist _).mem (hdrop ▸ List.mem_cons_self)
    simp only [hdrop, List.head_cons, isLocationChar, Bool.not_eq_false', Bool.or_eq_true,
      decide_eq_true_iff] at hch
    rcases hch with (rfl | rfl) | rfl
    · exact .inr ⟨after, rfl⟩
    · exact absurd rfl (h _ hmem).1
    · exact absurd rfl (h _ hmem).2

/-! ### The parameters of a path -/

section Params

variable {split : SplitResult}

@[simp] theorem parseParams_scheme : (parseParams split).scheme = split.scheme := rfl

@[simp] theorem parseParams_netloc : (parseParams split).netloc = split.netloc := rfl

@[simp] theorem parseParams_query : (parseParams split).query = split.query := rfl

theorem parseParams_path : (parseParams split).path =
    if split.scheme ∈ usesParams ∧ ';' ∈ split.path then (splitParams split.path).1 else split.path := by
  rw [parseParams]
  by_cases h : split.scheme ∈ usesParams ∧ ';' ∈ split.path
  · rw [if_pos h, if_pos h]
  · rw [if_neg h, if_neg h]

theorem exists_params (split : SplitResult) : ∃ rest, split.path = (parseParams split).path ++ rest ∧
    (rest = [] ∨ ∃ params, rest = ';' :: params) := by
  rw [parseParams_path]
  split
  · have hsegment : split.path = split.path.rdropWhile (· ≠ '/') ++ split.path.rtakeWhile (· ≠ '/') :=
      List.rdropWhile_append_rtakeWhile.symm
    refine ⟨(split.path.rtakeWhile (· ≠ '/')).dropWhile (· ≠ ';'), ?_, dropWhile_ne_eq _ _⟩
    conv_lhs => rw [hsegment, ← List.takeWhile_append_dropWhile (p := (· ≠ ';'))
      (l := split.path.rtakeWhile (· ≠ '/'))]
    rw [splitParams, List.append_assoc]
  · exact ⟨[], (List.append_nil _).symm, .inl rfl⟩

theorem parseParams_front : (parseParams split).path <+: split.path := by
  obtain ⟨rest, heq, _⟩ := exists_params split
  exact ⟨rest, heq.symm⟩

theorem mem_of_mem_parseParams {ch : Char} (h : ch ∈ (parseParams split).path) : ch ∈ split.path :=
  parseParams_front.mem h

theorem parseParams_path_eq_iff (split : SplitResult) : (parseParams split).path = split.path ↔
    (split.scheme ∈ usesParams → ';' ∉ split.path.rtakeWhile (· ≠ '/')) := by
  rw [parseParams_path]
  by_cases hscheme : split.scheme ∈ usesParams
  · by_cases hmem : ';' ∈ split.path
    · rw [if_pos ⟨hscheme, hmem⟩, splitParams]
      have hpath : split.path.rdropWhile (· ≠ '/') ++ split.path.rtakeWhile (· ≠ '/') = split.path :=
        List.rdropWhile_append_rtakeWhile
      conv_lhs => rhs; rw [← hpath]
      rw [List.append_right_inj, List.takeWhile_eq_self_iff]
      constructor
      · exact fun hall _ hsemi => absurd (hall _ hsemi) (by decide)
      · intro hnone ch hch
        rw [decide_eq_true_iff]
        rintro rfl
        exact hnone hscheme hch
    · rw [if_neg fun h => hmem h.2]
      exact ⟨fun _ _ hsemi => hmem ((List.rtakeWhile_suffix _ _).mem hsemi), fun _ => rfl⟩
  · rw [if_neg fun h => hscheme h.1]
    exact ⟨fun _ h => absurd h hscheme, fun _ => rfl⟩

theorem urlparse_eq {p : UrlParser} {url : List Char} : p.urlparse url = (p.urlsplit url).map parseParams := rfl

/-- The parts of a parsed URL stop where the next part starts. -/
structure WellParsed (parsed : ParseResult) : Prop where
  scheme : parsed.scheme = [] ∨ IsScheme parsed.scheme
  netloc : ∀ ch ∈ parsed.netloc, isLocationChar ch = true ∧ isBreak ch = false
  path : ∀ ch ∈ parsed.path, ch ≠ '?' ∧ ch ≠ '#' ∧ isBreak ch = false
  path_start : parsed.netloc ≠ [] → StartsAtSlash parsed.path

theorem wellParsed_of_urlparse {p : UrlParser} {url : List Char} {parsed : ParseResult}
    (h : p.urlparse url = some parsed) : WellParsed parsed := by
  rw [urlparse_eq, Option.map_eq_some_iff] at h
  obtain ⟨split, hsplit, rfl⟩ := h
  have hw := wellSplit_of_urlsplit hsplit
  exact ⟨hw.scheme, hw.netloc, fun ch hch => hw.path ch (mem_of_mem_parseParams hch),
    fun hne => StartsAtSlash.front (hw.path_start hne) parseParams_front⟩

end Params

/-! ### Texts put together from parts -/

/-- A URL without a fragment, its location and path written one after the other. -/
def unsplit (scheme body query : List Char) : List Char :=
  scheme ++ ':' :: '/' :: '/' :: body ++ if query = [] then [] else '?' :: query

theorem takeWhile_append_stop {α : Type*} {q : α → Bool} (xs : List α) {ys : List α}
    (h : ∀ y, ys.head? = some y → q y = false) :
    (xs ++ ys).takeWhile q = xs.takeWhile q ∧ (xs ++ ys).dropWhile q = xs.dropWhile q ++ ys := by
  induction xs with
  | nil =>
    cases ys with
    | nil => exact ⟨rfl, rfl⟩
    | cons y ys => simp [h y rfl]
  | cons x xs ih =>
    cases hx : q x with
    | true => simpa [hx] using ih
    | false => simp [hx]

theorem cut_location {location path : List Char} (hlocation : ∀ ch ∈ location, isLocationChar ch = true)
    (hpath : StartsAtSlash path) : (location ++ path).takeWhile isLocationChar = location ∧
      (location ++ path).dropWhile isLocationChar = path := by
  have hstop : ∀ y, path.head? = some y → isLocationChar y = false := by
    intro y hy
    rcases hpath with rfl | ⟨rest, rfl⟩
    · cases hy
    · obtain rfl := Option.some.inj hy
      rfl
  obtain ⟨htake, hdrop⟩ := takeWhile_append_stop location hstop
  rw [htake, hdrop, List.takeWhile_eq_self_iff.2 hlocation, List.dropWhile_eq_nil_iff.2 hlocation]
  exact ⟨rfl, rfl⟩

theorem rdropWhile_append_stop {α : Type*} {q : α → Bool} {xs ys : List α}
    (h : ∀ x, xs.getLast? = some x → q x = false) : (xs ++ ys).rdropWhile q = xs ++ ys.rdropWhile q := by
  have hstop : ∀ x, xs.reverse.head? = some x → q x = false := by
    intro x hx
    rw [List.head?_reverse] at hx
    exact h x hx
  rw [List.rdropWhile, List.reverse_append, (takeWhile_append_stop _ hstop).2, List.reverse_append,
    List.reverse_reverse, List.rdropWhile]

/-- What may stand in the parts of a text that is put together. -/
structure Parts (body query : List Char) : Prop where
  body : ∀ ch ∈ body, ch ≠ '?' ∧ ch ≠ '#' ∧ isBreak ch = false
  query : ∀ ch ∈ query, ch ≠ '#' ∧ isBreak ch = false

variable {p : UrlParser} {scheme body query : List Char}

theorem isSchemeChar_of_mem (hs : IsScheme scheme) {ch : Char} (h : ch ∈ scheme) :
    isSchemeChar ch = true :=
  List.all_eq_true.1 hs.chars ch h

theorem isBreak_of_mem_unsplit (hscheme : ∀ ch ∈ scheme, isBreak ch = false)
    (hparts : Parts body query) : ∀ ch ∈ unsplit scheme body query, isBreak ch = false := by
  intro ch hch
  simp only [unsplit, List.mem_append, List.mem_cons] at hch
  rcases hch with (hch | rfl | rfl | rfl | hch) | hch
  · exact hscheme ch hch
  · rfl
  · rfl
  · rfl
  · exact (hparts.body ch hch).2.2
  · split at hch
    · cases hch
    · rcases List.mem_cons.1 hch with rfl | hmem
      · rfl
      · exact (hparts.query ch hmem).2

theorem notBreak_of_mem_urlencode {pairs : List (List Char × List Char)} {ch : Char} (h : ch ∈ urlencode pairs) :
    ch ≠ '#' ∧ isBreak ch = false := by
  rcases of_mem_urlencode h with hquoted | hmem
  · constructor
    · rintro rfl
      exact absurd hquoted (by decide)
    · cases hbreak : isBreak ch with
      | false => rfl
      | true =>
        simp only [isBreak, Bool.or_eq_true, decide_eq_true_iff] at hbreak
        rcases hbreak with (rfl | rfl) | rfl <;> exact absurd hquoted (by decide)
  · simp only [List.mem_cons, List.not_mem_nil, or_false] at hmem
    rcases hmem with rfl | rfl | rfl <;> decide

theorem cut_query (hparts : Parts body query) (xs : List Char)
    (hxs : ∀ ch ∈ xs, ch ≠ '?' ∧ ch ≠ '#') :
    let text := xs ++ if query = [] then [] else '?' :: query
    text.takeWhile (· ≠ '#') = text ∧ text.dropWhile (· ≠ '#') = [] ∧ text.takeWhile (· ≠ '?') = xs ∧
      (text.dropWhile (· ≠ '?')).drop 1 = query := by
  intro text
  have hfragment : ∀ ch ∈ text, decide (ch ≠ '#') = true := by
    intro ch hch
    rw [decide_eq_true_iff]
    rcases List.mem_append.1 hch with hmem | hmem
    · exact (hxs ch hmem).2
    · split at hmem
      · cases hmem
      · rcases List.mem_cons.1 hmem with rfl | hmem
        · decide
        · exact (hparts.query ch hmem).1
  have hpath : ∀ ch ∈ xs, decide (ch ≠ '?') = true := by
    intro ch hch
    rw [decide_eq_true_iff]
    exact (hxs ch hch).1
  refine ⟨List.takeWhile_eq_self_iff.2 hfragment, List.dropWhile_eq_nil_iff.2 hfragment, ?_, ?_⟩
  · rw [List.takeWhile_append_of_pos hpath]
    split <;> simp
  · rw [List.dropWhile_append_of_pos hpath]
    split
    · next hnil => simp [hnil]
    · simp

theorem cleaned_eq {url : List Char} (hhead : ∀ ch, url.head? = some ch → 0x20 < ch.toNat)
    (h : ∀ ch ∈ url, isBreak ch = false) : cleaned url = url := by
  have hfront : url.dropWhile (fun ch => decide (ch.toNat ≤ 0x20)) = url := by
    cases url with
    | nil => rfl
    | cons ch rest =>
      apply List.dropWhile_cons_of_neg
      rw [decide_eq_true_iff, Nat.not_le]
      exact hhead ch rfl
  rw [cleaned, hfront, List.filter_eq_self]
  intro ch hch
  simpa [isBreak] using h ch hch

theorem unsplit_eq (scheme body query : List Char) : unsplit scheme body query =
    scheme ++ ':' :: '/' :: '/' :: (body ++ if query = [] then [] else '?' :: query) := by
  simp [unsplit]

theorem unsplit_right_inj {body' : List Char} :
    unsplit scheme body query = unsplit scheme body' query ↔ body = body' := by
  simp [unsplit]

theorem takeWhile_unsplit (hs : IsScheme scheme) (body query : List Char) :
    (unsplit scheme body query).takeWhile (· ≠ ':') = scheme := by
  have hcolon : ∀ ch ∈ scheme, decide (ch ≠ ':') = true := by
    intro ch hch
    rw [decide_eq_true_iff]
    rintro rfl
    exact absurd (isSchemeChar_of_mem hs hch) (by decide)
  rw [unsplit_eq, List.takeWhile_append_of_pos hcolon]
  simp

theorem unsplit_injective {scheme' body' query' : List Char} (hs : IsScheme scheme) (hs' : IsScheme scheme')
    (hparts : Parts body query) (hparts' : Parts body' query')
    (h : unsplit scheme body query = unsplit scheme' body' query') :
    scheme = scheme' ∧ body = body' ∧ query = query' := by
  have hscheme : scheme = scheme' := by rw [← takeWhile_unsplit hs body query, h, takeWhile_unsplit hs']
  subst hscheme
  rw [unsplit_eq, unsplit_eq, List.append_right_inj, List.cons_inj_right, List.cons_inj_right,
    List.cons_inj_right] at h
  obtain ⟨_, _, hbody, hquery⟩ := cut_query hparts body fun ch hch =>
    ⟨(hparts.body ch hch).1, (hparts.body ch hch).2.1⟩
  obtain ⟨_, _, hbody', hquery'⟩ := cut_query hparts' body' fun ch hch =>
    ⟨(hparts'.body ch hch).1, (hparts'.body ch hch).2.1⟩
  rw [h] at hbody hquery
  exact ⟨rfl, hbody.symm.trans hbody', hquery.symm.trans hquery'⟩

/-- A text put together from a scheme and other parts is split into them, the location and the path
apart at the first slash. -/
theorem urlsplit_unsplit (hs : IsScheme scheme) (hparts : Parts body query) :
    p.urlsplit (unsplit scheme body query) =
      if p.refuses (body.takeWhile isLocationChar) then none
      else some ⟨scheme, body.takeWhile isLocationChar, body.dropWhile isLocationChar, query, []⟩ := by
  have hclean : cleaned (unsplit scheme body query) = unsplit scheme body query := by
    apply cleaned_eq
    · intro ch hch
      have hhead : scheme.head? = some ch := by
        cases hscheme : scheme with
        | nil =>
          have hnone := hs.head
          simp [hscheme] at hnone
        | cons c rest => simpa [unsplit, hscheme] using hch
      have halpha : ch.isAlpha = true := by simpa [hhead] using hs.head
      rw [isAlpha_iff] at halpha
      omega
    · apply isBreak_of_mem_unsplit _ hparts
      intro ch hch
      have hsch := isSchemeChar_of_mem hs hch
      cases hbreak : isBreak ch with
      | false => rfl
      | true =>
        simp only [isBreak, Bool.or_eq_true, decide_eq_true_iff] at hbreak
        rcases hbreak with (rfl | rfl) | rfl <;> exact absurd hsch (by decide)
  have htake := takeWhile_unsplit hs body query
  have hcond : (':' ∈ unsplit scheme body query && (scheme.head?.map Char.isAlpha).getD false &&
      scheme.all isSchemeChar) = true := by
    rw [hs.head, hs.chars]
    simp [unsplit]
  have hafter : afterScheme (unsplit scheme body query) =
      '/' :: '/' :: (body ++ if query = [] then [] else '?' :: query) := by
    simp only [afterScheme, htake, hcond, if_true]
    rw [unsplit_eq, List.drop_append, List.drop_eq_nil_of_le (by omega)]
    simp
  have hschemeOf : schemeOf (unsplit scheme body query) = scheme := by
    simp only [schemeOf, htake, hcond, if_true, hs.lowered]
  have hstop : ∀ y, (if query = [] then [] else '?' :: query).head? = some y → isLocationChar y = false := by
    intro y hy
    split at hy
    · cases hy
    · obtain rfl := Option.some.inj hy
      rfl
  obtain ⟨hlocation, hpath⟩ := takeWhile_append_stop body hstop
  obtain ⟨hf, hf', hq, hq'⟩ := cut_query hparts (body.dropWhile isLocationChar) fun ch hch =>
    have hmem := (List.dropWhile_sublist _).mem hch
    ⟨(hparts.body ch hmem).1, (hparts.body ch hmem).2.1⟩
  have hnetloc : p.netloc (unsplit scheme body query) =
      if p.refuses (body.takeWhile isLocationChar) then none else some (body.takeWhile isLocationChar) := by
    rw [← hlocation, netloc, hclean, hafter]
    rfl
  rw [urlsplit, hnetloc, hclean, hafter, hschemeOf, afterLocation, hpath]
  split
  · next heq =>
    split at heq
    · next hrefuses => rw [if_pos hrefuses]
    · cases heq
  · next loc heq =>
    split at heq
    · cases heq
    · next hrefuses =>
      obtain rfl := Option.some.inj heq
      rw [if_neg hrefuses]
      simp only [hf, hf', hq, hq', List.drop_nil]

theorem urlsplit_unsplit_nil (hparts : Parts body query) :
    p.urlsplit (unsplit [] body query) = some ⟨[], [], ':' :: '/' :: '/' :: body, query, []⟩ := by
  have hclean : cleaned (unsplit [] body query) = unsplit [] body query := by
    apply cleaned_eq
    · intro ch hch
      obtain rfl := Option.some.inj hch
      decide
    · apply isBreak_of_mem_unsplit _ hparts
      intro ch hch
      cases hch
  have hafter : afterScheme (unsplit [] body query) = unsplit [] body query := by
    simp [afterScheme, unsplit]
  have hscheme : schemeOf (unsplit [] body query) = [] := by simp [schemeOf, unsplit]
  obtain ⟨hf, hf', hq, hq'⟩ := cut_query hparts (':' :: '/' :: '/' :: body) (by
    intro ch hch
    simp only [List.mem_cons] at hch
    rcases hch with rfl | rfl | rfl | hmem
    · decide
    · decide
    · decide
    · exact ⟨(hparts.body ch hmem).1, (hparts.body ch hmem).2.1⟩)
  have hnetloc : p.netloc (unsplit [] body query) = some [] := by
    rw [netloc, hclean, hafter]
    rfl
  have htext : unsplit [] body query =
      ':' :: '/' :: '/' :: body ++ if query = [] then [] else '?' :: query := rfl
  have hrest : afterLocation (unsplit [] body query) = unsplit [] body query := rfl
  rw [urlsplit, hnetloc, hclean, hafter, hscheme, hrest, htext]
  simp only [hf, hf', hq, hq', List.drop_nil]

end UrlParser

end Hledac.Py
