import Mathlib.Data.Char
import Mathlib.Data.Prod.Lex
import Hledac.Py.UrlHost

/-!
# Canonical URLs for dedup

The Python paths of `normalize_url`, `fingerprint_url` and `strip_tracking_params`;
`url_dedup.py:949-1119`. All three put the URL together again from its parsed parts, by hand and in
near copies: the brackets of an address, the parameters of a path, blank query values, port zero and the
absence of a scheme do not come back.
-/

namespace Hledac.Tools.UrlDedup

open Hledac.Py Hledac.Py.UrlParser

/-- A query as name and value pairs. -/
abbrev Pairs := List (List Char × List Char)

/-- `sorted`, of pairs of strings. -/
def sorted (pairs : Pairs) : Pairs := pairs.insertionSort fun a b => toLex a ≤ toLex b

def http : List Char := "http".toList

def https : List Char := "https".toList

/-- The port that is written: neither the default of the scheme nor a falsy one. -/
def shownPort (scheme : List Char) (port : Option Nat) : Option Nat :=
  if port = some 80 ∧ scheme = http then none
  else if port = some 443 ∧ scheme = https then none
  else if port = some 0 then none
  else port

/-- The URL put together from its parts, as the three functions do it. -/
def rebuild (scheme host : List Char) (port : Option Nat) (path : List Char) (params : Pairs) : List Char :=
  scheme ++ ':' :: '/' :: '/' :: host ++ portSuffix (shownPort scheme port) ++
    (if path = [] then ['/'] else path) ++ if params = [] then [] else '?' :: urlencode params

/-- `tracking_params`, without the Rust extension. -/
def trackingParams : List (List Char) :=
  ["utm_source", "utm_medium", "utm_campaign", "utm_term", "utm_content", "fbclid", "gclid", "gclsrc",
    "dclid", "msclkid", "twclid", "mc_cid", "mc_eid", "_ga", "_gl"].map String.toList

def isTracking (pair : List Char × List Char) : Bool := trackingParams.contains pair.1

variable (t : UrlTables)

/-- `parsed.hostname or ""`. -/
def hostText (location : List Char) : List Char := (t.parser.hostnameOf location).getD []

/-- `normalize_url`; `none` where it raises `ValueError`. A location that is refused is caught, a port is
not; lines 949-1014. -/
def normalizeUrl (url : List Char) : Option (List Char) :=
  match t.parser.urlparse url with
  | none => some url
  | some parsed =>
    match port parsed.netloc with
    | none => none
    | some port => some (rebuild parsed.scheme (t.nfc (hostText t parsed.netloc)) port parsed.path
        (sorted (parseQsl false parsed.query)))

/-- `fingerprint_url`, over the `xxh3_64` that is installed, if one is; lines 1017-1056. -/
def fingerprintUrl (xxh3 : Option (List Char → Nat)) (url : List Char) : Option Nat :=
  match xxh3 with
  | none => none
  | some xxh3 =>
    match t.parser.urlparse url with
    | none => none
    | some parsed =>
      match port parsed.netloc with
      | none => none
      | some port => some (xxh3 (rebuild parsed.scheme (hostText t parsed.netloc) port parsed.path
          (sorted (parseQsl false parsed.query))))

/-- `strip_tracking_params`; lines 1059-1119. -/
def stripTrackingParams (url : List Char) : List Char :=
  match t.parser.urlparse url with
  | none => url
  | some parsed =>
    match port parsed.netloc with
    | none => url
    | some port => rebuild parsed.scheme (hostText t parsed.netloc) port parsed.path
        ((parseQsl false parsed.query).filter fun pair => !isTracking pair)

/-! ### What should hold -/

/-- The port of a scheme whose URL names none. -/
def defaultPort (scheme : List Char) : Option Nat :=
  if scheme = http then some 80 else if scheme = https then some 443 else none

/-- What a URL says. -/
structure Content where
  scheme : List Char
  host : Option (List Char)
  port : Option Nat
  path : List Char
  query : Pairs

/-- What the parsed URL says: the port in effect, a root path for none, parameters as part of the path
and blank values as part of the query. -/
def contentOf? (url : List Char) : Option Content :=
  match t.parser.urlsplit url with
  | none => none
  | some split =>
    match port split.netloc with
    | none => none
    | some port => some
        { scheme := split.scheme
          host := t.parser.hostnameOf split.netloc
          port := port.or (defaultPort split.scheme)
          path := if split.path = [] then ['/'] else split.path
          query := parseQsl true split.query }

/-- Two contents agree: in the host up to the encoding of its characters, in the port, the path and those
pairs of the query that count, in any order. -/
structure Content.Agrees (counts : List Char × List Char → Bool) (a b : Content) : Prop where
  host : a.host.map t.nfc = b.host.map t.nfc
  port : a.port = b.port
  path : a.path = b.path
  query : (a.query.filter counts).Perm (b.query.filter counts)

/-- Two URLs say the same, or neither is one. -/
def SameContent (counts : List Char × List Char → Bool) (u v : List Char) : Prop :=
  (contentOf? t u = none ∧ contentOf? t v = none) ∨
    ∃ a b, contentOf? t u = some a ∧ contentOf? t v = some b ∧ a.Agrees t counts b

/-- The canonical form of a URL exists, is canonical and says what the URL says; without tracking
parameters it says the rest. -/
structure Stable (url : List Char) : Prop where
  normal : ∃ r, normalizeUrl t url = some r ∧ normalizeUrl t r = some r ∧ SameContent t (fun _ => true) url r
  stripped : SameContent t (fun pair => !isTracking pair) url (stripTrackingParams t url)

/-- Two URLs are stable, and with one canonical form they have one fingerprint, whatever the hash. -/
structure KeepsApart (u v : List Char) : Prop where
  left : Stable t u
  right : Stable t v
  fingerprint : normalizeUrl t u = normalizeUrl t v → ∀ xxh3, fingerprintUrl t xxh3 u = fingerprintUrl t xxh3 v

/-- A split URL that can be put together again. -/
structure PlainSplit (split : SplitResult) : Prop where
  scheme : split.scheme ≠ []
  port : ∃ port, UrlParser.port split.netloc = some port ∧ port ≠ some 0
  path : split.path = [] ∨ ∃ rest, split.path = '/' :: rest
  params : (parseParams split).path = split.path
  host : ∀ ch ∈ hostOf split.netloc, ch ∉ [':', '[', ']']
  query : ∀ pair ∈ parseQsl true split.query, pair.2 ≠ []

/-- A URL that can be put together again, or that the parser refuses. -/
def Plain (url : List Char) : Prop := ∀ split, t.parser.urlsplit url = some split → PlainSplit split

/-- Two plain URLs whose hosts differ in the encoding of characters only differ in something else. -/
def HostsApart (u v : List Char) : Prop :=
  ∀ a b, contentOf? t u = some a → contentOf? t v = some b → a.scheme = b.scheme →
    a.Agrees t (fun _ => true) b → a.host = b.host

/-! ### Parameters and ports -/

variable {t} {split : SplitResult} {location host path scheme : List Char}

theorem shownPort_le {port : Option Nat} (h : ∀ n, port = some n → n ≤ 65535) :
    ∀ n, shownPort scheme port = some n → n ≤ 65535 := by
  intro n hn
  rw [shownPort] at hn
  split at hn
  · cases hn
  · split at hn
    · cases hn
    · split at hn
      · cases hn
      · exact h n hn

theorem shownPort_shownPort (scheme : List Char) (port : Option Nat) :
    shownPort scheme (shownPort scheme port) = shownPort scheme port := by
  rw [shownPort.eq_def scheme port]
  split
  · rfl
  · split
    · rfl
    · split
      · rfl
      · next h₁ h₂ h₃ => rw [shownPort, if_neg h₁, if_neg h₂, if_neg h₃]

theorem shownPort_or {port : Option Nat} (h : port ≠ some 0) :
    (shownPort scheme port).or (defaultPort scheme) = port.or (defaultPort scheme) := by
  rw [shownPort]
  split
  · next heq =>
    obtain ⟨rfl, rfl⟩ := heq
    rfl
  · split
    · next heq =>
      obtain ⟨rfl, rfl⟩ := heq
      rfl
    · rfl

theorem shownPort_eq_of_or {p q : Option Nat} (h : p.or (defaultPort scheme) = q.or (defaultPort scheme)) :
    shownPort scheme p = shownPort scheme q := by
  have hdefault : ∀ n, defaultPort scheme = some n → shownPort scheme (some n) = shownPort scheme none := by
    intro n hn
    rw [defaultPort] at hn
    split at hn
    · next hhttp =>
      cases hn
      simp [shownPort, hhttp]
    · split at hn
      · next hhttps =>
        cases hn
        simp [shownPort, hhttps]
      · cases hn
  cases p with
  | none =>
    cases q with
    | none => rfl
    | some m => exact (hdefault m h).symm
  | some n =>
    cases q with
    | none => exact hdefault n h.symm
    | some m => rw [show some n = some m from h]

theorem port_le {port : Option Nat} (h : UrlParser.port location = some port) :
    ∀ n, port = some n → n ≤ 65535 := by
  rintro n rfl
  rw [UrlParser.port] at h
  split at h
  · cases h
  · split at h
    · split at h
      · split at h
        · next hle =>
          cases h
          exact hle
        · cases h
      · cases h
    · cases h

/-! ### Sorting -/

theorem sorted_perm (pairs : Pairs) : (sorted pairs).Perm pairs := List.perm_insertionSort _ _

theorem sorted_sorted (pairs : Pairs) : sorted (sorted pairs) = sorted pairs :=
  (List.pairwise_insertionSort _ _).insertionSort_eq

theorem sorted_eq_of_perm {a b : Pairs} (h : a.Perm b) : sorted a = sorted b := by
  have hanti : ∀ x y, x ∈ sorted a → y ∈ sorted b → toLex x ≤ toLex y → toLex y ≤ toLex x → x = y :=
    fun x y _ _ hxy hyx => toLex_inj.1 (le_antisymm hxy hyx)
  exact List.Perm.eq_of_pairwise hanti (List.pairwise_insertionSort _ _) (List.pairwise_insertionSort _ _)
    ((sorted_perm a).trans (h.trans (sorted_perm b).symm))

/-! ### Hosts -/

/-- The delimiters of a written host are those of the host in the location. -/
def FromHost (location host : List Char) : Prop :=
  ∀ ch ∈ host, isDelimiter ch = true → ch ∈ hostOf location

theorem hostText_eq (t : UrlTables) (location : List Char) :
    hostText t location = t.parser.lowerHost (hostOf location) := by
  rw [hostText, hostnameOf]
  split
  · next hnil => rw [hnil, UrlTables.lowerHost_eq_nil.2 rfl, Option.getD_none]
  · rfl

theorem hostnameOf_eq (t : UrlTables) (location : List Char) :
    t.parser.hostnameOf location = if hostText t location = [] then none else some (hostText t location) := by
  rw [hostText_eq, hostnameOf]
  by_cases hnil : hostOf location = []
  · rw [if_pos hnil, if_pos (UrlTables.lowerHost_eq_nil.2 hnil)]
  · rw [if_neg hnil, if_neg (mt UrlTables.lowerHost_eq_nil.1 hnil)]

theorem fromHost_hostText (t : UrlTables) (location : List Char) : FromHost location (hostText t location) := by
  intro ch hch hdelim
  rw [hostText_eq] at hch
  exact (UrlTables.mem_lowerHost hdelim).1 hch

theorem fromHost_nfc (t : UrlTables) (location : List Char) : FromHost location (t.nfc (hostText t location)) :=
  fun ch hch hdelim => fromHost_hostText t location ch ((t.delimiter_nfc _ ch hdelim).1 hch) hdelim

theorem at_notMem (h : FromHost location host) : '@' ∉ host := fun hmem =>
  UrlTables.at_notMem_hostOf location (h '@' hmem rfl)

theorem isLocationChar_of_fromHost (hw : WellSplit split) (h : FromHost split.netloc host) {ch : Char}
    (hch : ch ∈ host) : isLocationChar ch = true ∧ isBreak ch = false ∧ ch ≠ '?' ∧ ch ≠ '#' := by
  cases hdelim : isDelimiter ch with
  | false => exact isLocationChar_of_isDelimiter hdelim
  | true =>
    obtain ⟨hloc, hbreak⟩ := hw.netloc ch (UrlTables.mem_location_of_mem_hostOf (h ch hch hdelim))
    refine ⟨hloc, hbreak, ?_, ?_⟩
    · rintro rfl
      exact absurd hloc (by decide)
    · rintro rfl
      exact absurd hloc (by decide)

theorem isLocationChar_portSuffix {port : Option Nat} {ch : Char} (hch : ch ∈ portSuffix port) :
    isLocationChar ch = true ∧ isBreak ch = false ∧ ch ≠ '?' ∧ ch ≠ '#' := by
  rcases portSuffix_cases hch with rfl | hdigit
  · decide
  · refine ⟨?_, ?_, ?_, ?_⟩
    · cases hloc : isLocationChar ch with
      | true => rfl
      | false =>
        simp only [isLocationChar, Bool.not_eq_false', Bool.or_eq_true, decide_eq_true_iff] at hloc
        rcases hloc with (rfl | rfl) | rfl <;> exact absurd hdigit (by decide)
    · cases hbreak : isBreak ch with
      | false => rfl
      | true =>
        simp only [isBreak, Bool.or_eq_true, decide_eq_true_iff] at hbreak
        rcases hbreak with (rfl | rfl) | rfl <;> exact absurd hdigit (by decide)
    · rintro rfl
      exact absurd hdigit (by decide)
    · rintro rfl
      exact absurd hdigit (by decide)

/-! ### Rebuilt URLs -/

/-- The path, or the root for none. -/
def rooted (path : List Char) : List Char := if path = [] then ['/'] else path

theorem rebuild_eq (scheme host : List Char) (port : Option Nat) (path : List Char) (params : Pairs) :
    rebuild scheme host port path params =
      unsplit scheme (host ++ portSuffix (shownPort scheme port) ++ rooted path) (urlencode params) := by
  have hquery : (if params = [] then [] else '?' :: urlencode params) =
      if urlencode params = [] then [] else '?' :: urlencode params := by
    by_cases hnil : params = []
    · rw [if_pos hnil, hnil]
      rfl
    · rw [if_neg hnil, if_neg (urlencode_ne_nil hnil)]
  rw [rebuild, unsplit, rooted, hquery]
  simp

theorem parts_urlencode (hw : WellSplit split) (h : FromHost split.netloc host) (port : Option Nat)
    (hpath : ∀ ch ∈ path, ch ∈ split.path) (params : Pairs) :
    Parts (host ++ portSuffix port ++ rooted path) (urlencode params) := by
  constructor
  · intro ch hch
    simp only [List.mem_append] at hch
    rcases hch with (hch | hch) | hch
    · exact ⟨(isLocationChar_of_fromHost hw h hch).2.2.1, (isLocationChar_of_fromHost hw h hch).2.2.2,
        (isLocationChar_of_fromHost hw h hch).2.1⟩
    · exact ⟨(isLocationChar_portSuffix hch).2.2.1, (isLocationChar_portSuffix hch).2.2.2,
        (isLocationChar_portSuffix hch).2.1⟩
    · rw [rooted] at hch
      split at hch
      · rw [List.mem_singleton] at hch
        subst hch
        decide
      · exact hw.path ch (hpath ch hch)
  · exact fun ch => notBreak_of_mem_urlencode

theorem cut_body (hw : WellSplit split) (h : FromHost split.netloc host) (port : Option Nat)
    (hroot : ∃ rest, rooted path = '/' :: rest) :
    (host ++ portSuffix port ++ rooted path).takeWhile isLocationChar = host ++ portSuffix port ∧
      (host ++ portSuffix port ++ rooted path).dropWhile isLocationChar = rooted path := by
  obtain ⟨rest, hrest⟩ := hroot
  have hlocation : ∀ ch ∈ host ++ portSuffix port, isLocationChar ch = true := by
    intro ch hch
    rcases List.mem_append.1 hch with hmem | hmem
    · exact (isLocationChar_of_fromHost hw h hmem).1
    · exact (isLocationChar_portSuffix hmem).1
  constructor
  · rw [List.takeWhile_append_of_pos hlocation, hrest]
    simp [isLocationChar]
  · rw [List.dropWhile_append_of_pos hlocation, hrest]
    simp [isLocationChar]

theorem urlsplit_rebuild (hs : IsScheme scheme) (hw : WellSplit split) (h : FromHost split.netloc host)
    (port : Option Nat) (hpath : ∀ ch ∈ path, ch ∈ split.path) (hroot : ∃ rest, rooted path = '/' :: rest)
    (params : Pairs) : t.parser.urlsplit (rebuild scheme host port path params) =
      if t.parser.refuses (host ++ portSuffix (shownPort scheme port)) then none
      else some ⟨scheme, host ++ portSuffix (shownPort scheme port), rooted path, urlencode params, []⟩ := by
  obtain ⟨htake, hdrop⟩ := cut_body hw h (shownPort scheme port) hroot
  rw [rebuild_eq, urlsplit_unsplit hs (parts_urlencode hw h _ hpath params), htake, hdrop]

/-! ### Plain URLs -/

theorem isScheme_of_plain (hw : WellSplit split) (hp : PlainSplit split) : IsScheme split.scheme :=
  hw.scheme.resolve_left hp.scheme

theorem exists_rooted (hpath : path = [] ∨ ∃ rest, path = '/' :: rest) : ∃ rest, rooted path = '/' :: rest := by
  rcases hpath with rfl | ⟨rest, rfl⟩
  · exact ⟨[], rfl⟩
  · exact ⟨rest, rfl⟩

theorem rooted_rooted (path : List Char) : rooted (rooted path) = rooted path := by
  by_cases hnil : path = []
  · rw [rooted.eq_def path, if_pos hnil]
    rfl
  · rw [rooted.eq_def path, if_neg hnil, rooted, if_neg hnil]

/-- A host written for a plain URL: no delimiter of a location, and accepted before any port. -/
structure Written (t : UrlTables) (host : List Char) : Prop where
  plain : '@' ∉ host ∧ '[' ∉ host ∧ ':' ∉ host
  lowered : t.parser.lowerHost host = host
  accepted : ∀ port, t.parser.refuses (host ++ portSuffix port) = false

theorem hostText_withPort (h : Written t host) (port : Option Nat) :
    hostText t (host ++ portSuffix port) = host := by
  rw [hostText_eq, hostOf_withPort h.plain.1 h.plain.2.1, takeWhile_colon h.plain.2.2, h.lowered]

theorem written_of_plain {url : List Char} (hsplit : t.parser.urlsplit url = some split)
    (hp : PlainSplit split) :
    Written t (hostText t split.netloc) ∧ Written t (t.nfc (hostText t split.netloc)) := by
  have hplain : ∀ host, FromHost split.netloc host → '@' ∉ host ∧ '[' ∉ host ∧ ':' ∉ host ∧ ']' ∉ host := by
    intro host hfrom
    refine ⟨at_notMem hfrom, fun h => ?_, fun h => ?_, fun h => ?_⟩
    · exact hp.host _ (hfrom _ h rfl) (by simp)
    · exact hp.host _ (hfrom _ h rfl) (by simp)
    · exact hp.host _ (hfrom _ h rfl) (by simp)
  have haccepted : mismatched split.netloc = false ∧ t.refuses split.netloc = false := by
    rcases netloc_cases (netloc_of_urlsplit hsplit) with ⟨-, -, -, hrefuses⟩ | hnil
    · simpa [UrlTables.parser] using hrefuses
    · rw [hnil]
      exact ⟨rfl, t.refuses_nil⟩
  have hrefuses := t.refuses_host split.netloc haccepted.1 haccepted.2
    (fun h => hp.host _ h (by simp)) (fun h => hp.host _ h (by simp))
  have hmatched : ∀ host port, FromHost split.netloc host → mismatched (host ++ portSuffix port) = false := by
    intro host port hfrom
    obtain ⟨-, hopen, -, hclose⟩ := hplain host hfrom
    have hleft : '[' ∉ host ++ portSuffix port := notMem_withPort hopen (by decide) (by decide)
    have hright : ']' ∉ host ++ portSuffix port := notMem_withPort hclose (by decide) (by decide)
    simp [mismatched, hleft, hright]
  have hraw := fromHost_hostText t split.netloc
  have hnfc := fromHost_nfc t split.netloc
  have hlower : t.parser.lowerHost (hostText t split.netloc) = hostText t split.netloc := by
    rw [hostText_eq, UrlTables.lowerHost_lowerHost]
  have hlowerNfc : t.parser.lowerHost (t.nfc (hostText t split.netloc)) = t.nfc (hostText t split.netloc) := by
    rw [hostText_eq]
    exact t.lowerHost_nfc _
  constructor
  · refine ⟨⟨(hplain _ hraw).1, (hplain _ hraw).2.1, (hplain _ hraw).2.2.1⟩, hlower, fun port => ?_⟩
    have hright := (hrefuses port).1
    show (mismatched _ || t.refuses _) = false
    rw [hmatched _ port hraw, Bool.false_or, hostText_eq]
    exact hright
  · refine ⟨⟨(hplain _ hnfc).1, (hplain _ hnfc).2.1, (hplain _ hnfc).2.2.1⟩, hlowerNfc, fun port => ?_⟩
    have hright := (hrefuses port).2
    show (mismatched _ || t.refuses _) = false
    rw [hmatched _ port hnfc, Bool.false_or, hostText_eq]
    exact hright

theorem urlsplit_of_plain (hw : WellSplit split) (hp : PlainSplit split) (hfrom : FromHost split.netloc host)
    (h : Written t host) (port : Option Nat) (params : Pairs) :
    t.parser.urlsplit (rebuild split.scheme host port (parseParams split).path params) =
      some ⟨split.scheme, host ++ portSuffix (shownPort split.scheme port), rooted split.path,
        urlencode params, []⟩ := by
  have hroot : ∃ rest, rooted (parseParams split).path = '/' :: rest := by
    rw [hp.params]
    exact exists_rooted hp.path
  rw [urlsplit_rebuild (isScheme_of_plain hw hp) hw hfrom port (fun ch => mem_of_mem_parseParams) hroot params,
    if_neg (by rw [h.accepted]; exact Bool.false_ne_true), hp.params]

theorem contentOf?_of_plain (hw : WellSplit split) (hp : PlainSplit split) (hfrom : FromHost split.netloc host)
    (h : Written t host) {port : Option Nat} (hport : UrlParser.port split.netloc = some port) (params : Pairs) :
    contentOf? t (rebuild split.scheme host port (parseParams split).path params) =
      some ⟨split.scheme, if host = [] then none else some host,
        port.or (defaultPort split.scheme), rooted split.path, params⟩ := by
  have hzero : port ≠ some 0 := by
    obtain ⟨q, hq, hne⟩ := hp.port
    rw [hport] at hq
    cases hq
    exact hne
  have hreport : UrlParser.port (host ++ portSuffix (shownPort split.scheme port)) =
      some (shownPort split.scheme port) :=
    port_withPort h.plain.1 h.plain.2.1 h.plain.2.2 (shownPort_le (port_le hport))
  have hroot : (if rooted split.path = [] then ['/'] else rooted split.path) = rooted split.path :=
    rooted_rooted split.path
  simp only [contentOf?, urlsplit_of_plain hw hp hfrom h, hreport, hostnameOf_eq, hostText_withPort h,
    shownPort_or hzero, hroot, parseQsl_urlencode (.inl rfl)]

theorem normalizeUrl_rebuild (hw : WellSplit split) (hp : PlainSplit split) (hfrom : FromHost split.netloc host)
    (h : Written t host) {port : Option Nat} (hport : UrlParser.port split.netloc = some port) {params : Pairs}
    (hparams : ∀ pair ∈ params, pair.2 ≠ []) :
    normalizeUrl t (rebuild split.scheme host port (parseParams split).path params) =
      some (rebuild split.scheme (t.nfc host) port (parseParams split).path (sorted params)) := by
  have hreport : UrlParser.port (host ++ portSuffix (shownPort split.scheme port)) =
      some (shownPort split.scheme port) :=
    port_withPort h.plain.1 h.plain.2.1 h.plain.2.2 (shownPort_le (port_le hport))
  have hpath : (parseParams ⟨split.scheme, host ++ portSuffix (shownPort split.scheme port), rooted split.path,
      urlencode params, []⟩).path = rooted split.path := by
    by_cases hnil : split.path = []
    · rw [parseParams_path, rooted, if_pos hnil]
      simp
    · rw [parseParams_path, rooted, if_neg hnil]
      have hsame := hp.params
      rw [parseParams_path] at hsame
      exact hsame
  have htext : ∀ host params, rebuild split.scheme host (shownPort split.scheme port) (rooted split.path) params =
      rebuild split.scheme host port (parseParams split).path params := by
    intro host params
    rw [rebuild_eq, rebuild_eq, shownPort_shownPort, rooted_rooted, hp.params]
  simp only [normalizeUrl, urlparse_eq, urlsplit_of_plain hw hp hfrom h, Option.map_some, parseParams_scheme,
    parseParams_netloc, parseParams_query, hreport, hpath, hostText_withPort h,
    parseQsl_urlencode (.inr hparams), htext]

theorem contentOf?_eq {url : List Char} (hsplit : t.parser.urlsplit url = some split) {port : Option Nat}
    (hport : UrlParser.port split.netloc = some port) :
    contentOf? t url = some ⟨split.scheme, t.parser.hostnameOf split.netloc,
      port.or (defaultPort split.scheme), rooted split.path, parseQsl true split.query⟩ := by
  simp only [contentOf?, hsplit, hport, rooted]

theorem normalizeUrl_eq {url : List Char} (hsplit : t.parser.urlsplit url = some split) {port : Option Nat}
    (hport : UrlParser.port split.netloc = some port) :
    normalizeUrl t url = some (rebuild split.scheme (t.nfc (hostText t split.netloc)) port
      (parseParams split).path (sorted (parseQsl false split.query))) := by
  simp only [normalizeUrl, urlparse_eq, hsplit, Option.map_some, parseParams_scheme, parseParams_netloc,
    parseParams_query, hport]

theorem normalizeUrl_of_refused {url : List Char} (hsplit : t.parser.urlsplit url = none) :
    normalizeUrl t url = some url := by
  simp only [normalizeUrl, urlparse_eq, hsplit, Option.map_none]

theorem normalizeUrl_of_malformed {url : List Char} (hsplit : t.parser.urlsplit url = some split)
    (hport : UrlParser.port split.netloc = none) : normalizeUrl t url = none := by
  simp only [normalizeUrl, urlparse_eq, hsplit, Option.map_some, parseParams_netloc, hport]

theorem contentOf?_of_refused {url : List Char} (hsplit : t.parser.urlsplit url = none) :
    contentOf? t url = none := by
  simp only [contentOf?, hsplit]

theorem stripTrackingParams_of_refused {url : List Char} (hsplit : t.parser.urlsplit url = none) :
    stripTrackingParams t url = url := by
  simp only [stripTrackingParams, urlparse_eq, hsplit, Option.map_none]

theorem sameContent_refl (counts : List Char × List Char → Bool) (url : List Char) :
    SameContent t counts url url := by
  cases hcontent : contentOf? t url with
  | none => exact .inl ⟨hcontent, hcontent⟩
  | some a => exact .inr ⟨a, a, hcontent, hcontent, rfl, rfl, rfl, List.Perm.refl _⟩

theorem map_nfc_hostnameOf (t : UrlTables) (location : List Char) :
    (t.parser.hostnameOf location).map t.nfc =
      (if t.nfc (hostText t location) = [] then none else some (t.nfc (hostText t location))).map t.nfc := by
  rw [hostnameOf_eq]
  by_cases hnil : hostText t location = []
  · rw [if_pos hnil, if_pos ((t.nfc_eq_nil _).2 hnil)]
  · rw [if_neg hnil, if_neg (mt (t.nfc_eq_nil _).1 hnil), Option.map_some, Option.map_some, t.nfc_nfc]

theorem stable_of_plain {url : List Char} (h : Plain t url) : Stable t url := by
  cases hsplit : t.parser.urlsplit url with
  | none =>
    refine ⟨⟨url, normalizeUrl_of_refused hsplit, normalizeUrl_of_refused hsplit, sameContent_refl _ url⟩, ?_⟩
    rw [stripTrackingParams_of_refused hsplit]
    exact sameContent_refl _ url
  | some split =>
    have hp : PlainSplit split := h split hsplit
    have hw : WellSplit split := wellSplit_of_urlsplit hsplit
    obtain ⟨port, hport, -⟩ := hp.port
    obtain ⟨hraw, hnfc⟩ := written_of_plain hsplit hp
    have hblank : parseQsl false split.query = parseQsl true split.query := by
      rw [parseQsl_false, List.filter_eq_self]
      intro pair hpair
      simpa using hp.query pair hpair
    have hsorted : ∀ pair ∈ sorted (parseQsl true split.query), pair.2 ≠ [] := fun pair hpair =>
      hp.query pair ((sorted_perm _).mem_iff.1 hpair)
    have hcontent := contentOf?_eq hsplit hport
    constructor
    · refine ⟨_, normalizeUrl_eq hsplit hport, ?_, ?_⟩
      · rw [hblank, normalizeUrl_rebuild hw hp (fromHost_nfc t _) hnfc hport hsorted, t.nfc_nfc, sorted_sorted]
      · refine .inr ⟨_, _, hcontent, contentOf?_of_plain hw hp (fromHost_nfc t _) hnfc hport _, ?_, rfl, rfl, ?_⟩
        · exact map_nfc_hostnameOf t split.netloc
        · rw [hblank]
          exact (sorted_perm _).symm.filter _
    · have hstrip : stripTrackingParams t url = rebuild split.scheme (hostText t split.netloc) port
          (parseParams split).path ((parseQsl true split.query).filter fun pair => !isTracking pair) := by
        simp only [stripTrackingParams, urlparse_eq, hsplit, Option.map_some, parseParams_scheme,
          parseParams_netloc, parseParams_query, hport, hblank]
      rw [hstrip]
      refine .inr ⟨_, _, hcontent, contentOf?_of_plain hw hp (fromHost_hostText t _) hraw hport _, ?_, rfl, rfl, ?_⟩
      · rw [hostnameOf_eq]
      · rw [List.filter_filter]
        simp

/-! ### Only plain URLs are stable -/

theorem mem_nfc_hostText {ch : Char} (hdelim : isDelimiter ch = true) :
    ch ∈ t.nfc (hostText t location) ↔ ch ∈ hostOf location := by
  rw [t.delimiter_nfc _ ch hdelim, hostText_eq, UrlTables.mem_lowerHost hdelim]

theorem path_of_rooted {rest : List Char} (h : rooted path = '/' :: rest) : path = [] ∨ ∃ rest, path = '/' :: rest := by
  rw [rooted] at h
  split at h
  · next hnil => exact .inl hnil
  · exact .inr ⟨rest, h⟩

/-- Without a scheme the path of the rebuilt URL is the whole URL, longer than the path it had. -/
theorem path_ne_of_no_scheme (hw : WellSplit split) {port : Option Nat}
    (hport : UrlParser.port split.netloc = some port) :
    rooted split.path ≠ ':' :: '/' :: '/' :: (t.nfc (hostText t split.netloc) ++
      portSuffix (shownPort split.scheme port) ++ rooted (parseParams split).path) := by
  intro heq
  by_cases hnetloc : split.netloc = []
  · have hhost : t.nfc (hostText t split.netloc) = [] := by
      rw [t.nfc_eq_nil, hostText_eq, hnetloc]
      rfl
    have hnone : port = none := by
      rw [hnetloc] at hport
      exact (Option.some.inj hport).symm
    have hsuffix : portSuffix (shownPort split.scheme none) = [] := rfl
    obtain ⟨rest, hpath, hrest⟩ := exists_params split
    rw [hhost, hnone, hsuffix, List.nil_append, List.nil_append] at heq
    have hsplit : split.path = ':' :: '/' :: '/' :: rooted (parseParams split).path := by
      rw [rooted] at heq
      split at heq
      · cases heq
      · exact heq
    rw [hpath] at hsplit
    by_cases hnil : (parseParams split).path = []
    · rw [hnil, List.nil_append] at hsplit
      rcases hrest with rfl | ⟨params, rfl⟩ <;> cases hsplit
    · rw [rooted, if_neg hnil] at hsplit
      rcases hrest with rfl | ⟨params, rfl⟩
      · have hlen := congrArg List.length hsplit
        simp at hlen
        omega
      · -- the semicolon of the parameters is not among the slashes that are added
        have hcount := congrArg (List.count ';') hsplit
        simp at hcount
  · rcases hw.path_start hnetloc with hnil | ⟨rest, hrest⟩
    · rw [hnil] at heq
      cases heq
    · rw [hrest] at heq
      cases heq

theorem exists_content_rebuild (hw : WellSplit split) (hs : IsScheme split.scheme) {port : Option Nat}
    {params : Pairs} {b : Content}
    (hcontent : contentOf? t (rebuild split.scheme (t.nfc (hostText t split.netloc)) port
      (parseParams split).path params) = some b) :
    let body := t.nfc (hostText t split.netloc) ++ portSuffix (shownPort split.scheme port) ++
      rooted (parseParams split).path
    t.parser.refuses (body.takeWhile isLocationChar) = false ∧
      b.path = rooted (body.dropWhile isLocationChar) ∧ b.query = params ∧
      b.host = t.parser.hostnameOf (body.takeWhile isLocationChar) ∧
      ∃ q, UrlParser.port (body.takeWhile isLocationChar) = some q ∧ b.port = q.or (defaultPort split.scheme) := by
  intro body
  have hsplit := urlsplit_unsplit (p := t.parser) hs (parts_urlencode hw (fromHost_nfc t split.netloc)
    (shownPort split.scheme port) (fun ch => mem_of_mem_parseParams) params)
  rw [← rebuild_eq] at hsplit
  rw [contentOf?] at hcontent
  cases hrefuses : t.parser.refuses (body.takeWhile isLocationChar) with
  | true =>
    rw [if_pos hrefuses] at hsplit
    simp [hsplit] at hcontent
  | false =>
    rw [if_neg (by rw [hrefuses]; exact Bool.false_ne_true)] at hsplit
    simp only [hsplit] at hcontent
    cases hq : UrlParser.port (body.takeWhile isLocationChar) with
    | none =>
      simp only [body] at hq
      simp only [hq] at hcontent
      cases hcontent
    | some q =>
      simp only [body] at hq
      simp only [hq, Option.some.injEq] at hcontent
      subst hcontent
      exact ⟨rfl, rfl, parseQsl_urlencode (.inl rfl), rfl, q, rfl, rfl⟩

theorem exists_rooted_dropWhile {body : List Char} (h : ∀ ch ∈ body, ch ≠ '?' ∧ ch ≠ '#') :
    ∃ rest, rooted (body.dropWhile isLocationChar) = '/' :: rest :=
  exists_rooted (startsAtSlash_dropWhile h)

theorem params_of_rooted (h : rooted (parseParams split).path = rooted split.path) :
    (parseParams split).path = split.path := by
  obtain ⟨rest, hpath, hrest⟩ := exists_params split
  rcases hrest with rfl | ⟨params, rfl⟩
  · rw [hpath, List.append_nil]
  · rw [rooted, rooted, hpath] at h
    by_cases hnil : (parseParams split).path = []
    · rw [if_pos hnil, hnil] at h
      cases h
    · rw [if_neg hnil, if_neg (by simp)] at h
      have hlen := congrArg List.length h
      simp at hlen

theorem plain_host_of_agrees
    (hmem : ∀ ch, isDelimiter ch = true → (ch ∈ host ↔ ch ∈ hostOf location)) {port : Option Nat}
    (hmatched : mismatched (host ++ portSuffix port) = false)
    (hcolon : '[' ∉ host → ':' ∉ host) : ∀ ch ∈ hostOf location, ch ∉ [':', '[', ']'] := by
  have hiff : ('[' ∈ host) ↔ (']' ∈ host) := by
    have hsuffix : ∀ ch, ch ≠ ':' → ch.isDigit = false → (ch ∈ host ++ portSuffix port ↔ ch ∈ host) := by
      intro ch hne hdigit
      constructor
      · intro h
        by_contra hno
        exact notMem_withPort hno hne hdigit h
      · exact List.mem_append_left _
    simp only [mismatched, hsuffix '[' (by decide) (by decide), hsuffix ']' (by decide) (by decide)] at hmatched
    by_cases hopen : '[' ∈ host <;> by_cases hclose : ']' ∈ host <;> simp [hopen, hclose] at hmatched ⊢
  have hopen : '[' ∉ host := by
    intro hopen
    rcases UrlTables.hostOf_brackets location with hclose | ⟨hno, -⟩
    · exact hclose ((hmem _ rfl).1 (hiff.1 hopen))
    · exact hno ((hmem _ rfl).1 hopen)
  intro ch hch hbad
  simp only [List.mem_cons, List.not_mem_nil, or_false] at hbad
  rcases hbad with rfl | rfl | rfl
  · exact hcolon hopen ((hmem _ rfl).2 hch)
  · exact hopen ((hmem _ rfl).2 hch)
  · exact hopen (hiff.2 ((hmem _ rfl).2 hch))

theorem colon_notMem_of_agrees {port : Option Nat} (hopen : '[' ∉ t.nfc (hostText t location))
    (h : (t.parser.hostnameOf location).map t.nfc =
      (t.parser.hostnameOf (t.nfc (hostText t location) ++ portSuffix port)).map t.nfc) :
    ':' ∉ t.nfc (hostText t location) := by
  intro hmem
  have hne : hostText t location ≠ [] := fun hnil =>
    List.ne_nil_of_mem hmem ((t.nfc_eq_nil _).2 hnil)
  have hhost := at_notMem (fromHost_nfc t location)
  rw [hostnameOf_eq, if_neg hne, hostnameOf_eq, hostText_eq t (_ ++ _), hostOf_withPort hhost hopen] at h
  split at h
  · cases h
  · rw [Option.map_some, Option.map_some] at h
    rw [Option.some.inj h, t.delimiter_nfc _ _ rfl, UrlTables.mem_lowerHost rfl] at hmem
    exact absurd (List.mem_takeWhile_imp hmem) (by decide)

theorem defaultPort_ne_zero (scheme : List Char) : defaultPort scheme ≠ some 0 := by
  rw [defaultPort]
  split
  · decide
  · split <;> decide

theorem shownPort_zero (scheme : List Char) : shownPort scheme (some 0) = none := by
  simp [shownPort]

theorem plainSplit_of_stable {url : List Char} (h : Stable t url) (hsplit : t.parser.urlsplit url = some split) :
    PlainSplit split := by
  obtain ⟨r, hr, -, hsame⟩ := h.normal
  have hw : WellSplit split := wellSplit_of_urlsplit hsplit
  cases hport : UrlParser.port split.netloc with
  | none => simp [normalizeUrl, urlparse_eq, hsplit, hport] at hr
  | some port =>
    rw [normalizeUrl_eq hsplit hport] at hr
    obtain rfl := Option.some.inj hr
    have ha := contentOf?_eq hsplit hport
    have hfrom := fromHost_nfc t split.netloc
    have hparts := parts_urlencode hw hfrom (shownPort split.scheme port)
      (fun ch => mem_of_mem_parseParams) (sorted (parseQsl false split.query))
    rcases hsame with ⟨hnone, -⟩ | ⟨a, b, hcontent, hb, hagrees⟩
    · rw [ha] at hnone
      cases hnone
    · rw [ha] at hcontent
      obtain rfl := Option.some.inj hcontent
      have hscheme : split.scheme ≠ [] := by
        intro hnil
        have hne := path_ne_of_no_scheme (t := t) hw hport
        rw [hnil] at hb hparts hne
        rw [contentOf?, rebuild_eq, urlsplit_unsplit_nil hparts] at hb
        obtain rfl := Option.some.inj hb
        exact hne hagrees.path
      have hs : IsScheme split.scheme := hw.scheme.resolve_left hscheme
      obtain ⟨hrefuses, hpath, hquery, hhost, q, hq, hbport⟩ := exists_content_rebuild hw hs hb
      -- the path is absolute, and so is the one without parameters
      have habsolute : split.path = [] ∨ ∃ rest, split.path = '/' :: rest := by
        obtain ⟨rest, hrest⟩ := exists_rooted_dropWhile fun ch hch =>
          ⟨(hparts.body ch hch).1, (hparts.body ch hch).2.1⟩
        exact path_of_rooted (hagrees.path.trans (hpath.trans hrest))
      have hcut : ∃ rest, rooted (parseParams split).path = '/' :: rest := by
        apply exists_rooted
        obtain ⟨rest, heq, -⟩ := exists_params split
        cases hparams : (parseParams split).path with
        | nil => exact .inl rfl
        | cons ch after =>
          rw [heq, hparams] at habsolute
          rcases habsolute with hnil | ⟨tail, htail⟩
          · cases hnil
          · exact .inr ⟨after, by rw [(List.cons.inj htail).1]⟩
      obtain ⟨htake, hdrop⟩ := cut_body hw hfrom (shownPort split.scheme port) hcut
      rw [htake] at hrefuses hhost hq
      rw [hdrop] at hpath
      have hparams : (parseParams split).path = split.path := by
        apply params_of_rooted
        rw [← rooted_rooted (parseParams split).path, ← hpath]
        exact hagrees.path.symm
      have hmatched : mismatched (t.nfc (hostText t split.netloc) ++
          portSuffix (shownPort split.scheme port)) = false :=
        (Bool.or_eq_false_iff.1 hrefuses).1
      have hcolon : '[' ∉ t.nfc (hostText t split.netloc) → ':' ∉ t.nfc (hostText t split.netloc) := by
        intro hopen
        exact colon_notMem_of_agrees hopen (hagrees.host.trans (congrArg _ hhost))
      have hplain := plain_host_of_agrees (fun ch hch => mem_nfc_hostText hch) hmatched hcolon
      refine ⟨hscheme, ⟨port, hport, ?_⟩, habsolute, hparams, hplain, ?_⟩
      · rintro rfl
        have hnone : UrlParser.port (t.nfc (hostText t split.netloc) ++
            portSuffix (shownPort split.scheme (some 0))) = some none := by
          rw [shownPort_zero]
          apply port_withPort (at_notMem hfrom)
          · exact fun hmem => hplain _ (hfrom _ hmem rfl) (by simp)
          · exact fun hmem => hplain _ (hfrom _ hmem rfl) (by simp)
          · rintro n ⟨⟩
        rw [hnone] at hq
        obtain rfl := Option.some.inj hq
        exact defaultPort_ne_zero split.scheme (hbport.symm.trans hagrees.port.symm)
      · intro pair hpair
        have hperm := hagrees.query
        rw [hquery] at hperm
        have hmem : pair ∈ (sorted (parseQsl false split.query)).filter fun _ => true :=
          hperm.mem_iff.1 (List.mem_filter.2 ⟨hpair, rfl⟩)
        have hfalse := (sorted_perm _).mem_iff.1 (List.mem_of_mem_filter hmem)
        rw [parseQsl_false] at hfalse
        simpa using (List.mem_filter.1 hfalse).2

theorem stable_iff {url : List Char} : Stable t url ↔ Plain t url :=
  ⟨fun h _ hsplit => plainSplit_of_stable h hsplit, stable_of_plain⟩

/-! ### Fingerprints -/

theorem fingerprintUrl_eq {url : List Char} (hsplit : t.parser.urlsplit url = some split) {port : Option Nat}
    (hport : UrlParser.port split.netloc = some port) (xxh3 : List Char → Nat) :
    fingerprintUrl t (some xxh3) url = some (xxh3 (rebuild split.scheme (hostText t split.netloc) port
      (parseParams split).path (sorted (parseQsl false split.query)))) := by
  simp only [fingerprintUrl, urlparse_eq, hsplit, Option.map_some, parseParams_scheme, parseParams_netloc,
    parseParams_query, hport]

theorem rebuild_congr {p q : Option Nat} {path path' : List Char} (hport : shownPort scheme p = shownPort scheme q)
    (hpath : rooted path = rooted path') (host : List Char) (params : Pairs) :
    rebuild scheme host p path params = rebuild scheme host q path' params := by
  rw [rebuild_eq, rebuild_eq, hport, hpath]

theorem host_of_rebuild {host host' : List Char} {port : Option Nat} {params : Pairs}
    (h : rebuild scheme host port path params = rebuild scheme host' port path params) : host = host' := by
  rw [rebuild_eq, rebuild_eq, unsplit, unsplit] at h
  simpa using h

theorem hostText_of_hostnameOf {l l' : List Char} (h : t.parser.hostnameOf l = t.parser.hostnameOf l') :
    hostText t l = hostText t l' := by
  rw [hostText, hostText, h]

theorem nfc_hostText_of_hostnameOf {l l' : List Char}
    (h : (t.parser.hostnameOf l).map t.nfc = (t.parser.hostnameOf l').map t.nfc) :
    t.nfc (hostText t l) = t.nfc (hostText t l') := by
  rw [map_nfc_hostnameOf, map_nfc_hostnameOf] at h
  split at h
  · next hnil =>
    split at h
    · next hnil' => rw [hnil, hnil']
    · cases h
  · split at h
    · cases h
    · rw [Option.map_some, Option.map_some, t.nfc_nfc, t.nfc_nfc] at h
      exact Option.some.inj h

/-- What a plain URL is split into, and what follows from it. -/
structure PlainUrl (t : UrlTables) (url : List Char) (split : SplitResult) (port : Option Nat) : Prop where
  splits : t.parser.urlsplit url = some split
  well : WellSplit split
  plain : PlainSplit split
  port : UrlParser.port split.netloc = some port
  blank : parseQsl false split.query = parseQsl true split.query

theorem plainUrl_of_plain {url : List Char} (h : Plain t url) (hsplit : t.parser.urlsplit url = some split) :
    ∃ port, PlainUrl t url split port := by
  have hp : PlainSplit split := h split hsplit
  obtain ⟨port, hport, -⟩ := hp.port
  refine ⟨port, hsplit, wellSplit_of_urlsplit hsplit, hp, hport, ?_⟩
  rw [parseQsl_false, List.filter_eq_self]
  intro pair hpair
  simpa using hp.query pair hpair

namespace PlainUrl

variable {u v : List Char} {split' : SplitResult} {port port' : Option Nat}

theorem content (h : PlainUrl t u split port) : contentOf? t u = some ⟨split.scheme,
    t.parser.hostnameOf split.netloc, port.or (defaultPort split.scheme), rooted split.path,
    parseQsl true split.query⟩ :=
  contentOf?_eq h.splits h.port

theorem content_normal (h : PlainUrl t u split port) : ∃ r, normalizeUrl t u = some r ∧
    contentOf? t r = some ⟨split.scheme, if t.nfc (hostText t split.netloc) = [] then none
      else some (t.nfc (hostText t split.netloc)), port.or (defaultPort split.scheme), rooted split.path,
      sorted (parseQsl true split.query)⟩ := by
  refine ⟨_, normalizeUrl_eq h.splits h.port, ?_⟩
  rw [contentOf?_of_plain h.well h.plain (fromHost_nfc t _) (written_of_plain h.splits h.plain).2 h.port,
    h.blank]

theorem normalizeUrl_eq_iff (hu : PlainUrl t u split port) (hv : PlainUrl t v split' port') :
    normalizeUrl t u = normalizeUrl t v ↔ split.scheme = split'.scheme ∧
      (Content.mk split.scheme (t.parser.hostnameOf split.netloc) (port.or (defaultPort split.scheme))
        (rooted split.path) (parseQsl true split.query)).Agrees t (fun _ => true)
      ⟨split'.scheme, t.parser.hostnameOf split'.netloc, port'.or (defaultPort split'.scheme),
        rooted split'.path, parseQsl true split'.query⟩ := by
  constructor
  · intro h
    obtain ⟨r, hr, hcontent⟩ := hu.content_normal
    obtain ⟨r', hr', hcontent'⟩ := hv.content_normal
    rw [hr, hr'] at h
    obtain rfl := Option.some.inj h
    rw [hcontent] at hcontent'
    injection Option.some.inj hcontent' with hscheme hhost hport hpath hquery
    refine ⟨hscheme, ?_, hport, hpath, ?_⟩
    · rw [map_nfc_hostnameOf, map_nfc_hostnameOf, hhost]
    · simp only [List.filter_true]
      exact (sorted_perm _).symm.trans (hquery ▸ sorted_perm _)
  · rintro ⟨hscheme, hhost, hport, hpath, hquery⟩
    simp only [List.filter_true] at hquery
    have hshown : shownPort split.scheme port = shownPort split.scheme port' := by
      apply shownPort_eq_of_or
      exact hport.trans (by rw [hscheme])
    have hrooted : rooted (parseParams split).path = rooted (parseParams split').path := by
      rw [hu.plain.params, hv.plain.params]
      exact hpath
    rw [normalizeUrl_eq hu.splits hu.port, normalizeUrl_eq hv.splits hv.port, hu.blank, hv.blank,
      sorted_eq_of_perm hquery, nfc_hostText_of_hostnameOf hhost, rebuild_congr hshown hrooted, hscheme]

theorem fingerprintUrl_eq_iff (hu : PlainUrl t u split port) (hv : PlainUrl t v split' port')
    (h : normalizeUrl t u = normalizeUrl t v) : (∀ xxh3, fingerprintUrl t xxh3 u = fingerprintUrl t xxh3 v) ↔
      t.parser.hostnameOf split.netloc = t.parser.hostnameOf split'.netloc := by
  obtain ⟨hscheme, hhost, hport, hpath, hquery⟩ := (normalizeUrl_eq_iff hu hv).1 h
  simp only [List.filter_true] at hquery
  have hshown : shownPort split.scheme port = shownPort split.scheme port' := by
    apply shownPort_eq_of_or
    exact hport.trans (by rw [hscheme])
  have hrooted : rooted (parseParams split).path = rooted (parseParams split').path := by
    rw [hu.plain.params, hv.plain.params]
    exact hpath
  have htext : ∀ host, rebuild split.scheme host port (parseParams split).path
      (sorted (parseQsl true split.query)) = rebuild split'.scheme host port' (parseParams split').path
      (sorted (parseQsl true split'.query)) := by
    intro host
    rw [sorted_eq_of_perm hquery, rebuild_congr hshown hrooted, hscheme]
  constructor
  · intro hfingerprint
    -- a hash that tells the text of one of them from every other
    have hone := hfingerprint (some fun text => if text = rebuild split'.scheme (hostText t split'.netloc) port'
      (parseParams split').path (sorted (parseQsl true split'.query)) then 1 else 0)
    rw [fingerprintUrl_eq hu.splits hu.port, fingerprintUrl_eq hv.splits hv.port, hu.blank, hv.blank, if_pos rfl,
      htext] at hone
    have hsame : hostText t split.netloc = hostText t split'.netloc := by
      by_contra hne
      rw [if_neg (mt host_of_rebuild hne)] at hone
      cases hone
    rw [hostnameOf_eq, hostnameOf_eq, hsame]
  · intro hsame xxh3
    cases xxh3 with
    | none => rfl
    | some hash =>
      rw [fingerprintUrl_eq hu.splits hu.port, fingerprintUrl_eq hv.splits hv.port, hu.blank, hv.blank, htext,
        hostText_of_hostnameOf hsame]

end PlainUrl

theorem eq_of_refused {u v : List Char} (hv : Plain t v) (hsplit : t.parser.urlsplit u = none)
    (h : normalizeUrl t u = normalizeUrl t v) : u = v := by
  rw [normalizeUrl_of_refused hsplit] at h
  cases hsplit' : t.parser.urlsplit v with
  | none =>
    rw [normalizeUrl_of_refused hsplit'] at h
    exact Option.some.inj h
  | some split' =>
    obtain ⟨port', hv'⟩ := plainUrl_of_plain hv hsplit'
    obtain ⟨r, hr, hcontent⟩ := hv'.content_normal
    rw [hr] at h
    rw [← Option.some.inj h, contentOf?_of_refused hsplit] at hcontent
    cases hcontent

theorem fingerprint_iff {u v : List Char} (hu : Plain t u) (hv : Plain t v) :
    (normalizeUrl t u = normalizeUrl t v → ∀ xxh3, fingerprintUrl t xxh3 u = fingerprintUrl t xxh3 v) ↔
      HostsApart t u v := by
  cases hsplit : t.parser.urlsplit u with
  | none =>
    constructor
    · intro _ a b ha
      rw [contentOf?_of_refused hsplit] at ha
      cases ha
    · intro _ h xxh3
      rw [eq_of_refused hv hsplit h]
  | some split =>
    cases hsplit' : t.parser.urlsplit v with
    | none =>
      constructor
      · intro _ a b _ hb
        rw [contentOf?_of_refused hsplit'] at hb
        cases hb
      · intro _ h xxh3
        rw [eq_of_refused hu hsplit' h.symm]
    | some split' =>
      obtain ⟨port, hu'⟩ := plainUrl_of_plain hu hsplit
      obtain ⟨port', hv'⟩ := plainUrl_of_plain hv hsplit'
      constructor
      · intro h a b ha hb hscheme hagrees
        rw [hu'.content] at ha
        rw [hv'.content] at hb
        obtain rfl := Option.some.inj ha
        obtain rfl := Option.some.inj hb
        have hsame := (hu'.normalizeUrl_eq_iff hv').2 ⟨hscheme, hagrees⟩
        exact (hu'.fingerprintUrl_eq_iff hv' hsame).1 (h hsame)
      · intro h hsame
        obtain ⟨hscheme, hagrees⟩ := (hu'.normalizeUrl_eq_iff hv').1 hsame
        exact (hu'.fingerprintUrl_eq_iff hv' hsame).2 (h _ _ hu'.content hv'.content hscheme hagrees)

/-- URLs stay apart and stable just where they can be put together again, and where no two of them differ
only in the encoding of the host. -/
theorem keepsApart_iff (t : UrlTables) (u v : List Char) :
    KeepsApart t u v ↔ Plain t u ∧ Plain t v ∧ HostsApart t u v := by
  constructor
  · intro h
    have hu := stable_iff.1 h.left
    have hv := stable_iff.1 h.right
    exact ⟨hu, hv, (fingerprint_iff hu hv).1 h.fingerprint⟩
  · rintro ⟨hu, hv, hapart⟩
    exact ⟨stable_iff.2 hu, stable_iff.2 hv, (fingerprint_iff hu hv).2 hapart⟩

/-- A port that is no number makes the canonical form raise. -/
theorem not_keepsApart : ¬ KeepsApart UrlTables.ascii "http://a:x/".toList "http://a:x/".toList := by
  intro h
  obtain ⟨r, hr, -⟩ := h.left.normal
  have hraises : normalizeUrl UrlTables.ascii "http://a:x/".toList = none := by decide
  rw [hraises] at hr
  cases hr

example : normalizeUrl UrlTables.ascii "http://[::1]/p;q?b=&a=1".toList = some "http://::1/p?a=1".toList := by
  decide

end Hledac.Tools.UrlDedup
