import Mathlib.Data.List.TakeWhile

/-!
# The network location of a URL

`urllib.parse.urlparse` as far as the network location and the host name. The locations it refuses (ill
formed brackets, characters that normalise to delimiters) and `str.lower` are taken as given.
-/

namespace Hledac.Py

/-- What of the library is not spelled out: the network locations that are refused, and lowering. -/
structure UrlParser where
  refuses : List Char → Bool
  lower : List Char → List Char

namespace UrlParser

/-- `scheme_chars`. -/
def isSchemeChar (ch : Char) : Bool := ch.isAlphanum || ch = '+' || ch = '-' || ch = '.'

/-- Leading control characters and blanks, and all tabs and line breaks, are taken out. -/
def cleaned (url : List Char) : List Char :=
  (url.dropWhile fun ch => ch.toNat ≤ 0x20).filter fun ch => !(ch = '\t' || ch = '\r' || ch = '\n')

/-- What stands after the scheme, where there is one. -/
def afterScheme (url : List Char) : List Char :=
  let scheme := url.takeWhile (· ≠ ':')
  if ':' ∈ url && (scheme.head?.map Char.isAlpha).getD false && scheme.all isSchemeChar then
    url.drop (scheme.length + 1)
  else url

/-- `urlparse(url).netloc`; `none` where it raises `ValueError`. -/
def netloc (p : UrlParser) (url : List Char) : Option (List Char) :=
  match afterScheme (cleaned url) with
  | '/' :: '/' :: rest =>
    let location := rest.takeWhile fun ch => !(ch = '/' || ch = '?' || ch = '#')
    if p.refuses location then none else some location
  | _ => some []

/-- The location without the user information: `netloc.rpartition('@')[2]`. -/
def hostInfo (location : List Char) : List Char := (location.reverse.takeWhile (· ≠ '@')).reverse

/-- The host of a location, out of its brackets where it has some, without the port. -/
def hostOf (location : List Char) : List Char :=
  let info := hostInfo location
  if '[' ∈ info then ((info.dropWhile (· ≠ '[')).drop 1).takeWhile (· ≠ ']')
  else info.takeWhile (· ≠ ':')

/-- The host is lowered up to the zone of a scoped address. -/
def lowerHost (p : UrlParser) (host : List Char) : List Char :=
  p.lower (host.takeWhile (· ≠ '%')) ++ host.dropWhile (· ≠ '%')

/-- `urlparse(url).hostname`. -/
def hostname (p : UrlParser) (url : List Char) : Option (List Char) :=
  match p.netloc url with
  | none => none
  | some location => if hostOf location = [] then none else some (p.lowerHost (hostOf location))

theorem hostInfo_of_notMem {location : List Char} (h : '@' ∉ location) : hostInfo location = location := by
  rw [hostInfo, List.takeWhile_eq_self_iff.2, List.reverse_reverse]
  intro ch hch
  rw [decide_eq_true_iff]
  rintro rfl
  exact h (List.mem_reverse.1 hch)

theorem hostOf_of_notMem {location : List Char} (huser : '@' ∉ location) (hbracket : '[' ∉ location) :
    hostOf location = location.takeWhile (· ≠ ':') := by
  rw [hostOf, hostInfo_of_notMem huser, if_neg hbracket]

/-! ### The parts around the host -/

/-- The characters of a network location. -/
def isLocationChar (ch : Char) : Bool := !(ch = '/' || ch = '?' || ch = '#')

/-- What stands after `//`. -/
def authority (url : List Char) : List Char :=
  match afterScheme (cleaned url) with
  | '/' :: '/' :: rest => rest
  | _ => []

/-- The network location of a URL, refused or not. -/
def location (url : List Char) : List Char := (authority url).takeWhile isLocationChar

/-- What follows the host in a location. -/
def afterHost (location : List Char) : List Char :=
  let info := hostInfo location
  if '[' ∈ info then ((info.dropWhile (· ≠ '[')).drop 1).dropWhile (· ≠ ']') else info.dropWhile (· ≠ ':')

/-- What follows the host in a URL: the port, the path, the query and the fragment. -/
def afterHostname (url : List Char) : List Char :=
  afterHost (location url) ++ (authority url).dropWhile isLocationChar

/-- What stands before the host ends in a delimiter. -/
def EndsAtDelimiter (text : List Char) : Prop :=
  ∃ before delimiter, text = before ++ [delimiter] ∧ delimiter ∈ ['/', '@', '[']

/-- The end of a host is a delimiter, or the end of the text. -/
def StartsAtDelimiter (text : List Char) : Prop :=
  text = [] ∨ ∃ delimiter after, text = delimiter :: after ∧ delimiter ∈ [']', ':', '/', '?', '#']

theorem exists_append_dropWhile (ch : Char) {text : List Char} (h : ch ∈ text) :
    ∃ before after, text = before ++ ch :: after ∧ text.dropWhile (· ≠ ch) = ch :: after ∧
      text.takeWhile (· ≠ ch) = before := by
  induction text with
  | nil => cases h
  | cons c rest ih =>
    by_cases hc : c = ch
    · exact ⟨[], rest, by simp [hc], by simp [hc], by simp [hc]⟩
    · obtain ⟨before, after, heq, hdrop, htake⟩ := ih ((List.mem_cons.1 h).resolve_left (Ne.symm hc))
      exact ⟨c :: before, after, by rw [heq]; rfl, by simpa [hc] using hdrop,
        by simpa [hc] using htake⟩

theorem dropWhile_ne_eq (ch : Char) (text : List Char) :
    text.dropWhile (· ≠ ch) = [] ∨ ∃ after, text.dropWhile (· ≠ ch) = ch :: after := by
  by_cases h : ch ∈ text
  · obtain ⟨before, after, -, hdrop, -⟩ := exists_append_dropWhile ch h
    exact Or.inr ⟨after, hdrop⟩
  · left
    rw [List.dropWhile_eq_nil_iff]
    intro c hc
    rw [decide_eq_true_iff]
    rintro rfl
    exact h hc

theorem location_eq_append_hostInfo (location : List Char) :
    ∃ before, location = before ++ hostInfo location ∧ (before = [] ∨ EndsAtDelimiter before) := by
  by_cases h : '@' ∈ location
  · obtain ⟨after, before, heq, -, htake⟩ := exists_append_dropWhile '@' (List.mem_reverse.2 h)
    have hloc : location = before.reverse ++ ['@'] ++ after.reverse := by
      rw [← List.reverse_reverse location, heq]
      simp
    refine ⟨before.reverse ++ ['@'], ?_, Or.inr ⟨before.reverse, '@', rfl, by simp⟩⟩
    rw [hostInfo, htake]
    exact hloc
  · exact ⟨[], (hostInfo_of_notMem h).symm, Or.inl rfl⟩

theorem location_eq_append_hostOf (location : List Char) :
    ∃ before, location = before ++ (hostOf location ++ afterHost location) ∧
      (before = [] ∨ EndsAtDelimiter before) ∧ StartsAtDelimiter (afterHost location) := by
  obtain ⟨before, heq, hbefore⟩ := location_eq_append_hostInfo location
  rw [hostOf, afterHost]
  by_cases hbracket : '[' ∈ hostInfo location
  · obtain ⟨user, inside, hinfo, hdrop, -⟩ := exists_append_dropWhile '[' hbracket
    simp only [if_pos hbracket, hdrop, List.drop_succ_cons, List.drop_zero, List.takeWhile_append_dropWhile]
    refine ⟨before ++ user ++ ['['], ?_, Or.inr ⟨before ++ user, '[', rfl, by simp⟩, ?_⟩
    · rw [heq, hinfo]
      simp
    · rcases dropWhile_ne_eq ']' inside with hnil | ⟨after, hafter⟩
      · exact Or.inl hnil
      · exact Or.inr ⟨']', after, hafter, by simp⟩
  · simp only [if_neg hbracket, List.takeWhile_append_dropWhile]
    refine ⟨before, heq, hbefore, ?_⟩
    rcases dropWhile_ne_eq ':' (hostInfo location) with hnil | ⟨after, hafter⟩
    · exact Or.inl hnil
    · exact Or.inr ⟨':', after, hafter, by simp⟩

theorem startsAtDelimiter_dropWhile (text : List Char) : StartsAtDelimiter (text.dropWhile isLocationChar) := by
  cases hdrop : text.dropWhile isLocationChar with
  | nil => exact Or.inl rfl
  | cons ch after =>
    have hch := List.head_dropWhile_not isLocationChar (l := text) (by rw [hdrop]; simp)
    simp only [hdrop, List.head_cons, isLocationChar, Bool.not_eq_false', Bool.or_eq_true, decide_eq_true_iff,
      or_assoc] at hch
    refine Or.inr ⟨ch, after, rfl, ?_⟩
    exact List.mem_cons_of_mem _ (List.mem_cons_of_mem _ (by simpa using hch))

theorem authority_eq_append (url : List Char) :
    ∃ before, authority url = before ++ (hostOf (location url) ++ afterHostname url) ∧
      before ++ hostOf (location url) <+: location url ∧ (before = [] ∨ EndsAtDelimiter before) ∧
      StartsAtDelimiter (afterHostname url) := by
  obtain ⟨before, heq, hbefore, hafter⟩ := location_eq_append_hostOf (location url)
  refine ⟨before, ?_, ⟨afterHost (location url), ?_⟩, hbefore, ?_⟩
  · rw [afterHostname, ← List.append_assoc, ← List.append_assoc, List.append_assoc before, ← heq, location,
      List.takeWhile_append_dropWhile]
  · rw [List.append_assoc, ← heq]
  · rcases hafter with hnil | ⟨delimiter, after, hafter, hmem⟩
    · rw [afterHostname, hnil]
      exact startsAtDelimiter_dropWhile _
    · exact Or.inr ⟨delimiter, after ++ (authority url).dropWhile isLocationChar,
        by rw [afterHostname, hafter]; rfl, hmem⟩

theorem location_ne_nil {url : List Char} (h : hostOf (location url) ≠ []) : location url ≠ [] := by
  intro hnil
  apply h
  rw [hnil]
  rfl

theorem authority_of_eq {url rest : List Char} (h : afterScheme (cleaned url) = '/' :: '/' :: rest) :
    authority url = rest := by
  rw [authority, h]
  rfl

theorem authority_of_forall_ne {url : List Char} (h : ∀ rest, afterScheme (cleaned url) ≠ '/' :: '/' :: rest) :
    authority url = [] := by
  rw [authority]
  split
  · next rest hrest => exact absurd hrest (h rest)
  · rfl

theorem eq_lowerHost_of_hostname (p : UrlParser) {url host : List Char} (h : p.hostname url = some host) :
    hostOf (location url) ≠ [] ∧ host = p.lowerHost (hostOf (location url)) := by
  have hlocation : ∀ loc, p.netloc url = some loc → loc = location url := by
    intro loc hloc
    rw [netloc] at hloc
    split at hloc
    · next rest hrest =>
      rw [location, authority_of_eq hrest]
      dsimp only at hloc
      split at hloc
      · cases hloc
      · exact (Option.some.inj hloc).symm
    · next hother =>
      rw [location, authority_of_forall_ne hother]
      exact (Option.some.inj hloc).symm
  rw [hostname] at h
  cases hnetloc : p.netloc url with
  | none =>
    rw [hnetloc] at h
    cases h
  | some loc =>
    simp only [hnetloc, hlocation loc hnetloc] at h
    by_cases hnil : hostOf (location url) = []
    · rw [if_pos hnil] at h
      cases h
    · rw [if_neg hnil] at h
      exact ⟨hnil, (Option.some.inj h).symm⟩

theorem eq_append_authority {url : List Char} (h : location url ≠ []) :
    (cleaned url = '/' :: '/' :: authority url ∧ afterScheme (cleaned url) = cleaned url) ∨
      ∃ scheme, cleaned url = scheme ++ ':' :: '/' :: '/' :: authority url ∧ ':' ∉ scheme ∧
        afterScheme (cleaned url) ≠ cleaned url := by
  have hslashes : afterScheme (cleaned url) = '/' :: '/' :: authority url := by
    by_contra hne
    apply h
    rw [location, authority_of_forall_ne]
    · rfl
    · intro rest hrest
      rw [authority_of_eq hrest] at hne
      exact hne hrest
  by_cases hcut : afterScheme (cleaned url) = cleaned url
  · exact Or.inl ⟨hcut ▸ hslashes, hcut⟩
  · right
    rw [afterScheme] at hslashes
    split at hslashes
    · next hscheme =>
      rw [Bool.and_eq_true, Bool.and_eq_true, decide_eq_true_iff] at hscheme
      obtain ⟨before, after, heq, -, htake⟩ := exists_append_dropWhile ':' hscheme.1.1
      have hbefore : ':' ∉ before := by
        intro hmem
        rw [← htake] at hmem
        exact absurd (List.mem_takeWhile_imp (p := (· ≠ ':')) hmem) (by simp)
      rw [htake, heq, List.drop_append, List.drop_eq_nil_of_le (by omega)] at hslashes
      refine ⟨before, ?_, hbefore, hcut⟩
      rw [← hslashes, heq]
      simp
    · next hscheme =>
      exact absurd (by rw [afterScheme]; exact if_neg hscheme) hcut

end UrlParser

end Hledac.Py
