import Hledac.Py.UrlHost

/-!
# Network locations up to case

The host and the port that a location names do not depend on the case of its letters. The two small sigmas
are one letter here: which of them stands for a capital one depends on what is written around it.
-/

namespace Hledac.Py

open UrlParser

/-! ### Texts rewritten character by character -/

/-- A delimiter is rewritten to itself, and nothing else is rewritten to it. -/
structure Keeps (f : Char → List Char) (d : Char) : Prop where
  kept : f d = [d]
  only : ∀ ch, d ∈ f ch → ch = d

namespace Keeps

variable {f : Char → List Char} {d : Char} {s : List Char}

theorem forall_ne (h : Keeps f d) {ch : Char} (hne : ch ≠ d) : ∀ c ∈ f ch, decide (c ≠ d) = true := by
  intro c hc
  rw [decide_eq_true_iff]
  rintro rfl
  exact hne (h.only ch hc)

theorem mem_iff (h : Keeps f d) : d ∈ s.flatMap f ↔ d ∈ s := by
  rw [List.mem_flatMap]
  constructor
  · rintro ⟨ch, hch, hd⟩
    exact h.only ch hd ▸ hch
  · intro hd
    exact ⟨d, hd, h.kept ▸ List.mem_singleton_self d⟩

theorem takeWhile (h : Keeps f d) (s : List Char) :
    (s.flatMap f).takeWhile (· ≠ d) = (s.takeWhile (· ≠ d)).flatMap f := by
  induction s with
  | nil => rfl
  | cons ch s ih =>
    rw [List.flatMap_cons]
    by_cases hd : ch = d
    · rw [hd, h.kept]
      simp
    · rw [List.takeWhile_append_of_pos (h.forall_ne hd), ih, List.takeWhile_cons_of_pos (by simpa using hd),
        List.flatMap_cons]

theorem dropWhile (h : Keeps f d) (s : List Char) :
    (s.flatMap f).dropWhile (· ≠ d) = (s.dropWhile (· ≠ d)).flatMap f := by
  induction s with
  | nil => rfl
  | cons ch s ih =>
    rw [List.flatMap_cons]
    by_cases hd : ch = d
    · rw [hd, h.kept]
      simp [h.kept]
    · rw [List.dropWhile_append_of_pos (h.forall_ne hd), ih, List.dropWhile_cons_of_pos (by simpa using hd)]

theorem after (h : Keeps f d) (s : List Char) :
    ((s.flatMap f).dropWhile (· ≠ d)).drop 1 = ((s.dropWhile (· ≠ d)).drop 1).flatMap f := by
  rw [h.dropWhile]
  rcases dropWhile_ne_eq d s with hnil | ⟨rest, hrest⟩
  · rw [hnil]
    rfl
  · rw [hrest, List.flatMap_cons, h.kept]
    rfl

theorem reverse (h : Keeps f d) : Keeps (fun ch => (f ch).reverse) d where
  kept := by rw [h.kept]; rfl
  only ch hd := h.only ch (List.mem_reverse.1 hd)

end Keeps

section Rewritten

variable {f : Char → List Char}

theorem hostInfo_flatMap (h : Keeps f '@') (location : List Char) :
    hostInfo (location.flatMap f) = (hostInfo location).flatMap f := by
  have hback : (location.flatMap f).reverse = location.reverse.flatMap fun ch => (f ch).reverse := by
    rw [List.reverse_flatMap]
    rfl
  rw [hostInfo, hback, h.reverse.takeWhile, List.reverse_flatMap, hostInfo]
  simp [Function.comp_def]

theorem hostOf_flatMap (h : ∀ d, isDelimiter d = true → Keeps f d) (location : List Char) :
    hostOf (location.flatMap f) = (hostOf location).flatMap f := by
  rw [hostOf, hostOf, hostInfo_flatMap (h '@' rfl)]
  by_cases hopen : '[' ∈ hostInfo location
  · rw [if_pos hopen, if_pos ((h '[' rfl).mem_iff.2 hopen), (h '[' rfl).after, (h ']' rfl).takeWhile]
  · rw [if_neg hopen, if_neg (mt (h '[' rfl).mem_iff.1 hopen), (h ':' rfl).takeWhile]

theorem portText_flatMap (h : ∀ d, isDelimiter d = true → Keeps f d) (location : List Char) :
    portText (location.flatMap f) = (portText location).flatMap f := by
  rw [portText, portText, afterHost, afterHost, hostInfo_flatMap (h '@' rfl)]
  by_cases hopen : '[' ∈ hostInfo location
  · rw [if_pos hopen, if_pos ((h '[' rfl).mem_iff.2 hopen), (h '[' rfl).after, (h ']' rfl).dropWhile,
      (h ':' rfl).after]
  · rw [if_neg hopen, if_neg (mt (h '[' rfl).mem_iff.1 hopen), (h ':' rfl).dropWhile, (h ':' rfl).after]

end Rewritten

/-! ### Lower-case locations -/

/-- Tables that also keep the digits apart, with the checks of a location: those of a host in brackets and
those of compatibility characters. -/
structure LocationTables extends DelimiterTables where
  lowerFull_digit : ∀ ch, ch.isDigit = true → lowerFull ch = [ch]
  digit_lowerFull : ∀ ch, ∀ d ∈ lowerFull ch, d.isDigit = true → d = ch
  refuses : List Char → Bool

namespace LocationTables

variable (t : LocationTables)

/-- `urllib.parse` with these tables. -/
def parser : UrlParser where
  refuses location := mismatched location || t.refuses location
  lower := t.lower

/-- The tables as they are on ASCII, where brackets hold well-formed addresses. -/
def ascii : LocationTables where
  toDelimiterTables := DelimiterTables.ascii
  lowerFull_digit ch h := by
    have hrange : 48 ≤ ch.toNat ∧ ch.toNat ≤ 57 := by
      simpa [Char.isDigit, UInt32.le_iff_toNat_le] using h
    have hne : ch ≠ 'Σ' := by
      rintro rfl
      exact absurd hrange.2 (by decide)
    have hlow : ch.toLower = ch := by
      apply Char.ext
      apply UInt32.toNat_inj.1
      show ch.toLower.toNat = ch.toNat
      rw [toNat_toLower, if_neg (by omega)]
    show (if ch = 'Σ' then ['σ'] else [ch.toLower]) = [ch]
    rw [if_neg hne, hlow]
  digit_lowerFull ch d hd h := by
    have hrange : 48 ≤ d.toNat ∧ d.toNat ≤ 57 := by
      simpa [Char.isDigit, UInt32.le_iff_toNat_le] using h
    have hcases : d ∈ if ch = 'Σ' then ['σ'] else [ch.toLower] := hd
    split at hcases
    · rw [List.mem_singleton.1 hcases] at hrange
      exact absurd hrange.2 (by decide)
    · rw [List.mem_singleton.1 hcases] at hrange ⊢
      have hnat := toNat_toLower ch
      apply Char.ext
      apply UInt32.toNat_inj.1
      show ch.toLower.toNat = ch.toNat
      split at hnat
      · omega
      · exact hnat
  refuses _ := false

/-- The two small sigmas as one. -/
def foldSigma (ch : Char) : Char := if ch = 'ς' then 'σ' else ch

/-- One character up to case. -/
def foldChar (ch : Char) : List Char := (t.lowerFull ch).map foldSigma

/-- A text up to case. -/
def folded (s : List Char) : List Char := (t.lower s).map foldSigma

variable {t} {s location location' : List Char} {ch : Char}

theorem map_foldSigma_lowerIn (before cs after : List Char) :
    (t.lowerIn before cs after).map foldSigma = cs.flatMap t.foldChar := by
  induction cs generalizing before with
  | nil => rfl
  | cons ch cs ih =>
    have hchar : (t.lowerChar before ch (cs ++ after)).map foldSigma = t.foldChar ch := by
      rw [CaseTables.lowerChar]
      split
      · next hsigma =>
        rw [hsigma, foldChar, t.lowerFull_sigma]
        split <;> rfl
      · rfl
    rw [CaseTables.lowerIn, List.map_append, hchar, ih, List.flatMap_cons]

theorem folded_eq (s : List Char) : t.folded s = s.flatMap t.foldChar := map_foldSigma_lowerIn [] s []

theorem keeps_of {d : Char} (hd : t.lowerFull d = [d]) (honly : ∀ ch, d ∈ t.lowerFull ch → d = ch)
    (hsigma : d ≠ 'ς' ∧ d ≠ 'σ') : Keeps t.foldChar d where
  kept := by rw [foldChar, hd, List.map_singleton, foldSigma, if_neg hsigma.1]
  only ch h := by
    obtain ⟨c, hc, hfold⟩ := List.mem_map.1 h
    rw [foldSigma] at hfold
    split at hfold
    · exact absurd hfold.symm hsigma.2
    · exact (honly ch (hfold ▸ hc)).symm

theorem keeps_delimiter {d : Char} (hd : isDelimiter d = true) : Keeps t.foldChar d := by
  apply keeps_of (t.lowerFull_delimiter d hd) fun ch h => t.delimiter_lowerFull ch d h hd
  constructor <;> rintro rfl <;> exact absurd hd (by decide)

theorem keeps_digit {d : Char} (hd : d.isDigit = true) : Keeps t.foldChar d := by
  apply keeps_of (t.lowerFull_digit d hd) fun ch h => t.digit_lowerFull ch d h hd
  constructor <;> rintro rfl <;> exact absurd hd (by decide)

theorem folded_append (a b : List Char) : t.folded (a ++ b) = t.folded a ++ t.folded b := by
  rw [folded_eq, folded_eq, folded_eq, List.flatMap_append]

theorem folded_eq_nil : t.folded s = [] ↔ s = [] := by
  rw [folded, List.map_eq_nil_iff]
  exact CaseTables.lower_eq_nil

theorem folded_lower (s : List Char) : t.folded (t.lower s) = t.folded s := by
  have hlower : t.lower (t.lower s) = t.lower s :=
    CaseTables.lower_of_lowered fun _ hd => CaseTables.lowered_of_mem_lower hd
  rw [folded, hlower, folded]

theorem folded_of_lower (h : t.lower location = t.lower location') : t.folded location = t.folded location' :=
  congrArg (List.map foldSigma) h

theorem folded_lowerHost (host : List Char) : t.folded (t.parser.lowerHost host) = t.folded host := by
  have hfront : t.folded (t.parser.lower (host.takeWhile (· ≠ '%'))) = t.folded (host.takeWhile (· ≠ '%')) :=
    folded_lower _
  rw [lowerHost, folded_append, hfront, ← folded_append, List.takeWhile_append_dropWhile]

theorem map_folded_hostnameOf (location : List Char) : (t.parser.hostnameOf location).map t.folded =
    if t.folded (hostOf location) = [] then none else some (t.folded (hostOf location)) := by
  rw [hostnameOf]
  by_cases hnil : hostOf location = []
  · rw [if_pos hnil, if_pos (folded_eq_nil.2 hnil), Option.map_none]
  · rw [if_neg hnil, if_neg (mt folded_eq_nil.1 hnil), Option.map_some, folded_lowerHost]

theorem hostnameOf_of_folded (h : t.folded location = t.folded location') :
    (t.parser.hostnameOf location).map t.folded = (t.parser.hostnameOf location').map t.folded := by
  have hhost : t.folded (hostOf location) = t.folded (hostOf location') := by
    rw [folded_eq, folded_eq] at h
    rw [folded_eq, folded_eq, ← hostOf_flatMap fun _ => keeps_delimiter, h, hostOf_flatMap fun _ => keeps_delimiter]
  rw [map_folded_hostnameOf, map_folded_hostnameOf, hhost]

theorem eq_of_folded_digits {a b : List Char} (h : t.folded a = t.folded b)
    (hdigits : ∀ ch ∈ a, ch.isDigit = true) : b = a := by
  rw [folded_eq, folded_eq] at h
  have hself : a.flatMap t.foldChar = a := by
    conv_rhs => rw [← List.flatMap_singleton' a]
    exact List.flatMap_congr fun ch hch => (keeps_digit (hdigits ch hch)).kept
  have hb : ∀ ch ∈ b, ch.isDigit = true := by
    intro ch hch
    have hne : t.foldChar ch ≠ [] := by
      rw [foldChar, ne_eq, List.map_eq_nil_iff]
      exact t.lowerFull_ne ch
    obtain ⟨d, hd⟩ := List.exists_mem_of_ne_nil _ hne
    have hmem : d ∈ a := by
      rw [← hself, h]
      exact List.mem_flatMap.2 ⟨ch, hch, hd⟩
    rw [(keeps_digit (t := t) (hdigits d hmem)).only ch hd]
    exact hdigits d hmem
  rw [hself] at h
  rw [h]
  conv_lhs => rw [← List.flatMap_singleton' b]
  exact (List.flatMap_congr fun ch hch => (keeps_digit (hb ch hch)).kept).symm

theorem port_of_folded (h : t.folded location = t.folded location') : port location = port location' := by
  have htext : t.folded (portText location) = t.folded (portText location') := by
    rw [folded_eq, folded_eq] at h
    rw [folded_eq, folded_eq, ← portText_flatMap fun _ => keeps_delimiter, h,
      portText_flatMap fun _ => keeps_delimiter]
  rw [port, port]
  by_cases hdigits : ∀ ch ∈ portText location, ch.isDigit = true
  · rw [eq_of_folded_digits htext hdigits]
  · have hdigits' : ¬ ∀ ch ∈ portText location', ch.isDigit = true := by
      intro hall
      rw [← eq_of_folded_digits htext.symm hall] at hall
      exact hdigits hall
    have hmalformed {text : List Char} (htext : ¬ ∀ ch ∈ text, ch.isDigit = true) :
        text ≠ [] ∧ ¬ text.all Char.isDigit = true := by
      refine ⟨?_, by rwa [List.all_eq_true]⟩
      rintro rfl
      exact htext fun _ h => absurd h List.not_mem_nil
    obtain ⟨hne, hall⟩ := hmalformed hdigits
    obtain ⟨hne', hall'⟩ := hmalformed hdigits'
    rw [if_neg hne, if_neg hne', if_neg hall, if_neg hall']

end LocationTables

end Hledac.Py
