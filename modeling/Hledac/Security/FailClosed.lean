import Hledac.Security.PiiCoverage
import Hledac.Security.SecretsScrubber

/-!
# When something fails while a text is cleaned

`SecurityGate.sanitize` catches what its steps raise and returns the text it was given as a result like any other, so
`quick_sanitize` does not get to its fallback. `scrub_dict_recursive` leaves a value as it is where scrubbing it
fails, never looks at the keys of a dictionary, and does not treat what is stored under the name of a credential in
another way.
-/

namespace Hledac.Security

open Hledac.Lib Hledac.Py Hledac.Py.Re

/-! ### The gate -/

/-- The exceptions that the steps of `sanitize` raise, none where a step goes well. -/
structure Faults where
  detect : Option String := none
  deduplicate : Option String := none
  mask : Option String := none

/-- A step that may raise. -/
def attempt {α : Type} (fault : Option String) (x : α) : Except String α :=
  match fault with
  | some e => .error e
  | none => .ok x

namespace SecurityGate

variable (gate : SecurityGate) (f : Faults) (text : List Char)

/-- The body of the `try` of `sanitize`. -/
def trySanitize (maskPii returnMatches : Bool) : Except String SanitizationResult := do
  let piiMatches ← attempt f.detect (gate.detectWithRegex text)
  let uniqueMatches ← attempt f.deduplicate (deduplicateMatches piiMatches)
  let riskScore := uniqueMatches.length * 5
  let sanitizedText ←
    if maskPii && !uniqueMatches.isEmpty then attempt f.mask (gate.maskPii text uniqueMatches) else .ok text
  .ok
    { sanitizedText := sanitizedText
      piiFound := if returnMatches then uniqueMatches else []
      piiCount := uniqueMatches.length
      success := true
      riskLevel := if riskScore > 20 then "high" else if riskScore > 5 then "medium" else "low"
      riskScore := riskScore }

/-- `sanitize`, `pii_gate.py:133`, with the result for an exception. -/
def sanitizeUnder (maskPii returnMatches : Bool) : SanitizationResult :=
  match gate.trySanitize f text maskPii returnMatches with
  | .ok result => result
  | .error e => { sanitizedText := text, piiFound := [], piiCount := 0, success := false, error := some e }

/-- Some step that `sanitize` gets to raises; it masks only where there is something to mask. -/
def Raises : Prop :=
  f.detect ≠ none ∨ f.deduplicate ≠ none ∨ f.mask ≠ none ∧ gate.clearMatches text ≠ []

theorem sanitizedText_of_raises (returnMatches : Bool) (h : gate.Raises f text) :
    (gate.sanitizeUnder f text true returnMatches).sanitizedText = text := by
  rw [sanitizeUnder, trySanitize]
  cases hdetect : f.detect with
  | some e => rfl
  | none =>
    cases hdeduplicate : f.deduplicate with
    | some e => rfl
    | none =>
      obtain ⟨hmask, hclear⟩ := (h.resolve_left (not_not_intro hdetect)).resolve_left (not_not_intro hdeduplicate)
      obtain ⟨e, hmask⟩ := Option.ne_none_iff_exists'.1 hmask
      simp only [attempt, bind, Except.bind, deduplicateMatches_eq, hmask]
      rw [if_pos (by simp [hclear])]

theorem sanitizeUnder_of_not_raises (returnMatches : Bool) (h : ¬gate.Raises f text) :
    gate.sanitizeUnder f text true returnMatches = gate.sanitize text true returnMatches := by
  simp only [Raises, not_or, not_not, not_and] at h
  obtain ⟨hdetect, hdeduplicate, hmask⟩ := h
  rw [sanitizeUnder, trySanitize, sanitize, hdetect, hdeduplicate]
  simp only [attempt, bind, Except.bind, deduplicateMatches_eq]
  by_cases hclear : gate.clearMatches text = []
  · simp [hclear]
  · have hnone : f.mask = none := by
      by_contra hne
      exact hclear (hmask hne)
    simp [hclear, hnone]

end SecurityGate

/-! ### The quick function -/

/-- A gate as `quick_sanitize` creates them. -/
structure DefaultGate (u : CharClasses) where
  gate : SecurityGate
  created : gate.regexPatterns = compileRegexPatterns u

/-- `quick_sanitize`, line 264, with the default gate before and after the call; `createFails` where the
gate it needs cannot be created. -/
def quickSanitize (u : CharClasses) (f : Faults) (createFails : Bool) (defaultGate : Option (DefaultGate u))
    (text maskChar : List Char) : List Char × Option (DefaultGate u) :=
  match defaultGate.filter fun d => d.gate.maskChar == maskChar with
  | some d => ((d.gate.sanitizeUnder f text true false).sanitizedText, some d)
  | none =>
    if createFails then (fallbackSanitize u text maxFallbackLength, defaultGate)
    else
      (((createSecurityGate u maskChar).sanitizeUnder f text true false).sanitizedText,
        some ⟨createSecurityGate u maskChar, rfl⟩)

/-- The text that `sanitize` gives with the mask where nothing fails. -/
def maskedText (u : CharClasses) (text maskChar : List Char) : List Char :=
  ((createSecurityGate u maskChar).sanitize text true false).sanitizedText

/-- What a call may return: the masked text or that of the fallback, and not the text itself where the fallback finds
something in it. -/
def FailsClosed (u : CharClasses) (text maskChar out : List Char) : Prop :=
  (out = maskedText u text maskChar ∨ out = fallbackSanitize u text maxFallbackLength) ∧
    (findReplacements u text ≠ [] → out ≠ text)

section Quick

variable (u : CharClasses) (f : Faults) (defaultGate : Option (DefaultGate u)) (text maskChar : List Char)

theorem quickSanitize_eq : (quickSanitize u f false defaultGate text maskChar).1 =
    ((createSecurityGate u maskChar).sanitizeUnder f text true false).sanitizedText := by
  rw [quickSanitize]
  cases hgate : defaultGate.filter fun d => d.gate.maskChar == maskChar with
  | none => rfl
  | some d =>
    obtain ⟨gate, hcreated⟩ := d
    have hmask : gate.maskChar = maskChar := by simpa using (Option.filter_eq_some_iff.1 hgate).2
    have heq : gate = createSecurityGate u maskChar := by
      rw [createSecurityGate, ← hcreated, ← hmask]
    simp only [heq]

theorem quickSanitize_of_createFails (h : ∀ d ∈ defaultGate, d.gate.maskChar ≠ maskChar) :
    quickSanitize u f true defaultGate text maskChar = (fallbackSanitize u text maxFallbackLength, defaultGate) := by
  have hnone : (defaultGate.filter fun d => d.gate.maskChar == maskChar) = none := by
    rw [Option.filter_eq_none_iff]
    intro d hd
    simpa using h d hd
  rw [quickSanitize, hnone]
  rfl

theorem failsClosed_iff : FailsClosed u text maskChar (quickSanitize u f false defaultGate text maskChar).1 ↔
    ((createSecurityGate u maskChar).Raises f text ∨ (createSecurityGate u maskChar).AlreadyMasked text →
      findReplacements u text = []) ∧
    ((createSecurityGate u maskChar).Raises f text →
      (createSecurityGate u maskChar).AlreadyMasked text ∨ text.length ≤ 10000) := by
  have hmasked : maskedText u text maskChar = text ↔ (createSecurityGate u maskChar).AlreadyMasked text :=
    SecurityGate.sanitizedText_eq_self_iff false
  have hfallback : fallbackSanitize u text maxFallbackLength = text ↔ _ := fallbackSanitize_eq_self_iff
  rw [quickSanitize_eq, FailsClosed]
  by_cases hraises : (createSecurityGate u maskChar).Raises f text
  · rw [SecurityGate.sanitizedText_of_raises _ f text false hraises, eq_comm (b := maskedText u text maskChar),
      eq_comm (b := fallbackSanitize u text maxFallbackLength), hmasked, hfallback]
    simp only [hraises, true_or, true_imp_iff, ne_eq, not_true_eq_false, imp_false, not_not]
    constructor
    · intro h
      exact ⟨h.2, h.1.imp id And.right⟩
    · intro h
      exact ⟨h.2.imp id fun hlength => ⟨h.1, hlength⟩, h.1⟩
  · rw [SecurityGate.sanitizeUnder_of_not_raises _ f text false hraises]
    simp only [hraises, false_or, false_imp_iff, and_true]
    change (maskedText u text maskChar = maskedText u text maskChar ∨ _) ∧ (_ → maskedText u text maskChar ≠ text) ↔ _
    rw [ne_eq, ne_eq, hmasked]
    constructor
    · intro h halready
      by_contra hfound
      exact h.2 hfound halready
    · intro h
      exact ⟨Or.inl rfl, fun hfound halready => hfound (h halready)⟩

end Quick

/-! ### Nested values -/

/-- The key is one of the names that the patterns take for those of credentials. -/
def namesCredential (k : List Char) : Bool :=
  ((ignoreCase credentialName).run k (fun i => if i = k.length then some i else none) 0).isSome

/-- A placeholder in the place of a text. -/
def Redaction (s : List Char) : Prop := s = marker "max_depth" ∨ s = marker "password_param"

instance (s : List Char) : Decidable (Redaction s) := inferInstanceAs (Decidable (_ ∨ _))

mutual

/-- The texts in a key. -/
def Key.strings : Key → List (List Char)
  | .str s => [s]
  | .bytes _ => []
  | .atom _ => []
  | .tuple items => stringsOfItems items

def stringsOfItems : List Key → List (List Char)
  | [] => []
  | k :: rest => Key.strings k ++ stringsOfItems rest

end

/-- The key is a text that names a credential. -/
def Key.NamesCredential : Key → Prop
  | .str s => namesCredential s = true
  | _ => False

instance : ∀ k : Key, Decidable k.NamesCredential
  | .str s => inferInstanceAs (Decidable (namesCredential s = true))
  | .bytes _ => isFalse id
  | .atom _ => isFalse id
  | .tuple _ => isFalse id

section Scrub

variable (u : CharClasses)

/-- What may stand in the place of a text: the scrubbed text or a placeholder. -/
def CleanText (s out : List Char) : Prop := out = scrubbed u s ∨ Redaction out

instance (s out : List Char) : Decidable (CleanText u s out) := inferInstanceAs (Decidable (_ ∨ _))

mutual

/-- What may stand in the place of a value: a placeholder, or the value with every text in it, those of the keys too,
clean and with a placeholder under each name of a credential. -/
def Clean : Data → Data → Prop
  | .str s, out => ∃ t, out = .str t ∧ CleanText u s t
  | .bytes b, out => ∃ t, out = .str t ∧ CleanText u (decodeReplace b).toList t
  | .atom n, out => out = .atom n ∨ ∃ t, out = .str t ∧ Redaction t
  | .items kind xs, out => (∃ ys, out = .items kind ys ∧ CleanItems xs ys) ∨ ∃ t, out = .str t ∧ Redaction t
  | .dict entries, out => (∃ new, out = .dict new ∧ CleanEntries entries new) ∨ ∃ t, out = .str t ∧ Redaction t

def CleanItems : List Data → List Data → Prop
  | [], ys => ys = []
  | x :: xs, ys => ∃ y rest, ys = y :: rest ∧ Clean x y ∧ CleanItems xs rest

def CleanEntries : List (Key × Data) → List (Key × Data) → Prop
  | [], new => new = []
  | (k, v) :: entries, new => ∃ k' v' rest, new = (k', v') :: rest ∧
      List.Forall₂ (CleanText u) k.strings k'.strings ∧ Clean v v' ∧
      (k.NamesCredential → ∃ t, v' = .str t ∧ Redaction t) ∧ CleanEntries entries rest

end

variable (raises : List Char → Bool)

/-- Scrubbing the text does not fail, or there is nothing in it to scrub. -/
def Scrubs (s : List Char) : Prop := raises s = true → CleanText u s s

/-- The text comes out as a placeholder by itself. -/
def RedactsItself (s : List Char) : Prop := if raises s then Redaction s else Redaction (scrubbed u s)

/-- The value is one text that comes out as a placeholder. -/
def RedactsWhole : Data → Prop
  | .str s => RedactsItself u raises s
  | .bytes b => RedactsItself u raises (decodeReplace b).toList
  | _ => False

mutual

/-- Down to the greatest depth no text fails to be scrubbed, no key holds anything to scrub, and what is stored
under the name of a credential is too deep or redacted for its own text. -/
def Scrubbable (maxDepth : Nat) (depth : Nat) : Data → Prop
  | .str s => maxDepth < depth ∨ Scrubs u raises s
  | .bytes b => maxDepth < depth ∨ Scrubs u raises (decodeReplace b).toList
  | .atom _ => True
  | .items _ xs => maxDepth < depth ∨ ScrubbableItems maxDepth (depth + 1) xs
  | .dict entries => maxDepth < depth ∨ ScrubbableEntries maxDepth (depth + 1) entries

def ScrubbableItems (maxDepth : Nat) (depth : Nat) : List Data → Prop
  | [] => True
  | x :: xs => Scrubbable maxDepth depth x ∧ ScrubbableItems maxDepth depth xs

def ScrubbableEntries (maxDepth : Nat) (depth : Nat) : List (Key × Data) → Prop
  | [] => True
  | (k, v) :: entries => (∀ s ∈ k.strings, CleanText u s s) ∧ Scrubbable maxDepth depth v ∧
      (k.NamesCredential → maxDepth < depth ∨ RedactsWhole u raises v) ∧ ScrubbableEntries maxDepth depth entries

end

variable {u raises}

theorem redaction_maxDepth : Redaction (marker "max_depth") := Or.inl rfl

theorem cleanText_scrubSecrets_iff {s : List Char} :
    CleanText u s (scrubSecrets u raises s) ↔ Scrubs u raises s := by
  rw [scrubSecrets, Scrubs]
  by_cases h : raises s = true
  · simp [h]
  · simp [h, CleanText]

theorem redaction_scrubSecrets_iff {s : List Char} :
    Redaction (scrubSecrets u raises s) ↔ RedactsItself u raises s := by
  rw [scrubSecrets, RedactsItself]
  split <;> rfl

theorem forall₂_cleanText_self {l : List (List Char)} :
    List.Forall₂ (CleanText u) l l ↔ ∀ s ∈ l, CleanText u s s := List.forall₂_same

theorem scrubDictRecursive_of_lt {maxDepth depth : Nat} (h : maxDepth < depth) (data : Data) :
    scrubDictRecursive u raises maxDepth depth data = .str (marker "max_depth") := by
  cases data <;> rw [scrubDictRecursive, if_pos h]

theorem scrub_eq_redaction_iff {maxDepth depth : Nat} (data : Data) :
    (∃ t, scrubDictRecursive u raises maxDepth depth data = .str t ∧ Redaction t) ↔
      maxDepth < depth ∨ RedactsWhole u raises data := by
  by_cases h : maxDepth < depth
  · simp only [h, true_or, iff_true]
    exact ⟨_, scrubDictRecursive_of_lt h data, redaction_maxDepth⟩
  · cases data with
    | str s => simp [scrubDictRecursive, h, RedactsWhole, redaction_scrubSecrets_iff]
    | bytes b => simp [scrubDictRecursive, h, RedactsWhole, redaction_scrubSecrets_iff]
    | atom n => simp [scrubDictRecursive, h, RedactsWhole]
    | items kind xs => simp [scrubDictRecursive, h, RedactsWhole]
    | dict entries => simp [scrubDictRecursive, h, RedactsWhole]

mutual

theorem clean_scrubDictRecursive_iff (maxDepth : Nat) : ∀ (depth : Nat) (data : Data),
    Clean u data (scrubDictRecursive u raises maxDepth depth data) ↔ Scrubbable u raises maxDepth depth data
  | depth, .str s => by
    rw [Clean, scrubDictRecursive, Scrubbable]
    by_cases h : maxDepth < depth
    · simp [h, CleanText, redaction_maxDepth]
    · simp [h, cleanText_scrubSecrets_iff]
  | depth, .bytes b => by
    rw [Clean, scrubDictRecursive, Scrubbable]
    by_cases h : maxDepth < depth
    · simp [h, CleanText, redaction_maxDepth]
    · simp [h, cleanText_scrubSecrets_iff]
  | depth, .atom n => by
    rw [Clean, scrubDictRecursive, Scrubbable]
    by_cases h : maxDepth < depth
    · simp [h, redaction_maxDepth]
    · simp [h]
  | depth, .items kind xs => by
    rw [Clean, scrubDictRecursive, Scrubbable]
    by_cases h : maxDepth < depth
    · simp [h, redaction_maxDepth]
    · simp [h, cleanItems_scrubItems_iff maxDepth (depth + 1) xs]
  | depth, .dict entries => by
    rw [Clean, scrubDictRecursive, Scrubbable]
    by_cases h : maxDepth < depth
    · simp [h, redaction_maxDepth]
    · simp [h, cleanEntries_scrubEntries_iff maxDepth (depth + 1) entries]

theorem cleanItems_scrubItems_iff (maxDepth : Nat) : ∀ (depth : Nat) (xs : List Data),
    CleanItems u xs (scrubItems u raises maxDepth depth xs) ↔ ScrubbableItems u raises maxDepth depth xs
  | depth, [] => by simp [CleanItems, scrubItems, ScrubbableItems]
  | depth, x :: xs => by
    rw [ScrubbableItems, ← clean_scrubDictRecursive_iff maxDepth depth x,
      ← cleanItems_scrubItems_iff maxDepth depth xs, scrubItems, CleanItems]
    simp

theorem cleanEntries_scrubEntries_iff (maxDepth : Nat) : ∀ (depth : Nat) (entries : List (Key × Data)),
    CleanEntries u entries (scrubEntries u raises maxDepth depth entries) ↔
      ScrubbableEntries u raises maxDepth depth entries
  | depth, [] => by simp [CleanEntries, scrubEntries, ScrubbableEntries]
  | depth, (k, v) :: entries => by
    rw [ScrubbableEntries, ← clean_scrubDictRecursive_iff maxDepth depth v,
      ← cleanEntries_scrubEntries_iff maxDepth depth entries, ← scrub_eq_redaction_iff v, scrubEntries, CleanEntries,
      ← forall₂_cleanText_self]
    constructor
    · intro ⟨k', v', rest, heq, hkey, hv, hcredential, hrest⟩
      cases heq
      exact ⟨hkey, hv, hcredential, hrest⟩
    · intro ⟨hkey, hv, hcredential, hrest⟩
      exact ⟨k, _, _, rfl, hkey, hv, hcredential, hrest⟩

end

end Scrub

/-! ### Both together -/

/-- Whatever raises and whatever is nested in what: a call of `quick_sanitize` fails closed, and `scrub_dict_recursive`
gives back nothing but clean texts, exactly under the condition of each. -/
theorem cleaning_fails_closed_iff (u : CharClasses) (f : Faults) (defaultGate : Option (DefaultGate u))
    (text maskChar : List Char) (raises : List Char → Bool) (maxDepth depth : Nat) (data : Data) :
    (FailsClosed u text maskChar (quickSanitize u f false defaultGate text maskChar).1 ↔
      ((createSecurityGate u maskChar).Raises f text ∨ (createSecurityGate u maskChar).AlreadyMasked text →
        findReplacements u text = []) ∧
      ((createSecurityGate u maskChar).Raises f text →
        (createSecurityGate u maskChar).AlreadyMasked text ∨ text.length ≤ 10000)) ∧
    (Clean u data (scrubDictRecursive u raises maxDepth depth data) ↔
      Scrubbable u raises maxDepth depth data) :=
  ⟨failsClosed_iff u f defaultGate text maskChar, clean_scrubDictRecursive_iff maxDepth depth data⟩

/-- A failing step gives the address back, the gate has no pattern for an IBAN, a password under its own name is
stored as it is, and so is a secret in a key or in a text whose scrubbing fails. -/
theorem not_cleaning_fails_closed :
    (quickSanitize asciiClasses { detect := some "recursion" } false none "foo@bar.com".toList ['*']).1 =
        "foo@bar.com".toList ∧
      ¬FailsClosed asciiClasses "foo@bar.com".toList ['*'] "foo@bar.com".toList ∧
      (quickSanitize asciiClasses {} false none "CZ6508000000192000145399".toList ['*']).1 =
        "CZ6508000000192000145399".toList ∧
      ¬FailsClosed asciiClasses "CZ6508000000192000145399".toList ['*'] "CZ6508000000192000145399".toList ∧
      ¬Clean asciiClasses (.dict [(.str "password".toList, .str "secret".toList)])
        (scrubDictRecursive asciiClasses (fun _ => false) 8 0
          (.dict [(.str "password".toList, .str "secret".toList)])) ∧
      ¬Clean asciiClasses (.dict [(.str "pwd=abc".toList, .atom 1)])
        (scrubDictRecursive asciiClasses (fun _ => false) 8 0 (.dict [(.str "pwd=abc".toList, .atom 1)])) ∧
      ¬Clean asciiClasses (.str "pwd=abc".toList)
        (scrubDictRecursive asciiClasses (fun _ => true) 8 0 (.str "pwd=abc".toList)) := by
  refine ⟨by decide +kernel, ?_, by decide +kernel, ?_, ?_, ?_, ?_⟩
  · intro h
    exact h.2 (by decide +kernel) rfl
  · intro h
    exact h.2 (by decide +kernel) rfl
  · rw [clean_scrubDictRecursive_iff]
    intro h
    obtain ⟨-, -, hcredential, -⟩ := h.resolve_left (by decide)
    have hredacts := (hcredential (by decide +kernel)).resolve_left (by decide)
    exact absurd hredacts (show ¬Redaction (scrubbed asciiClasses "secret".toList) by decide +kernel)
  · rw [clean_scrubDictRecursive_iff]
    intro h
    obtain ⟨hkey, -⟩ := h.resolve_left (by decide)
    have hclean := hkey "pwd=abc".toList (List.mem_singleton_self _)
    revert hclean
    decide +kernel
  · rw [clean_scrubDictRecursive_iff]
    intro h
    have hclean := h.resolve_left (by decide) rfl
    revert hclean
    decide +kernel

end Hledac.Security
