import Hledac.Py.Re
import Mathlib.Data.Rat.Defs

/-!
# The PII gate

`src/security/pii_gate.py`. `SecurityGate` finds the matches of nine patterns, drops each that overlaps one found
earlier in the text and masks the rest; `fallback_sanitize` finds the matches of twelve patterns, settles overlaps by
priority and puts a token in the place of each match that is left. A text is the list of its characters.
-/

namespace Hledac.Security

open Hledac.Lib Hledac.Py.Re

/-- `PIICategory`. -/
inductive PIICategory where
  | email | phone | ssn | creditCard | ipAddress | url | username | date | passport | driverLicense | address
  deriving DecidableEq, Repr

/-- `PIIMatch`; `span` holds `start` and `end`. -/
structure PIIMatch where
  text : List Char
  category : PIICategory
  span : Span
  confidence : ℚ
  method : String
  deriving DecidableEq

/-- `SanitizationResult`. -/
structure SanitizationResult where
  sanitizedText : List Char
  piiFound : List PIIMatch
  piiCount : Nat
  success : Bool
  error : Option String := none
  riskLevel : String := "low"
  riskScore : Nat := 0
  deriving DecidableEq

/-! ### The patterns -/

section Patterns

variable (u : CharClasses)

/-- `[-.\s]?`, between groups of digits. -/
def separator : Regex Char := optional (set [among "-.", u.isSpace])

def emailLocal : Regex Char := many1 (set [letter, asciiDigit, among "._%+-"])

def emailDomain : Regex Char := many1 (set [letter, asciiDigit, among ".-"])

def phone : Regex Char :=
  concat [u.boundary, optional (concat [optional (text "+"), text "1", separator u]), optional (text "("),
    times u.decimal 3, optional (text ")"), separator u, times u.decimal 3, separator u, times u.decimal 4, u.boundary]

def ssn : Regex Char :=
  concat [u.boundary, times u.decimal 3, separator u, times u.decimal 2, separator u, times u.decimal 4, u.boundary]

def creditCard : Regex Char :=
  concat [u.boundary, times (concat [times u.decimal 4, separator u]) 3, times u.decimal 4, u.boundary]

def ipAddress : Regex Char :=
  concat [u.boundary, times (concat [between u.decimal 1 3, text "."]) 3, between u.decimal 1 3, u.boundary]

def passport : Regex Char := concat [u.boundary, times (set [upper]) 2, between u.decimal 7 9, u.boundary]

def driverLicense : Regex Char := concat [u.boundary, times (set [upper]) 1, between u.decimal 7 12, u.boundary]

/-- `_compile_regex_patterns`, in the order of the dictionary. -/
def compileRegexPatterns : List (PIICategory × Pattern Char) :=
  [(.email, ⟨ignoreCase (concat [u.boundary, emailLocal, text "@", emailDomain, text ".",
      atLeast (set [upper, among "|", lower]) 2, u.boundary]), Nat.le_of_ble_eq_true rfl⟩),
    (.phone, ⟨ignoreCase (phone u), Nat.le_of_ble_eq_true rfl⟩),
    (.ssn, ⟨ssn u, Nat.le_of_ble_eq_true rfl⟩),
    (.creditCard, ⟨creditCard u, Nat.le_of_ble_eq_true rfl⟩),
    (.ipAddress, ⟨ipAddress u, Nat.le_of_ble_eq_true rfl⟩),
    (.url, ⟨concat [text "http", optional (text "s"), text "://",
      many1 (.alt (set [among "-.", u.isWord])
        (concat [text "%", times (set [u.isDecimal, within 'a' 'f', within 'A' 'F']) 2])),
      text "/", many (set [u.isWord, among " .-"]), optional (text "/")], Nat.le_of_ble_eq_true rfl⟩),
    (.date, ⟨concat [u.boundary, .alt
      (concat [between u.decimal 1 2, set [among "-/."], between u.decimal 1 2, set [among "-/."],
        between u.decimal 2 4])
      (concat [times u.decimal 4, set [among "-/."], between u.decimal 1 2, set [among "-/."],
        between u.decimal 1 2]), u.boundary], Nat.le_of_ble_eq_true rfl⟩),
    (.passport, ⟨passport u, Nat.le_of_ble_eq_true rfl⟩),
    (.driverLicense, ⟨driverLicense u, Nat.le_of_ble_eq_true rfl⟩)]

end Patterns

/-! ### The gate -/

/-- `SecurityGate`; the mask is a string of any length. -/
structure SecurityGate where
  regexPatterns : List (PIICategory × Pattern Char)
  maskChar : List Char

/-- `create_security_gate`. -/
def createSecurityGate (u : CharClasses) (maskChar : List Char) : SecurityGate := ⟨compileRegexPatterns u, maskChar⟩

namespace SecurityGate

variable (gate : SecurityGate)

/-- `_detect_with_regex`, line 171. -/
def detectWithRegex (text : List Char) : List PIIMatch :=
  gate.regexPatterns.flatMap fun p => (p.2.finditer text).map fun s =>
    { text := slice text s.start s.stop, category := p.1, span := s, confidence := 4 / 5, method := "regex" }

/-- `sorted(matches, key=lambda m: (m.start, -m.confidence))`. -/
def sortMatches (ms : List PIIMatch) : List PIIMatch :=
  ms.insertionSort fun m n =>
    m.span.start < n.span.start ∨ m.span.start = n.span.start ∧ n.confidence ≤ m.confidence

/-- `_deduplicate_matches`, line 189: in the order of their starts, each match that overlaps none of those
kept. -/
def deduplicateMatches (ms : List PIIMatch) : List PIIMatch := addDisjoint PIIMatch.span [] (sortMatches ms)

/-- `mask_char * len(match.text)`. -/
def maskFor (m : PIIMatch) : List Char := (List.replicate m.text.length gate.maskChar).flatten

/-- `_mask_pii`, line 204. -/
def maskPii (text : List Char) (ms : List PIIMatch) : List Char :=
  spliceFrom text ((ms.insertionSort fun m n => n.span.start ≤ m.span.start).map fun m => (m.span, gate.maskFor m))
    text.length []

/-- `sanitize` where nothing raises, line 133. -/
def sanitize (text : List Char) (maskPii returnMatches : Bool) : SanitizationResult :=
  let uniqueMatches := deduplicateMatches (gate.detectWithRegex text)
  let riskScore := uniqueMatches.length * 5
  { sanitizedText := if maskPii && !uniqueMatches.isEmpty then gate.maskPii text uniqueMatches else text
    piiFound := if returnMatches then uniqueMatches else []
    piiCount := uniqueMatches.length
    success := true
    riskLevel := if riskScore > 20 then "high" else if riskScore > 5 then "medium" else "low"
    riskScore := riskScore }

end SecurityGate

/-! ### The fallback -/

/-- The keys of `_INTERNATIONAL_PATTERNS` and `_FALLBACK_PATTERNS`. -/
inductive FallbackCategory where
  | iban | euVat | e164Phone | ukNino | czRodneCislo | email | phone | ssn | creditCard | ipAddress | driverLicense
  | passport
  deriving DecidableEq, Repr

namespace FallbackCategory

/-- The pattern of the category, in either dictionary. -/
def pattern (u : CharClasses) : FallbackCategory → Pattern Char
  | iban => ⟨concat [u.boundary, times (set [upper]) 2, times u.decimal 2, between (set [upper, asciiDigit]) 11 30,
      u.boundary], Nat.le_of_ble_eq_true rfl⟩
  | euVat => ⟨ignoreCase (concat [u.boundary, anyText "AT" ["BE", "BG", "CY", "CZ", "DE", "DK", "EE", "EL", "ES",
      "FI", "FR", "HR", "HU", "IE", "IT", "LT", "LU", "LV", "MT", "NL", "PL", "PT", "RO", "SE", "SI", "SK"],
      between u.decimal 4 12, u.boundary]), Nat.le_of_ble_eq_true rfl⟩
  | e164Phone => ⟨concat [text "+", optional (concat [between u.decimal 1 3, separator u]),
      between (concat [between u.decimal 1 4, separator u]) 1 4, between u.decimal 1 4], Nat.le_of_ble_eq_true rfl⟩
  | ukNino => ⟨ignoreCase (concat [u.boundary, times (set [upper]) 2, separator u, times u.decimal 6, separator u,
      set [within 'A' 'D'], u.boundary]), Nat.le_of_ble_eq_true rfl⟩
  | czRodneCislo => ⟨concat [u.boundary, times u.decimal 6, set [among "/", u.isSpace], between u.decimal 3 4,
      u.boundary], Nat.le_of_ble_eq_true rfl⟩
  | email => ⟨ignoreCase (concat [emailLocal, text "@", emailDomain, text ".", atLeast (set [letter]) 2]),
      Nat.le_of_ble_eq_true rfl⟩
  | phone => ⟨Security.phone u, Nat.le_of_ble_eq_true rfl⟩
  | ssn => ⟨Security.ssn u, Nat.le_of_ble_eq_true rfl⟩
  | creditCard => ⟨Security.creditCard u, Nat.le_of_ble_eq_true rfl⟩
  | ipAddress => ⟨Security.ipAddress u, Nat.le_of_ble_eq_true rfl⟩
  | driverLicense => ⟨Security.driverLicense u, Nat.le_of_ble_eq_true rfl⟩
  | passport => ⟨Security.passport u, Nat.le_of_ble_eq_true rfl⟩

/-- `_PII_TOKENS`. -/
def token : FallbackCategory → String
  | iban => "[REDACTED:IBAN]"
  | euVat => "[REDACTED:VAT]"
  | e164Phone => "[REDACTED:INTL_PHONE]"
  | ukNino => "[REDACTED:NINO]"
  | czRodneCislo => "[REDACTED:RC]"
  | email => "[REDACTED:EMAIL]"
  | phone => "[REDACTED:PHONE]"
  | ssn => "[REDACTED:SSN]"
  | creditCard => "[REDACTED:CREDIT_CARD]"
  | ipAddress => "[REDACTED:IP]"
  | driverLicense => "[REDACTED:DL]"
  | passport => "[REDACTED:PASSPORT]"

/-- `priority_order`. -/
def priorityOrder : List FallbackCategory :=
  [iban, euVat, e164Phone, ukNino, czRodneCislo, email, phone, ssn, creditCard, ipAddress, driverLicense, passport]

end FallbackCategory

/-- An entry of `replacements`. -/
structure Replacement where
  span : Span
  token : List Char
  priority : Nat
  deriving DecidableEq

/-- `text[:max_length]`; a negative length counts from the end. -/
def firstChars (text : List Char) (maxLength : Int) : List Char :=
  text.take (if 0 ≤ maxLength then maxLength else text.length + maxLength).toNat

/-- `MAX_FALLBACK_LENGTH`. -/
def maxFallbackLength : Int := 10000

/-- `replacements`, before it is sorted. -/
def findReplacements (u : CharClasses) (text : List Char) : List Replacement :=
  FallbackCategory.priorityOrder.zipIdx.flatMap fun c =>
    ((c.1.pattern u).finditer text).map fun s => ⟨s, c.1.token.toList, c.2⟩

/-- `replacements.sort(key=lambda x: (-x[0], x[3]))`. -/
def sortReplacements (rs : List Replacement) : List Replacement :=
  rs.insertionSort fun r s => s.span.start < r.span.start ∨ r.span.start = s.span.start ∧ r.priority ≤ s.priority

/-- One round of the loop over the sorted replacements, line 363. The scan of the list stops at the first
entry of a higher priority; only when there is none are the entries of a lower one removed, by their positions. -/
def resolveOverlap (nonOverlapping : List Replacement) (r : Replacement) : List Replacement :=
  if nonOverlapping.any fun existing => r.span.overlaps existing.span && decide (existing.priority < r.priority) then
    nonOverlapping
  else
    let toRemove := (nonOverlapping.filter fun existing =>
      r.span.overlaps existing.span && decide (r.priority < existing.priority)).map Replacement.span
    nonOverlapping.filter (fun existing => !toRemove.contains existing.span) ++ [r]

/-- `non_overlapping` as the segments are cut, the last first. -/
def nonOverlapping (u : CharClasses) (text : List Char) : List Replacement :=
  ((sortReplacements (findReplacements u text)).foldl resolveOverlap []).insertionSort
    fun r s => s.span.start ≤ r.span.start

/-- `fallback_sanitize`, line 321. -/
def fallbackSanitize (u : CharClasses) (text : List Char) (maxLength : Int) : List Char :=
  let result := firstChars text maxLength
  spliceFrom result ((nonOverlapping u result).map fun r => (r.span, r.token)) result.length []

end Hledac.Security
