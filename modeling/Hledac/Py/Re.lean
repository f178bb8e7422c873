import Hledac.Lib.Regex

/-!
# The module `re`

The constructs of Python's regular expressions that the modelled patterns use, over the characters of a `str`.
-/

namespace Hledac.Py.Re

open Hledac.Lib

/-- `\w` on ASCII text. -/
def isAsciiWord (c : Char) : Bool := c.isAlphanum || c == '_'

/-- `\s` on ASCII text. -/
def isAsciiSpace (c : Char) : Bool :=
  c == ' ' || decide (0x09 ≤ c.toNat ∧ c.toNat ≤ 0x0D) || decide (0x1C ≤ c.toNat ∧ c.toNat ≤ 0x1F)

/-- What `\w`, `\d` and `\s` stand for; `re` reads them from the Unicode database. -/
structure CharClasses where
  isWord : Char → Bool
  isDecimal : Char → Bool
  isSpace : Char → Bool
  ascii : ∀ c : Char, c.toNat < 128 → isWord c = isAsciiWord c ∧ isDecimal c = c.isDigit ∧ isSpace c = isAsciiSpace c

/-- The classes without any character that is not ASCII. -/
def asciiClasses : CharClasses where
  isWord := isAsciiWord
  isDecimal := Char.isDigit
  isSpace := isAsciiSpace
  ascii _ _ := ⟨rfl, rfl, rfl⟩

/-! ### Sets of characters -/

def within (lo hi : Char) (c : Char) : Bool := decide (lo ≤ c) && decide (c ≤ hi)

def upper : Char → Bool := within 'A' 'Z'

def lower : Char → Bool := within 'a' 'z'

def asciiDigit : Char → Bool := within '0' '9'

def letter (c : Char) : Bool := lower c || upper c

/-- The characters of a string. -/
def among (s : String) (c : Char) : Bool := s.toList.contains c

def union (ps : List (Char → Bool)) (c : Char) : Bool := ps.any fun p => p c

/-! ### Expressions -/

/-- One after the other. -/
def concat (rs : List (Regex Char)) : Regex Char := rs.foldr .seq .empty

/-- A text as it stands. -/
def text (s : String) : Regex Char := concat (s.toList.map fun c => .symbol fun d => d == c)

/-- `r|s|...`, tried in this order. -/
def anyOf (r : Regex Char) : List (Regex Char) → Regex Char
  | [] => r
  | s :: rest => .alt r (anyOf s rest)

/-- One of some texts. -/
def anyText (s : String) (rest : List String) : Regex Char := anyOf (text s) (rest.map text)

/-- `[...]`, a character of any of the sets. -/
def set (ps : List (Char → Bool)) : Regex Char := .symbol (union ps)

/-- `[^...]`, a character of none of the sets. -/
def setNot (ps : List (Char → Bool)) : Regex Char := .symbol fun c => !union ps c

/-- `r?`. -/
def optional (r : Regex Char) : Regex Char := .repeats r 0 (some 1)

/-- `r*`. -/
def many (r : Regex Char) : Regex Char := .repeats r 0 none

/-- `r+`. -/
def many1 (r : Regex Char) : Regex Char := .repeats r 1 none

/-- `r{n}`. -/
def times (r : Regex Char) (n : Nat) : Regex Char := .repeats r n (some n)

/-- `r{n,m}`. -/
def between (r : Regex Char) (n m : Nat) : Regex Char := .repeats r n (some m)

/-- `r{n,}`. -/
def atLeast (r : Regex Char) (n : Nat) : Regex Char := .repeats r n none

/-- The letters that count as the same one under `IGNORECASE`; of the letters that are not ASCII, `re` takes the
dotted and the dotless i, the long s and the Kelvin sign for ASCII ones. -/
def foldings (c : Char) : List Char :=
  let folded := if upper c then Char.ofNat (c.toNat + 32) else c
  if lower folded then [folded, Char.ofNat (folded.toNat - 32)]
  else if c = '\u0130' ∨ c = '\u0131' then [c, 'i', 'I']
  else if c = '\u017F' then [c, 's', 'S']
  else if c = '\u212A' then [c, 'k', 'K']
  else [c]

/-- The flag `IGNORECASE`. -/
def ignoreCase : Regex Char → Regex Char
  | .empty => .empty
  | .symbol p => .symbol fun c => (foldings c).any p
  | .boundary isWord => .boundary isWord
  | .seq r s => .seq (ignoreCase r) (ignoreCase s)
  | .alt r s => .alt (ignoreCase r) (ignoreCase s)
  | .repeats r least most => .repeats (ignoreCase r) least most

/-- `re.search(p, s, re.IGNORECASE)` with the text of the first group. -/
def searchGroup (p : Capture Char) (s : String) : Option String :=
  (Capture.search ⟨ignoreCase p.before, ignoreCase p.group, ignoreCase p.after⟩ s.toList).map String.ofList

namespace CharClasses

variable (u : CharClasses)

/-- `\b`. -/
def boundary : Regex Char := .boundary u.isWord

/-- `\d`. -/
def decimal : Regex Char := .symbol u.isDecimal

/-- `\s`. -/
def space : Regex Char := .symbol u.isSpace

end CharClasses

end Hledac.Py.Re
