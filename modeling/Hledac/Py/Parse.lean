import Mathlib.Data.List.DropRight
import Hledac.Py.Text

/-!
# Python text parsing

`str.strip`, `str.split` with a bound, `str.lower` on ASCII letters, and `int` on strings.
-/

namespace Hledac.Py

/-! ### Stripping and splitting -/

/-- `str.isspace` of one character. -/
def isSpace (ch : Char) : Bool :=
  let n := ch.toNat
  (0x9 ≤ n && n ≤ 0xD) || (0x1C ≤ n && n ≤ 0x20) || n == 0x85 || n == 0xA0 || n == 0x1680 ||
    (0x2000 ≤ n && n ≤ 0x200A) || n == 0x2028 || n == 0x2029 || n == 0x202F || n == 0x205F ||
    n == 0x3000

/-- `str.strip()`, on characters. -/
def stripChars (cs : List Char) : List Char :=
  (cs.dropWhile isSpace).rdropWhile isSpace

/-- `str.strip()`. -/
def strip (s : String) : String := String.ofList (stripChars s.toList)

/-- `str.lower()`, for comparing with ASCII words that have no `k`: no character outside ASCII is
lowered into another letter. -/
def lower (s : String) : String := String.ofList (s.toList.map Char.toLower)

theorem toNat_toLower (ch : Char) :
    ch.toLower.toNat = if 65 ≤ ch.toNat ∧ ch.toNat ≤ 90 then ch.toNat + 32 else ch.toNat := by
  delta Char.toLower
  split
  · next hupper =>
    have hlow : 65 ≤ ch.toNat := UInt32.le_iff_toNat_le.1 hupper.1
    have hhigh : ch.toNat ≤ 90 := UInt32.le_iff_toNat_le.1 hupper.2
    rw [if_pos ⟨hlow, hhigh⟩]
    show (ch.val + 32).toNat = _
    rw [UInt32.toNat_add]
    show (ch.toNat + 32) % 2 ^ 32 = _
    omega
  · next hupper =>
    have hother : ¬ (65 ≤ ch.toNat ∧ ch.toNat ≤ 90) := by
      intro hrange
      exact hupper ⟨UInt32.le_iff_toNat_le.2 hrange.1, UInt32.le_iff_toNat_le.2 hrange.2⟩
    rw [if_neg hother]

@[simp] theorem toLower_toLower (ch : Char) : ch.toLower.toLower = ch.toLower := by
  apply Char.ext
  apply UInt32.toNat_inj.1
  show ch.toLower.toLower.toNat = ch.toLower.toNat
  rw [toNat_toLower ch.toLower, toNat_toLower ch]
  by_cases hrange : 65 ≤ ch.toNat ∧ ch.toNat ≤ 90
  · rw [if_pos hrange, if_neg (by omega)]
  · rw [if_neg hrange, if_neg hrange]

theorem isSpace_toLower (ch : Char) : isSpace ch.toLower = isSpace ch := by
  by_cases hrange : 65 ≤ ch.toNat ∧ ch.toNat ≤ 90
  · have hlow : ch.toLower.toNat = ch.toNat + 32 := (toNat_toLower ch).trans (if_pos hrange)
    have hbefore : isSpace ch = false := by
      simp [isSpace]
      omega
    have hafter : isSpace ch.toLower = false := by
      simp [isSpace, hlow]
      omega
    rw [hbefore, hafter]
  · rw [isSpace, isSpace, toNat_toLower, if_neg hrange]

/-- `s.split(sep, 1)`, when the separator occurs. -/
def splitOnce (sep : Char) (s : String) : Option (String × String) :=
  if sep ∈ s.toList then
    some (String.ofList (s.toList.takeWhile (· ≠ sep)),
      String.ofList ((s.toList.dropWhile (· ≠ sep)).drop 1))
  else none

theorem stripChars_of_forall {cs : List Char} (h : ∀ ch ∈ cs, isSpace ch = false) :
    stripChars cs = cs := by
  have hdrop : cs.dropWhile isSpace = cs := by
    refine List.dropWhile_eq_self_iff.2 fun hl => ?_
    simp [h _ (List.getElem_mem hl)]
  rw [stripChars, hdrop]
  refine List.rdropWhile_eq_self_iff.2 fun hl => ?_
  simp [h _ (List.getLast_mem hl)]

theorem strip_of_forall {s : String} (h : ∀ ch ∈ s.toList, isSpace ch = false) : strip s = s := by
  rw [strip, stripChars_of_forall h, String.ofList_toList]

theorem strip_blank_append (s : String) : strip (" " ++ s) = strip s := by
  rw [strip, strip, String.toList_append]
  rfl

theorem stripChars_stripChars (cs : List Char) : stripChars (stripChars cs) = stripChars cs := by
  have hfront : (stripChars cs).dropWhile isSpace = stripChars cs := by
    refine List.dropWhile_eq_self_iff.2 fun hl => ?_
    -- the first character kept is the first one that is no whitespace
    have hpre : stripChars cs <+: cs.dropWhile isSpace := List.rdropWhile_prefix isSpace _
    have hhead := List.dropWhile_eq_self_iff.1 (List.dropWhile_idempotent isSpace cs)
      (Nat.lt_of_lt_of_le hl hpre.length_le)
    rwa [hpre.getElem hl]
  rw [stripChars, hfront]
  exact List.rdropWhile_idempotent isSpace _

theorem splitOnce_append {sep : Char} {key : String} (h : sep ∉ key.toList) (value : String) :
    splitOnce sep (key ++ String.singleton sep ++ value) = some (key, value) := by
  have hl : (key ++ String.singleton sep ++ value).toList =
      key.toList ++ sep :: value.toList := by simp
  have hne : ∀ ch ∈ key.toList, decide (ch ≠ sep) = true := by
    intro ch hch
    rw [decide_eq_true_iff]
    rintro rfl
    exact h hch
  rw [splitOnce, if_pos (by simp), hl, List.takeWhile_append_of_pos hne,
    List.dropWhile_append_of_pos hne]
  simp

/-! ### Numbers -/

/-- The zeros of Unicode's decimal digits, each followed by its one to nine. -/
def digitZeros : List Nat :=
  [0x30, 0x660, 0x6F0, 0x7C0, 0x966, 0x9E6, 0xA66, 0xAE6, 0xB66, 0xBE6, 0xC66, 0xCE6, 0xD66, 0xDE6,
    0xE50, 0xED0, 0xF20, 0x1040, 0x1090, 0x17E0, 0x1810, 0x1946, 0x19D0, 0x1A80, 0x1A90, 0x1B50,
    0x1BB0, 0x1C40, 0x1C50, 0xA620, 0xA8D0, 0xA900, 0xA9D0, 0xA9F0, 0xAA50, 0xABF0, 0xFF10,
    0x104A0, 0x10D30, 0x11066, 0x110F0, 0x11136, 0x111D0, 0x112F0, 0x11450, 0x114D0, 0x11650,
    0x116C0, 0x11730, 0x118E0, 0x11950, 0x11C50, 0x11D50, 0x11DA0, 0x11F50, 0x16A60, 0x16AC0,
    0x16B50, 0x1D7CE, 0x1D7D8, 0x1D7E2, 0x1D7EC, 0x1D7F6, 0x1E140, 0x1E2F0, 0x1E4F0, 0x1E950,
    0x1FBF0]

/-- The value of a decimal digit. -/
def digitValue (ch : Char) : Option Nat :=
  (digitZeros.find? fun z => z ≤ ch.toNat && ch.toNat ≤ z + 9).map (ch.toNat - ·)

/-- The digits of a number, single underscores between them left out. -/
def readDigits : Bool → List Char → Option (List Nat)
  | afterDigit, [] => if afterDigit then some [] else none
  | afterDigit, ch :: rest =>
    if ch = '_' then
      if afterDigit then readDigits false rest else none
    else do
      let d ← digitValue ch
      let ds ← readDigits true rest
      return d :: ds

/-- Most decimal digits that `int` and `str` convert. -/
def maxStrDigits : Nat := 4300

/-- An unsigned number. -/
def readNat (cs : List Char) : Option Nat := do
  let ds ← readDigits false cs
  if ds.length ≤ maxStrDigits then some (ds.foldl (fun n d => n * 10 + d) 0) else none

/-- `int(s)`; `none` where it raises `ValueError`. -/
def readInt (s : String) : Option Int :=
  match stripChars s.toList with
  | '-' :: cs => (readNat cs).map fun n => -(n : Int)
  | '+' :: cs => (readNat cs).map (↑·)
  | cs => (readNat cs).map (↑·)

theorem readInt_strip (s : String) : readInt (strip s) = readInt s := by
  rw [readInt, readInt, strip, String.toList_ofList, stripChars_stripChars]

/-- `str(n)` of a natural number; `none` where it raises `ValueError`. -/
def natText (n : Nat) : Option String :=
  if (toString n).length ≤ maxStrDigits then some (toString n) else none

private theorem isDigit_iff {ch : Char} : ch.isDigit = true ↔ 48 ≤ ch.toNat ∧ ch.toNat ≤ 57 := by
  simp only [Char.isDigit, ge_iff_le, Bool.and_eq_true, decide_eq_true_eq, UInt32.le_iff_toNat_le]
  exact Iff.rfl

theorem isSpace_of_isDigit {ch : Char} (h : ch.isDigit = true) : isSpace ch = false := by
  obtain ⟨hl, hu⟩ := isDigit_iff.1 h
  simp only [isSpace, Bool.or_eq_false_iff, Bool.and_eq_false_iff, decide_eq_false_iff_not,
    beq_eq_false_iff_ne, ne_eq]
  omega

theorem digitValue_of_isDigit {ch : Char} (h : ch.isDigit = true) :
    digitValue ch = some (ch.toNat - 48) := by
  obtain ⟨hl, hu⟩ := isDigit_iff.1 h
  rw [digitValue, digitZeros, List.find?_cons_of_pos (by simp; omega)]
  rfl

theorem readDigits_of_forall {cs : List Char} (h : ∀ ch ∈ cs, ch.isDigit = true)
    {afterDigit : Bool} (hne : cs ≠ [] ∨ afterDigit = true) :
    readDigits afterDigit cs = some (cs.map fun ch => ch.toNat - 48) := by
  induction cs generalizing afterDigit with
  | nil =>
    have ha : afterDigit = true := hne.resolve_left (by simp)
    simp [readDigits, ha]
  | cons ch cs ih =>
    obtain ⟨hch, hcs⟩ := List.forall_mem_cons.1 h
    have hu : ch ≠ '_' := by
      rintro rfl
      exact absurd hch (by decide)
    rw [readDigits, if_neg hu, digitValue_of_isDigit hch, ih hcs (.inr rfl)]
    rfl

theorem isDigit_of_mem_natText {n : Nat} {text : String} (h : natText n = some text) (ch : Char)
    (hch : ch ∈ text.toList) : ch.isDigit = true := by
  unfold natText at h
  split at h
  · obtain rfl := Option.some.inj h
    rw [Nat.toString_eq_ofList_toDigits, String.toList_ofList] at hch
    exact Nat.isDigit_of_mem_toDigits (by decide) (by decide) hch
  · cases h

theorem foldl_toDigits (n : Nat) :
    ((Nat.toDigits 10 n).map fun ch => ch.toNat - 48).foldl (fun m d => m * 10 + d) 0 = n := by
  have hvalue : ((Nat.toDigits 10 n).map fun ch => ch.toNat - 48).foldl (fun m d => m * 10 + d) 0 =
      Nat.ofDigitChars 10 (Nat.toDigits 10 n) 0 := by
    rw [Nat.ofDigitChars_eq_foldl, List.foldl_map]
    simp only [Nat.mul_comm]
    rfl
  rw [hvalue, Nat.ofDigitChars_ten_toDigits]

theorem readNat_toDigits {n : Nat} (h : (Nat.toDigits 10 n).length ≤ maxStrDigits) :
    readNat (Nat.toDigits 10 n) = some n := by
  have hdigit : ∀ ch ∈ Nat.toDigits 10 n, ch.isDigit = true := fun ch hch =>
    Nat.isDigit_of_mem_toDigits (by decide) (by decide) hch
  rw [readNat, readDigits_of_forall hdigit (.inl Nat.toDigits_ne_nil)]
  simp only [Option.bind_eq_bind, Option.bind_some, List.length_map, if_pos h, foldl_toDigits]

theorem readInt_natText {n : Nat} {text : String} (h : natText n = some text) :
    readInt text = some (n : Int) := by
  unfold natText at h
  split at h
  · next hlen =>
    obtain rfl := Option.some.inj h
    rw [Nat.toString_eq_ofList_toDigits, String.length_ofList] at hlen
    rw [readInt, Nat.toString_eq_ofList_toDigits, String.toList_ofList]
    have hdigit : ∀ ch ∈ Nat.toDigits 10 n, ch.isDigit = true := fun ch hch =>
      Nat.isDigit_of_mem_toDigits (by decide) (by decide) hch
    rw [stripChars_of_forall fun ch hch => isSpace_of_isDigit (hdigit ch hch)]
    have hread : readNat (Nat.toDigits 10 n) = some n := readNat_toDigits hlen
    -- a digit is no sign
    cases hcs : Nat.toDigits 10 n with
    | nil => exact absurd hcs Nat.toDigits_ne_nil
    | cons ch cs =>
      rw [hcs] at hread hdigit
      have hch := hdigit ch List.mem_cons_self
      split
      · next heq =>
        rw [(List.cons.inj heq).1] at hch
        exact absurd hch (by decide)
      · next heq =>
        rw [(List.cons.inj heq).1] at hch
        exact absurd hch (by decide)
      · rw [hread]
        rfl
  · cases h

end Hledac.Py
