import Hledac.Lib.PrefixCode
import Hledac.Py.Value

/-!
# The text forms of strings, bytes and lists of strings

`repr` as an f-string shows it inside a list, and for `bytes` by themselves. Which characters beyond ASCII are
printable is read from the Unicode database.
-/

namespace Hledac.Py

open Hledac.Lib

/-! ### Hexadecimal digits -/

/-- The low `k` hexadecimal digits of a number, the highest first. -/
def hexText : Nat → Nat → List Char
  | 0, _ => []
  | k + 1, n => Digest.hexDigit (n / 16 ^ k % 16) :: hexText k n

/-- The number that a lowercase hexadecimal digit stands for. -/
def hexValue (ch : Char) : Nat := if ch.toNat < 58 then ch.toNat - 48 else ch.toNat - 87

/-- The number that hexadecimal digits stand for, after those read before. -/
def ofHex (seen : Nat) (cs : List Char) : Nat := cs.foldl (fun n ch => 16 * n + hexValue ch) seen

theorem hexValue_hexDigit {d : Nat} (h : d < 16) : hexValue (Digest.hexDigit d) = d := by
  have hall : ∀ d : Fin 16, hexValue (Digest.hexDigit d) = d := by decide
  exact hall ⟨d, h⟩

theorem ofHex_hexText (k n seen : Nat) : ofHex seen (hexText k n) = 16 ^ k * seen + n % 16 ^ k := by
  induction k generalizing seen with
  | zero => simp [hexText, ofHex, Nat.mod_one]
  | succ k ih =>
    have hdigit := hexValue_hexDigit (Nat.mod_lt (n / 16 ^ k) (by decide : 16 > 0))
    have hmod : n % 16 ^ (k + 1) = 16 ^ k * (n / 16 ^ k % 16) + n % 16 ^ k := by
      rw [Nat.pow_succ, Nat.mod_mul, Nat.add_comm]
    rw [hexText, ofHex, List.foldl_cons, ← ofHex, ih, hdigit, hmod, Nat.pow_succ]
    ring

/-! ### Escapes -/

section Escape

variable (printable : Char → Bool)

/-- One character of a literal in the given quotes. -/
def escape (quote ch : Char) : List Char :=
  if ch = quote ∨ ch = '\\' then ['\\', ch]
  else if ch = '\t' then ['\\', 't']
  else if ch = '\n' then ['\\', 'n']
  else if ch = '\r' then ['\\', 'r']
  else if ch.toNat < 0x20 ∨ ch.toNat = 0x7F then '\\' :: 'x' :: hexText 2 ch.toNat
  else if ch.toNat < 0x7F then [ch]
  else if printable ch then [ch]
  else if ch.toNat ≤ 0xFF then '\\' :: 'x' :: hexText 2 ch.toNat
  else if ch.toNat ≤ 0xFFFF then '\\' :: 'u' :: hexText 4 ch.toNat
  else '\\' :: 'U' :: hexText 8 ch.toNat

/-- The character that an escape, or a character by itself, stands for at the start of a text. -/
def readEscape : List Char → Option Char
  | '\\' :: 'x' :: cs => some (Char.ofNat (ofHex 0 (cs.take 2)))
  | '\\' :: 'u' :: cs => some (Char.ofNat (ofHex 0 (cs.take 4)))
  | '\\' :: 'U' :: cs => some (Char.ofNat (ofHex 0 (cs.take 8)))
  | '\\' :: 't' :: _ => some '\t'
  | '\\' :: 'n' :: _ => some '\n'
  | '\\' :: 'r' :: _ => some '\r'
  | '\\' :: ch :: _ => some ch
  | ch :: _ => some ch
  | [] => none

theorem length_hexText (k n : Nat) : (hexText k n).length = k := by
  induction k with
  | zero => rfl
  | succ k ih => rw [hexText, List.length_cons, ih]

theorem ofNat_ofHex_hexText {k : Nat} {ch : Char} (h : ch.toNat < 16 ^ k) (x : List Char) :
    Char.ofNat (ofHex 0 ((hexText k ch.toNat ++ x).take k)) = ch := by
  rw [List.take_left' (length_hexText k _), ofHex_hexText, Nat.mul_zero, Nat.zero_add, Nat.mod_eq_of_lt h,
    Char.ofNat_toNat]

theorem readEscape_of_ne {ch : Char} (h : ch ≠ '\\') (x : List Char) : readEscape (ch :: x) = some ch := by
  unfold readEscape
  split <;> simp_all

variable {quote : Char}

theorem readEscape_escape (hquote : quote = '\'' ∨ quote = '"') (ch : Char) (x : List Char) :
    readEscape (escape printable quote ch ++ x) = some ch := by
  have hword : ch.toNat < 16 ^ 8 := ch.val.toNat_lt
  rw [escape]
  split
  · next h =>
    cases h with
    | inl h =>
      subst h
      cases hquote with
      | inl h => rw [h]; rfl
      | inr h => rw [h]; rfl
    | inr h => rw [h]; rfl
  · next hplain =>
    obtain ⟨-, hback⟩ := not_or.1 hplain
    split
    · next h => rw [h]; rfl
    split
    · next h => rw [h]; rfl
    split
    · next h => rw [h]; rfl
    split
    · next h => exact congrArg some (ofNat_ofHex_hexText (by omega) x)
    split
    · exact readEscape_of_ne hback x
    split
    · exact readEscape_of_ne hback x
    split
    · next h => exact congrArg some (ofNat_ofHex_hexText (by omega) x)
    split
    · next h => exact congrArg some (ofNat_ofHex_hexText (by omega) x)
    · exact congrArg some (ofNat_ofHex_hexText hword x)

theorem prefixFree_escape (hquote : quote = '\'' ∨ quote = '"') : PrefixFree (escape printable quote) :=
  prefixFree_of_read readEscape (readEscape_escape printable hquote)

theorem neverStarts_escape (hquote : quote = '\'' ∨ quote = '"') : NeverStarts (escape printable quote) quote := by
  intro ch x y heq
  have hback : quote ≠ '\\' := by
    cases hquote with
    | inl h => rw [h]; decide
    | inr h => rw [h]; decide
  have hread := congrArg readEscape heq
  rw [readEscape_escape printable hquote, readEscape_of_ne hback, Option.some_inj] at hread
  subst hread
  rw [escape, if_pos (.inl rfl)] at heq
  exact hback (List.cons.inj heq).1.symm

end Escape

/-! ### Literals -/

/-- The quotes of a literal: double ones only where that saves an escape. -/
def quoteOf (cs : List Char) : Char := if '\'' ∈ cs ∧ '"' ∉ cs then '"' else '\''

/-- `repr` of a string, on characters. -/
def reprChars (printable : Char → Bool) (cs : List Char) : List Char :=
  quoteOf cs :: (cs.flatMap (escape printable (quoteOf cs)) ++ [quoteOf cs])

/-- `repr` of `bytes`, on characters: beyond ASCII everything is escaped. -/
def reprBytes (bs : Bytes) : List Char := 'b' :: reprChars (fun _ => false) (bs.map fun x => Char.ofNat x.toNat)

/-- `repr` of a list of strings, on characters. -/
def reprStrs (printable : Char → Bool) (xs : List String) : List Char :=
  '[' :: separated (fun s : String => reprChars printable s.toList) [',', ' '] ']' xs

theorem quoteOf_eq (cs : List Char) : quoteOf cs = '\'' ∨ quoteOf cs = '"' := by
  rw [quoteOf]
  split
  · exact .inr rfl
  · exact .inl rfl

theorem prefixFree_reprChars (printable : Char → Bool) : PrefixFree (reprChars printable) := by
  intro as bs x y heq
  rw [reprChars, reprChars, List.cons_append, List.cons_append, List.cons.injEq] at heq
  obtain ⟨hquote, hrest⟩ := heq
  rw [hquote] at hrest
  have hq := quoteOf_eq bs
  exact (prefixFree_escape printable hq).flatMap_close (neverStarts_escape printable hq) as bs x y hrest

theorem prefixFree_reprBytes : PrefixFree reprBytes := by
  intro as bs x y heq
  obtain ⟨hmap, hxy⟩ := prefixFree_reprChars (fun _ => false) _ _ _ _ (List.cons.inj heq).2
  refine ⟨List.map_injective_iff.2 ?_ hmap, hxy⟩
  intro a b hab
  have hnat := congrArg Char.toNat hab
  have hcode : ∀ n : Fin 256, (Char.ofNat n).toNat = n := by decide +kernel
  rw [hcode ⟨a.toNat, a.toNat_lt⟩, hcode ⟨b.toNat, b.toNat_lt⟩] at hnat
  exact UInt8.toNat_inj.1 hnat

theorem prefixFree_reprStrs (printable : Char → Bool) : PrefixFree (reprStrs printable) := by
  have hstr : PrefixFree fun s : String => reprChars printable s.toList := by
    intro s t x y heq
    obtain ⟨hlist, hxy⟩ := prefixFree_reprChars printable _ _ x y heq
    exact ⟨String.toList_inj.1 hlist, hxy⟩
  have hclose : NeverStarts (fun s : String => reprChars printable s.toList) ']' := by
    intro s x y heq
    have hhead := (List.cons.inj heq).1
    cases quoteOf_eq s.toList with
    | inl h => rw [h] at hhead; exact absurd hhead (by decide)
    | inr h => rw [h] at hhead; exact absurd hhead (by decide)
  exact (hstr.separated hclose (by decide)).append_left ['[']

end Hledac.Py
