import Hledac.Knowledge.HotEdges
import Hledac.Py.Parse

/-!
# The text of a list of pairs

The compact JSON text of a list of pairs of numbers, as `msgspec.json` writes it, and a reader of such texts.
-/

namespace Hledac.Knowledge.PairJson

open Hledac.Lib Hledac.Py

/-! ### Writing -/

def bracketOpen : UInt8 := 0x5B

def bracketClose : UInt8 := 0x5D

def comma : UInt8 := 0x2C

/-- The decimal digits of a number. -/
def digits (n : Nat) : Bytes := (Nat.toDigits 10 n).map fun ch => UInt8.ofNat ch.toNat

def pairText (p : Nat × Nat) : Bytes :=
  bracketOpen :: (digits p.1 ++ comma :: (digits p.2 ++ [bracketClose]))

def text : List (Nat × Nat) → Bytes
  | [] => [bracketOpen, bracketClose]
  | p :: rest => bracketOpen :: (pairText p ++ ((rest.flatMap fun q => comma :: pairText q) ++ [bracketClose]))

/-! ### Reading -/

def isDigit (x : UInt8) : Bool := 48 ≤ x.toNat && x.toNat ≤ 57

def expect (x : UInt8) : Wire.Reader Unit
  | y :: rest => if y = x then some ((), rest) else none
  | [] => none

def number : Wire.Reader Nat := fun data =>
  let field := data.takeWhile isDigit
  if field = [] then none
  else some ((field.map fun x => x.toNat - 48).foldl (fun m d => m * 10 + d) 0, data.dropWhile isDigit)

def pair : Wire.Reader (Nat × Nat) := do
  expect bracketOpen
  let first ← number
  expect comma
  let second ← number
  expect bracketClose
  pure (first, second)

/-- The items behind the first, up to the end of the array. Every round takes a byte at least. -/
def more : Nat → Wire.Reader (List (Nat × Nat))
  | 0, _ => none
  | _ + 1, [] => none
  | fuel + 1, x :: rest =>
    if x = bracketClose then some ([], rest)
    else if x = comma then (do
      let first ← pair
      let others ← more fuel
      pure (first :: others) : Wire.Reader (List (Nat × Nat))) rest
    else none

def array : Wire.Reader (List (Nat × Nat)) := fun data =>
  match data with
  | x :: y :: rest =>
    if x ≠ bracketOpen then none
    else if y = bracketClose then some ([], rest)
    else (do
      let first ← pair
      let others ← more data.length
      pure (first :: others) : Wire.Reader (List (Nat × Nat))) (y :: rest)
  | _ => none

/-- The codec that writes and reads these texts. -/
def codec : PairCodec where
  encode l := some (text l)
  decode blob :=
    match array blob with
    | some (l, []) => some l
    | _ => none

/-! ### The two together -/

section RoundTrip

variable {rest : Bytes} {n : Nat}

theorem toNat_digit {ch : Char} (h : ch ∈ Nat.toDigits 10 n) :
    48 ≤ ch.toNat ∧ ch.toNat ≤ 57 ∧ (UInt8.ofNat ch.toNat).toNat = ch.toNat := by
  have hdigit := Nat.isDigit_of_mem_toDigits (by decide) (by decide) h
  simp only [Char.isDigit, ge_iff_le, Bool.and_eq_true, decide_eq_true_eq, UInt32.le_iff_toNat_le] at hdigit
  have hrange : 48 ≤ ch.toNat ∧ ch.toNat ≤ 57 := hdigit
  exact ⟨hrange.1, hrange.2, UInt8.toNat_ofNat_of_lt' (show ch.toNat < 256 by omega)⟩

theorem isDigit_of_mem {x : UInt8} (h : x ∈ digits n) : isDigit x = true := by
  obtain ⟨ch, hch, rfl⟩ := List.mem_map.1 h
  obtain ⟨hlow, hhigh, hbyte⟩ := toNat_digit hch
  rw [isDigit, hbyte, decide_eq_true hlow, decide_eq_true hhigh]
  rfl

theorem digits_ne_nil (n : Nat) : digits n ≠ [] := by
  rw [digits, Ne, List.map_eq_nil_iff]
  exact Nat.toDigits_ne_nil

theorem foldl_digits (n : Nat) : ((digits n).map fun x => x.toNat - 48).foldl (fun m d => m * 10 + d) 0 = n := by
  have hvalues : ((digits n).map fun x => x.toNat - 48) = (Nat.toDigits 10 n).map fun ch => ch.toNat - 48 := by
    rw [digits, List.map_map]
    apply List.map_congr_left
    intro ch hch
    rw [Function.comp_apply, (toNat_digit hch).2.2]
  rw [hvalues, foldl_toDigits]

theorem number_append {x : UInt8} (hx : isDigit x = false) (n : Nat) (rest : Bytes) :
    number (digits n ++ x :: rest) = some (n, x :: rest) := by
  have htake : (digits n ++ x :: rest).takeWhile isDigit = digits n := by
    rw [List.takeWhile_append_of_pos fun y hy => isDigit_of_mem hy, List.takeWhile_cons_of_neg (by rw [hx]; nofun),
      List.append_nil]
  have hdrop : (digits n ++ x :: rest).dropWhile isDigit = x :: rest := by
    rw [List.dropWhile_append_of_pos fun y hy => isDigit_of_mem hy, List.dropWhile_cons_of_neg (by rw [hx]; nofun)]
  simp only [number, htake, hdrop]
  rw [if_neg (digits_ne_nil n), foldl_digits]

theorem expect_cons (x : UInt8) (rest : Bytes) : expect x (x :: rest) = some ((), rest) := if_pos rfl

theorem pair_append (p : Nat × Nat) (rest : Bytes) : pair (pairText p ++ rest) = some (p, rest) := by
  have hfirst : number (digits p.1 ++ comma :: (digits p.2 ++ [bracketClose]) ++ rest) =
      some (p.1, comma :: (digits p.2 ++ bracketClose :: rest)) := by
    rw [List.append_assoc, List.cons_append, List.append_assoc]
    exact number_append (by decide) _ _
  rw [pair, pairText, List.cons_append, Wire.bind_eq_of_eq_some (expect_cons _ _), Wire.bind_eq_of_eq_some hfirst,
    Wire.bind_eq_of_eq_some (expect_cons _ _), Wire.bind_eq_of_eq_some (number_append (by decide) _ _),
    Wire.bind_eq_of_eq_some (expect_cons _ _)]
  rfl

theorem more_append {l : List (Nat × Nat)} {fuel : Nat} (hfuel : l.length < fuel) (rest : Bytes) :
    more fuel ((l.flatMap fun q => comma :: pairText q) ++ bracketClose :: rest) = some (l, rest) := by
  induction l generalizing fuel with
  | nil =>
    cases fuel with
    | zero => cases hfuel
    | succ fuel => exact if_pos rfl
  | cons p others ih =>
    cases fuel with
    | zero => cases hfuel
    | succ fuel =>
      rw [List.flatMap_cons, List.cons_append, List.cons_append, more, if_neg (by decide), if_pos rfl,
        List.append_assoc, Wire.bind_eq_of_eq_some (pair_append p _),
        Wire.bind_eq_of_eq_some (ih (Nat.lt_of_succ_lt_succ hfuel))]
      rfl

theorem length_lt_text (p : Nat × Nat) (l : List (Nat × Nat)) : l.length < (text (p :: l)).length := by
  have hflat : l.length ≤ (l.flatMap fun q => comma :: pairText q).length := by
    induction l with
    | nil => exact Nat.le_refl 0
    | cons q others ih =>
      rw [List.flatMap_cons, List.length_append, List.length_cons, List.length_cons]
      omega
  rw [text, List.length_cons, List.length_append, List.length_append]
  omega

theorem array_text (l : List (Nat × Nat)) : array (text l) = some (l, []) := by
  cases l with
  | nil => rfl
  | cons p others =>
    have hfuel := length_lt_text p others
    have hcons : text (p :: others) = bracketOpen :: bracketOpen :: (digits p.1 ++ comma :: (digits p.2 ++
        [bracketClose]) ++ ((others.flatMap fun q => comma :: pairText q) ++ [bracketClose])) := rfl
    rw [hcons] at hfuel ⊢
    rw [array, if_neg (fun h => h rfl), if_neg (by decide), ← List.cons_append, ← pairText,
      Wire.bind_eq_of_eq_some (pair_append p _)]
    exact Wire.bind_eq_of_eq_some (more_append hfuel [])

end RoundTrip

theorem codec_lawful : codec.Lawful where
  total _ _ := rfl
  decode_encode l blob h := by
    cases h
    simp only [codec, array_text]
  bracket l blob h := by
    cases h
    cases l with
    | nil => rfl
    | cons p rest => rfl
  control blob h := by
    obtain ⟨rest, rfl⟩ := List.head?_eq_some_iff.1 (of_decide_eq_true h)
    cases rest with
    | nil => rfl
    | cons x rest => rfl

end Hledac.Knowledge.PairJson
