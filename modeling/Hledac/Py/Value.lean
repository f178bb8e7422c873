import Mathlib.Data.List.Sort
import Mathlib.Data.Rat.Floor
import Hledac.Lib.Digest

/-!
# Python values

The values an event payload is made of, and the few built-in operations on them that the
evidence code uses. Floats are finite and carried as rationals. Dictionary keys are strings,
as every payload type in the source declares them.
-/

namespace Hledac.Py

open Hledac.Lib

/-- The exception classes that the evidence code raises or tells apart. -/
inductive ExcKind where
  | runtimeError
  | valueError
  | typeError
  | keyError
  | indexError
  | osError
  | overflowError
  deriving DecidableEq, Repr

/-- A raised exception. -/
structure PyError where
  kind : ExcKind
  message : String
  deriving DecidableEq, Repr

/-- A payload value. A set, a struct and an array carry what `sorted`, `msgspec.to_builtins` and
`tolist` give for them; `unsortedSet` is a set whose elements have no common order, and
`instanceOf` a value of any other class. -/
inductive PyVal where
  | none
  | bool (b : Bool)
  | int (i : Int)
  | float (q : ℚ)
  | str (s : String)
  | datetime (isoformat : String)
  | bytes (b : Bytes)
  | list (xs : List PyVal)
  | tuple (xs : List PyVal)
  | set (sorted : List PyVal)
  | unsortedSet (xs : List PyVal)
  | dict (items : List (String × PyVal))
  | struct (builtins : PyVal)
  | array (asList : PyVal)
  | instanceOf (cls : String)

/-- `d[key] = value`: an existing key keeps its place. -/
def dictSet {α : Type} (d : List (String × α)) (key : String) (value : α) : List (String × α) :=
  if d.any (·.1 == key) then d.map fun p => if p.1 == key then (key, value) else p
  else d ++ [(key, value)]

/-- `{**d, key: value}` and `{**d, **e}`. -/
def dictUpdate {α : Type} (d e : List (String × α)) : List (String × α) :=
  e.foldl (fun acc p => dictSet acc p.1 p.2) d

/-- `dict(sorted(d.items()))`; keys are unique, so values are never compared. -/
def sortItems {α : Type} (d : List (String × α)) : List (String × α) :=
  d.insertionSort fun p q => p.1 ≤ q.1

/-- `sorted` of strings. -/
def sortStrings (xs : List String) : List String := xs.insertionSort (· ≤ ·)

/-- Round half to even at a non-negative number of decimal places. -/
def roundTo (places : Nat) (q : ℚ) : ℚ :=
  let scaled := q * 10 ^ places
  let low := scaled.floor
  let rest := scaled - low
  let n : Int :=
    if rest < 1 / 2 then low
    else if 1 / 2 < rest then low + 1
    else if low % 2 = 0 then low else low + 1
  n / 10 ^ places

/-- `s[:n]`, for `n ≥ 0`. -/
def takeStr (n : Nat) (s : String) : String := String.ofList (s.toList.take n)

/-- A value as a number, for the types that compare as numbers. -/
def PyVal.asNumber? : PyVal → Option ℚ
  | .bool b => some (if b then 1 else 0)
  | .int i => some i
  | .float q => some q
  | _ => Option.none

mutual

/-- `a == b` on values decoded from JSON; values of other classes are never compared by the
source and come out different. -/
def pyEq : PyVal → PyVal → Bool
  | .none, .none => true
  | .str s, .str t => s == t
  | .list xs, .list ys => pyEqList xs ys
  | .dict xs, .dict ys => xs.length == ys.length && pyEqItems xs ys
  | .bool a, w => w.asNumber? == some (if a then 1 else 0)
  | .int a, w => w.asNumber? == some (a : ℚ)
  | .float a, w => w.asNumber? == some a
  | _, _ => false

/-- Elementwise `==`. -/
def pyEqList : List PyVal → List PyVal → Bool
  | [], [] => true
  | x :: xs, y :: ys => pyEq x y && pyEqList xs ys
  | _, _ => false

/-- Every item of the first dictionary stands, with an equal value, in the second. -/
def pyEqItems : List (String × PyVal) → List (String × PyVal) → Bool
  | [], _ => true
  | (k, v) :: xs, ys =>
    (match ys.lookup k with
      | some w => pyEq v w
      | Option.none => false) && pyEqItems xs ys

end

end Hledac.Py
