import Mathlib.Data.List.Basic

/-!
# Bounded double-ended queues

`Deque α n` is a queue that never holds more than `n` entries: appending to a full one
drops the oldest entry. The bound is a field of the structure, so that no longer queue
can be built.
-/

namespace Hledac.Lib

universe u

/-- At most `maxlen` entries, oldest first. -/
structure Deque (α : Type u) (maxlen : Nat) where
  toList : List α
  length_le : toList.length ≤ maxlen
  deriving DecidableEq

namespace Deque

variable {α : Type u} {maxlen : Nat}

/-- The queue without entries. -/
def empty : Deque α maxlen := ⟨[], Nat.zero_le _⟩

/-- Number of entries held. -/
def length (d : Deque α maxlen) : Nat := d.toList.length

/-- Append at the right end, dropping the oldest entries beyond the bound. -/
def append (d : Deque α maxlen) (x : α) : Deque α maxlen :=
  ⟨(d.toList ++ [x]).drop (d.length + 1 - maxlen), by
    simp only [List.length_drop, List.length_append, List.length_singleton, length]
    omega⟩

/-- The newest `maxlen` entries of a list. -/
def ofList (xs : List α) : Deque α maxlen :=
  ⟨xs.drop (xs.length - maxlen), by simp only [List.length_drop]; omega⟩

@[ext] theorem ext {d e : Deque α maxlen} (h : d.toList = e.toList) : d = e := by
  cases d
  cases e
  congr

@[simp] theorem toList_empty : (empty : Deque α maxlen).toList = [] := rfl

@[simp] theorem length_empty : (empty : Deque α maxlen).length = 0 := rfl

theorem toList_append_of_lt (d : Deque α maxlen) (x : α) (h : d.length < maxlen) :
    (d.append x).toList = d.toList ++ [x] := by
  simp only [append]
  rw [Nat.sub_eq_zero_of_le h, List.drop_zero]

theorem toList_append_suffix (d : Deque α maxlen) (x : α) :
    (d.append x).toList <:+ d.toList ++ [x] :=
  List.drop_suffix _ _

theorem mem_append (d : Deque α maxlen) (x y : α) (h : y ∈ (d.append x).toList) :
    y ∈ d.toList ∨ y = x := by
  simpa using (toList_append_suffix d x).subset h

theorem length_append (d : Deque α maxlen) (x : α) :
    (d.append x).length = min (d.length + 1) maxlen := by
  have := d.length_le
  simp only [length, append, List.length_drop, List.length_append, List.length_singleton] at *
  omega

/-- A queue that tracks the newest entries of a history still does after an append to both. -/
theorem append_eq_ofList {d : Deque α maxlen} {xs : List α} (h : d = ofList xs) (x : α) :
    d.append x = ofList (xs ++ [x]) := by
  subst h
  ext1
  simp only [append, ofList, length, List.length_drop, List.length_append,
    List.length_singleton]
  rw [← List.drop_append_of_le_length (by omega), List.drop_drop]
  congr 1
  omega

theorem toList_ofList_suffix (xs : List α) : (ofList xs : Deque α maxlen).toList <:+ xs :=
  List.drop_suffix _ _

end Deque

end Hledac.Lib
