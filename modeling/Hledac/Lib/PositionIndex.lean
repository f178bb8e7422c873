import Mathlib.Data.List.Induction

/-!
# Positions of the entries that satisfy a test

The list an index by position holds for one key: the positions, in order, of the entries of a list
that satisfy a test. It grows with the list, and following it gives the same entries as scanning
the list.
-/

namespace Hledac.Lib

universe u v

variable {α : Type u} {β : Type v} {p : α → Bool}

/-- The positions of the entries that satisfy `p`, counted from `start`. -/
def positionsFrom (p : α → Bool) : Nat → List α → List Nat
  | _, [] => []
  | start, x :: xs =>
    if p x then start :: positionsFrom p (start + 1) xs else positionsFrom p (start + 1) xs

/-- The positions of the entries that satisfy `p`. -/
def positions (p : α → Bool) (xs : List α) : List Nat := positionsFrom p 0 xs

@[simp] theorem positions_nil : positions p [] = [] := rfl

private theorem positionsFrom_append (start : Nat) (xs ys : List α) :
    positionsFrom p start (xs ++ ys) =
      positionsFrom p start xs ++ positionsFrom p (start + xs.length) ys := by
  induction xs generalizing start with
  | nil => simp [positionsFrom]
  | cons x xs ih =>
    simp only [List.cons_append, positionsFrom, ih, List.length_cons]
    rw [show start + 1 + xs.length = start + (xs.length + 1) by omega]
    split <;> simp

theorem positions_concat (xs : List α) (x : α) :
    positions p (xs ++ [x]) = positions p xs ++ if p x then [xs.length] else [] := by
  rw [positions, positionsFrom_append, Nat.zero_add]
  simp [positions, positionsFrom]

theorem length_positionsFrom_le (start : Nat) (xs : List α) :
    (positionsFrom p start xs).length ≤ xs.length := by
  induction xs generalizing start with
  | nil => simp [positionsFrom]
  | cons x xs ih =>
    simp only [positionsFrom]
    have := ih (start + 1)
    split
    · simp only [List.length_cons]
      omega
    · simp only [List.length_cons]
      omega

theorem length_positions_le (xs : List α) : (positions p xs).length ≤ xs.length :=
  length_positionsFrom_le 0 xs

private theorem map_getElem?_positionsFrom (pre xs : List α) :
    (positionsFrom p pre.length xs).map ((pre ++ xs)[·]?) = (xs.filter p).map some := by
  induction xs generalizing pre with
  | nil => rfl
  | cons x xs ih =>
    have hx : pre ++ x :: xs = (pre ++ [x]) ++ xs := by simp
    have ih' := ih (pre ++ [x])
    simp only [List.length_append, List.length_singleton] at ih'
    by_cases h : p x = true
    · rw [positionsFrom, if_pos h, List.filter_cons_of_pos h, List.map_cons, List.map_cons, hx, ih']
      simp
    · rw [positionsFrom, if_neg h, List.filter_cons_of_neg h, hx, ih']

theorem map_getElem?_positions (xs : List α) :
    (positions p xs).map (xs[·]?) = (xs.filter p).map some :=
  map_getElem?_positionsFrom [] xs

theorem exists_of_mem_positions {xs : List α} {i : Nat} (h : i ∈ positions p xs) :
    ∃ x, xs[i]? = some x ∧ p x = true := by
  have hm : xs[i]? ∈ (positions p xs).map (xs[·]?) := List.mem_map.2 ⟨i, h, rfl⟩
  rw [map_getElem?_positions] at hm
  obtain ⟨x, hx, he⟩ := List.mem_map.1 hm
  exact ⟨x, he.symm, (List.mem_filter.1 hx).2⟩

/-- All positions are those of the test that always holds. -/
theorem range_eq_positions (xs : List α) :
    List.range xs.length = positions (fun _ => true) xs := by
  induction xs using List.reverseRecOn with
  | nil => rfl
  | append_singleton xs x ih =>
    rw [positions_concat, ← ih, List.length_append, List.length_singleton, List.range_succ]
    simp

end Hledac.Lib
