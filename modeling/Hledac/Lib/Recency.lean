import Mathlib.Data.Finset.Card
import Mathlib.Data.List.TakeWhile

/-!
# Recency of use

A history lists uses, the latest first. What was used since the last use of an item says which of two
items was used later, and how many others have been used meanwhile.
-/

namespace Hledac.Lib

namespace Recency

variable {α : Type*} [DecidableEq α]

/-- The items used since the last use of `a`, all where it was not used. -/
def since (history : List α) (a : α) : List α := history.takeWhile fun b => b ≠ a

/-- The number of different items used since the last use of `a`. -/
def distinctSince (history : List α) (a : α) : Nat := (since history a).toFinset.card

/-- Each item was used before those after it in the list. -/
def InOrder (history items : List α) : Prop := items.Pairwise fun a b => b ∈ since history a

variable {history items rest : List α} {a b : α}

theorem since_cons_self (history : List α) (a : α) : since (a :: history) a = [] := by
  rw [since, List.takeWhile_cons_of_neg (by simp)]

theorem since_cons_of_ne (h : b ≠ a) : since (b :: history) a = b :: since history a := by
  rw [since, List.takeWhile_cons_of_pos (by simpa using h)]
  rfl

theorem mem_since_cons (h : b ∈ since history a) {c : α} (hc : c ≠ a) : b ∈ since (c :: history) a := by
  rw [since_cons_of_ne hc]
  exact List.mem_cons_of_mem c h

/-- Of two items one was used last. -/
theorem notMem_since_of_mem (h : b ∈ since history a) : a ∉ since history b := by
  induction history with
  | nil => cases h
  | cons c history ih =>
    intro hmem
    by_cases hca : c = a
    · rw [hca, since_cons_self] at h
      cases h
    · by_cases hcb : c = b
      · rw [hcb, since_cons_self] at hmem
        cases hmem
      · rw [since_cons_of_ne hca, List.mem_cons] at h
        rw [since_cons_of_ne hcb, List.mem_cons] at hmem
        exact ih (h.resolve_left (Ne.symm hcb)) (hmem.resolve_left (Ne.symm hca))

theorem distinctSince_cons_of_ne (h : b ≠ a) : distinctSince (b :: history) a =
    if b ∈ since history a then distinctSince history a else distinctSince history a + 1 := by
  rw [distinctSince, since_cons_of_ne h, List.toFinset_cons]
  split
  · next hmem => rw [Finset.insert_eq_of_mem (List.mem_toFinset.2 hmem), distinctSince]
  · next hmem => rw [Finset.card_insert_of_notMem (mt List.mem_toFinset.1 hmem), distinctSince]

theorem distinctSince_le_cons (h : b ≠ a) : distinctSince history a ≤ distinctSince (b :: history) a := by
  rw [distinctSince_cons_of_ne h]
  split
  · exact le_rfl
  · exact Nat.le_succ _

theorem inOrder_nil : InOrder history [] := List.Pairwise.nil

theorem InOrder.sublist (h : InOrder history items) (hsub : rest.Sublist items) : InOrder history rest :=
  List.Pairwise.sublist hsub h

theorem InOrder.head (h : InOrder history (a :: rest)) (hb : b ∈ rest) : b ∈ since history a :=
  List.rel_of_pairwise_cons h hb

/-- An item used anew goes to the end. -/
theorem InOrder.use (h : InOrder history items) (ha : a ∉ items) : InOrder (a :: history) (items ++ [a]) := by
  apply List.pairwise_append.2
  refine ⟨h.imp_of_mem ?_, List.pairwise_singleton _ _, ?_⟩
  · intro b c hb _ hc
    exact mem_since_cons hc (ne_of_mem_of_not_mem hb ha).symm
  · intro b hb c hc
    obtain rfl := List.mem_singleton.1 hc
    rw [since_cons_of_ne (ne_of_mem_of_not_mem hb ha).symm]
    exact List.mem_cons_self

end Recency

end Hledac.Lib
