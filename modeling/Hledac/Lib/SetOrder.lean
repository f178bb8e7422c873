import Mathlib.Data.Finset.Card

/-!
# Sets that are read in some order

A set has no order of its own. A reader that goes through one sees each of its members once, in an
order that the program may not rely on.
-/

namespace Hledac.Lib

/-- The order in which a set is read. -/
structure SetOrder (α : Type) where
  order : Finset α → List α
  nodup : ∀ s, (order s).Nodup
  mem : ∀ s a, a ∈ order s ↔ a ∈ s

namespace SetOrder

variable {α : Type}

theorem length_order (o : SetOrder α) (s : Finset α) : (o.order s).length = s.card := by
  classical
  rw [← List.toFinset_card_of_nodup (o.nodup s)]
  congr 1
  ext a
  rw [List.mem_toFinset, o.mem]

instance : Nonempty (SetOrder α) :=
  ⟨⟨Finset.toList, Finset.nodup_toList, fun _ _ => Finset.mem_toList⟩⟩

/-- The order that reads one item first. -/
noncomputable def leading [DecidableEq α] (item : α) : SetOrder α where
  order s := if item ∈ s then item :: (s.erase item).toList else s.toList
  nodup s := by
    split
    · rw [List.nodup_cons, Finset.mem_toList]
      exact ⟨Finset.notMem_erase item s, Finset.nodup_toList _⟩
    · exact Finset.nodup_toList s
  mem s a := by
    split
    · next hitem =>
      rw [List.mem_cons, Finset.mem_toList, Finset.mem_erase]
      constructor
      · intro h
        exact h.elim (fun heq => heq ▸ hitem) And.right
      · intro h
        exact or_iff_not_imp_left.2 fun hne => ⟨hne, h⟩
    · exact Finset.mem_toList

theorem head?_leading [DecidableEq α] {item : α} {s : Finset α} (h : item ∈ s) :
    ((leading item).order s).head? = some item := by
  show (if item ∈ s then _ else _ : List α).head? = some item
  rw [if_pos h]
  rfl

end SetOrder

end Hledac.Lib
