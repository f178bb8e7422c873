import Mathlib.Data.List.Forall2

/-!
# Lists of partial results

A partial function on every entry of a list. It has a result when and only when every entry has one.
-/

namespace Hledac.Lib

universe u v

variable {α : Type u} {β : Type u} {f : α → Option β} {l : List α} {values : List β}

theorem mapM_eq_some_iff : l.mapM f = some values ↔ List.Forall₂ (fun a b => f a = some b) l values := by
  induction l generalizing values with
  | nil =>
    rw [List.mapM_nil, List.forall₂_nil_left_iff]
    exact ⟨fun h => (Option.some_inj.1 h).symm, fun h => congrArg some h.symm⟩
  | cons a rest ih =>
    rw [List.mapM_cons, List.forall₂_cons_left_iff]
    constructor
    · intro h
      obtain ⟨first, hfirst, h⟩ := Option.bind_eq_some_iff.1 h
      obtain ⟨others, hothers, h⟩ := Option.bind_eq_some_iff.1 h
      exact ⟨first, others, hfirst, ih.1 hothers, (Option.some_inj.1 h).symm⟩
    · rintro ⟨first, others, hfirst, hothers, rfl⟩
      rw [hfirst, ih.2 hothers]
      rfl

theorem exists_mapM_iff : (∃ values, l.mapM f = some values) ↔ ∀ a ∈ l, f a ≠ none := by
  induction l with
  | nil => exact ⟨fun _ _ ha => absurd ha List.not_mem_nil, fun _ => ⟨[], List.mapM_nil⟩⟩
  | cons a rest ih =>
    rw [List.forall_mem_cons, ← ih]
    constructor
    · rintro ⟨values, hvalues⟩
      rw [mapM_eq_some_iff, List.forall₂_cons_left_iff] at hvalues
      obtain ⟨value, others, hvalue, hothers, _⟩ := hvalues
      exact ⟨Option.ne_none_iff_exists'.2 ⟨value, hvalue⟩, others, mapM_eq_some_iff.2 hothers⟩
    · rintro ⟨hfirst, values, hvalues⟩
      obtain ⟨value, hvalue⟩ := Option.ne_none_iff_exists'.1 hfirst
      exact ⟨value :: values, mapM_eq_some_iff.2 (.cons hvalue (mapM_eq_some_iff.1 hvalues))⟩

/-- What is collected comes from an entry of the list. -/
theorem exists_of_mem_mapM (h : l.mapM f = some values) {value : β} (hvalue : value ∈ values) :
    ∃ a ∈ l, f a = some value := by
  rw [mapM_eq_some_iff] at h
  induction h with
  | nil => cases hvalue
  | cons hab _ ih =>
    cases List.mem_cons.1 hvalue with
    | inl heq => exact ⟨_, List.mem_cons_self, heq ▸ hab⟩
    | inr hmem =>
      obtain ⟨a, ha, hvalue⟩ := ih hmem
      exact ⟨a, List.mem_cons_of_mem _ ha, hvalue⟩

/-- The results before an entry, of the entry, and after it. -/
theorem mapM_append_cons {before after : List α} {a : α} (h : (before ++ a :: after).mapM f = some values) :
    ∃ vs v ws, before.mapM f = some vs ∧ f a = some v ∧ after.mapM f = some ws ∧ values = vs ++ v :: ws := by
  rw [List.mapM_append, List.mapM_cons] at h
  obtain ⟨vs, hvs, h⟩ := Option.bind_eq_some_iff.1 h
  obtain ⟨rest, hrest, h⟩ := Option.bind_eq_some_iff.1 h
  obtain ⟨v, hv, hrest⟩ := Option.bind_eq_some_iff.1 hrest
  obtain ⟨ws, hws, hrest⟩ := Option.bind_eq_some_iff.1 hrest
  cases hrest
  exact ⟨vs, v, ws, hvs, hv, hws, (Option.some_inj.1 h).symm⟩

end Hledac.Lib
