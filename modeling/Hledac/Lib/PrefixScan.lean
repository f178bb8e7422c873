import Mathlib.Data.List.Lex
import Mathlib.Data.List.Nodup
import Mathlib.Data.List.Sort
import Mathlib.Order.Lattice

/-!
# Scans of ordered keys

Entries under keys that are lists in lexicographic order. A cursor is set to the first key that is not below a head and
reads on while the keys begin with it. These are all keys that begin with it, since they stand together.
-/

namespace Hledac.Lib

universe u v

variable {α : Type u} {V : Type v} [LinearOrder α] {head k₁ k₂ : List α}

/-- The entries in the order of their keys. -/
def byKey (entries : List (List α × V)) : List (List α × V) := entries.mergeSort fun a b => decide (a.1 ≤ b.1)

/-- What a cursor reads. -/
def prefixScan (head : List α) (entries : List (List α × V)) : List (List α × V) :=
  ((byKey entries).dropWhile fun e => decide (e.1 < head)).takeWhile fun e => head.isPrefixOf e.1

private theorem cons_le_cons_iff {a b : α} {l m : List α} : a :: l ≤ b :: m ↔ a < b ∨ a = b ∧ l ≤ m := by
  rw [← not_lt, List.cons_lt_cons_iff, not_or, not_lt, not_and, not_lt, le_iff_lt_or_eq]
  constructor
  · rintro ⟨hlt | rfl, hle⟩
    · exact .inl hlt
    · exact .inr ⟨rfl, hle rfl⟩
  · rintro (hlt | ⟨rfl, hle⟩)
    · exact ⟨.inl hlt, fun heq => absurd hlt (by rw [heq]; exact lt_irrefl a)⟩
    · exact ⟨.inr rfl, fun _ => hle⟩

theorem le_of_isPrefix (h : head <+: k₁) : head ≤ k₁ := by
  induction head generalizing k₁ with
  | nil => exact not_lt.1 (List.not_lt_nil k₁)
  | cons a head ih =>
    obtain ⟨rest, rfl⟩ := h
    exact List.cons_le_cons a (ih (List.prefix_append head rest))

theorem strictMono_append (head : List α) : StrictMono (head ++ ·) := by
  intro k l h
  induction head with
  | nil => exact h
  | cons a head ih => exact List.cons_lt_cons_iff.2 (.inr ⟨rfl, ih⟩)

/-- What stands between a head and a key that begins with it begins with it. -/
theorem isPrefix_of_le_of_le (h₁ : head ≤ k₁) (h₂ : k₁ ≤ k₂) (h : head <+: k₂) : head <+: k₁ := by
  induction head generalizing k₁ k₂ with
  | nil => exact List.nil_prefix
  | cons a head ih =>
    obtain ⟨rest, rfl⟩ := h
    cases k₁ with
    | nil => exact absurd (List.nil_lt_cons a head) (not_lt.2 h₁)
    | cons b k₁ =>
      rw [List.cons_append] at h₂
      rcases cons_le_cons_iff.1 h₁ with hlt | ⟨rfl, hle₁⟩
      · rcases cons_le_cons_iff.1 h₂ with hgt | ⟨heq, -⟩
        · exact absurd hlt hgt.asymm
        · exact absurd hlt (by rw [heq]; exact lt_irrefl a)
      · rcases cons_le_cons_iff.1 h₂ with hgt | ⟨-, hle₂⟩
        · exact absurd hgt (lt_irrefl a)
        · obtain ⟨rest', rfl⟩ := ih hle₁ hle₂ (List.prefix_append head rest)
          exact ⟨rest', rfl⟩

section Scan

variable {entries : List (List α × V)}

theorem pairwise_byKey (entries : List (List α × V)) : (byKey entries).Pairwise fun a b => a.1 ≤ b.1 :=
  List.pairwise_mergeSort' (Order.Preimage Prod.fst (· ≤ ·)) entries

private theorem takeWhile_eq_filter {xs : List (List α × V)} (hsorted : xs.Pairwise fun a b => a.1 ≤ b.1)
    (hle : ∀ e ∈ xs, head ≤ e.1) : (xs.takeWhile fun e => head.isPrefixOf e.1) =
      xs.filter fun e => head.isPrefixOf e.1 := by
  induction xs with
  | nil => rfl
  | cons e xs ih =>
    obtain ⟨hfirst, hrest⟩ := List.pairwise_cons.1 hsorted
    obtain ⟨he, hxs⟩ := List.forall_mem_cons.1 hle
    rw [List.takeWhile_cons, List.filter_cons]
    cases hprefix : head.isPrefixOf e.1 with
    | true => rw [if_pos rfl, if_pos rfl, ih hrest hxs]
    | false =>
      have hnil : xs.filter (fun e => head.isPrefixOf e.1) = [] := by
        rw [List.filter_eq_nil_iff]
        intro x hx hxprefix
        have hbetween := isPrefix_of_le_of_le he (hfirst x hx) (List.isPrefixOf_iff_prefix.1 hxprefix)
        rw [List.isPrefixOf_iff_prefix.2 hbetween] at hprefix
        cases hprefix
      rw [if_neg Bool.false_ne_true, if_neg Bool.false_ne_true, hnil]

/-- The cursor reads the entries whose keys begin with the head. -/
theorem prefixScan_eq_filter (head : List α) (entries : List (List α × V)) :
    prefixScan head entries = (byKey entries).filter fun e => head.isPrefixOf e.1 := by
  rw [prefixScan]
  have hsorted := pairwise_byKey entries
  generalize byKey entries = xs at hsorted
  induction xs with
  | nil => rfl
  | cons e xs ih =>
    obtain ⟨hfirst, hrest⟩ := List.pairwise_cons.1 hsorted
    rw [List.dropWhile_cons]
    by_cases hlt : e.1 < head
    · have hnot : ¬ head.isPrefixOf e.1 = true := fun h =>
        absurd hlt (not_lt.2 (le_of_isPrefix (List.isPrefixOf_iff_prefix.1 h)))
      rw [if_pos (decide_eq_true hlt), ih hrest, List.filter_cons, if_neg hnot]
    · rw [if_neg (by simpa using hlt)]
      apply takeWhile_eq_filter hsorted
      intro x hx
      rcases List.mem_cons.1 hx with rfl | hx
      · exact not_lt.1 hlt
      · exact (not_lt.1 hlt).trans (hfirst x hx)

theorem prefixScan_perm (head : List α) (entries : List (List α × V)) :
    (prefixScan head entries).Perm (entries.filter fun e => head.isPrefixOf e.1) := by
  rw [prefixScan_eq_filter]
  exact (List.mergeSort_perm entries _).filter _

theorem pairwise_prefixScan (head : List α) (h : (entries.map Prod.fst).Nodup) :
    (prefixScan head entries).Pairwise fun a b => a.1 < b.1 := by
  have hnodup : ((prefixScan head entries).map Prod.fst).Nodup := by
    apply ((prefixScan_perm head entries).map Prod.fst).nodup_iff.2
    exact h.sublist (List.filter_sublist.map Prod.fst)
  have hsorted : (prefixScan head entries).Pairwise fun a b => a.1 ≤ b.1 := by
    rw [prefixScan_eq_filter]
    exact (pairwise_byKey entries).sublist List.filter_sublist
  exact hsorted.imp₂ (fun a b hle hne => lt_of_le_of_ne hle hne) (List.pairwise_map.1 hnodup)

end Scan

end Hledac.Lib
