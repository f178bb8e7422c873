import Mathlib.Data.List.Basic

/-!
# Patterns with a star

A star of a pattern covers any run of symbols that may be skipped, every other symbol covers itself.
-/

namespace Hledac.Lib

namespace Wildcard

variable {α : Type*}

/-- The pattern covers the whole text. -/
inductive Covers (star : α) (skips : α → Prop) : List α → List α → Prop
  | nil : Covers star skips [] []
  | star {pattern text : List α} (run : List α) (h : ∀ a ∈ run, skips a) :
      Covers star skips pattern text → Covers star skips (star :: pattern) (run ++ text)
  | symbol {pattern text : List α} {a : α} (h : a ≠ star) :
      Covers star skips pattern text → Covers star skips (a :: pattern) (a :: text)

/-- Whether `p` holds of what is left after some run of symbols to skip. -/
def afterRun (skips : α → Bool) (p : List α → Bool) : List α → Bool
  | [] => p []
  | a :: text => p (a :: text) || (skips a && afterRun skips p text)

/-- Whether the text begins with the symbol and `p` holds of what is left. -/
def afterSymbol [DecidableEq α] (a : α) (p : List α → Bool) : List α → Bool
  | [] => false
  | b :: text => decide (a = b) && p text

/-- Whether the pattern covers the whole text. -/
def fullMatch [DecidableEq α] (star : α) (skips : α → Bool) : List α → List α → Bool
  | [], text => text.isEmpty
  | a :: pattern, text =>
    if a = star then afterRun skips (fullMatch star skips pattern) text
    else afterSymbol a (fullMatch star skips pattern) text

theorem afterRun_iff {skips : α → Bool} {p : List α → Bool} {text : List α} :
    afterRun skips p text = true ↔
      ∃ run rest, run ++ rest = text ∧ (∀ a ∈ run, skips a = true) ∧ p rest = true := by
  induction text with
  | nil =>
    rw [afterRun]
    constructor
    · intro h
      exact ⟨[], [], rfl, fun _ h => absurd h List.not_mem_nil, h⟩
    · intro h
      obtain ⟨run, rest, heq, -, hp⟩ := h
      obtain ⟨-, rfl⟩ := List.append_eq_nil_iff.1 heq
      exact hp
  | cons a text ih =>
    rw [afterRun, Bool.or_eq_true, Bool.and_eq_true, ih]
    constructor
    · intro h
      cases h with
      | inl hp => exact ⟨[], a :: text, rfl, fun _ h => absurd h List.not_mem_nil, hp⟩
      | inr h =>
        obtain ⟨ha, run, rest, rfl, hrun, hp⟩ := h
        exact ⟨a :: run, rest, rfl, List.forall_mem_cons.2 ⟨ha, hrun⟩, hp⟩
    · intro h
      obtain ⟨run, rest, heq, hrun, hp⟩ := h
      cases run with
      | nil =>
        obtain rfl : rest = a :: text := heq
        exact Or.inl hp
      | cons b run =>
        obtain ⟨rfl, rfl⟩ := List.cons.inj heq
        obtain ⟨hb, hrun⟩ := List.forall_mem_cons.1 hrun
        exact Or.inr ⟨hb, run, rest, rfl, hrun, hp⟩

/-- The matcher decides what a pattern covers. -/
theorem fullMatch_iff [DecidableEq α] {star : α} {skips : α → Bool} {pattern text : List α} :
    fullMatch star skips pattern text = true ↔ Covers star (fun a => skips a = true) pattern text := by
  induction pattern generalizing text with
  | nil =>
    rw [fullMatch, List.isEmpty_iff]
    constructor
    · intro h
      subst h
      exact Covers.nil
    · intro h
      cases h
      rfl
  | cons a pattern ih =>
    rw [fullMatch]
    split
    · next hstar =>
      subst hstar
      rw [afterRun_iff]
      constructor
      · intro h
        obtain ⟨run, rest, rfl, hrun, hp⟩ := h
        exact Covers.star run hrun (ih.1 hp)
      · intro h
        cases h with
        | star run hrun h => exact ⟨run, _, rfl, hrun, ih.2 h⟩
        | symbol hne h => exact absurd rfl hne
    · next hstar =>
      constructor
      · intro h
        cases text with
        | nil => exact absurd h Bool.false_ne_true
        | cons b text =>
          rw [afterSymbol, Bool.and_eq_true, decide_eq_true_iff, ih] at h
          obtain ⟨rfl, h⟩ := h
          exact Covers.symbol hstar h
      · intro h
        cases h with
        | star run hrun h => exact absurd rfl hstar
        | symbol hne h =>
          rw [afterSymbol, Bool.and_eq_true]
          exact ⟨decide_eq_true rfl, ih.2 h⟩

variable {star : α} {skips skips' : α → Prop} {pattern text : List α}

/-- A run that may be skipped may be skipped where the text allows it. -/
theorem Covers.imp (h : Covers star skips pattern text) (himp : ∀ a ∈ text, skips a → skips' a) :
    Covers star skips' pattern text := by
  induction h with
  | nil => exact Covers.nil
  | star run hrun _ ih =>
    exact Covers.star run (fun a ha => himp a (List.mem_append_left _ ha) (hrun a ha))
      (ih fun a ha => himp a (List.mem_append_right _ ha))
  | symbol hne _ ih => exact Covers.symbol hne (ih fun a ha => himp a (List.mem_cons_of_mem _ ha))

/-- A pattern without a star covers itself only. -/
theorem covers_iff_eq (h : star ∉ pattern) : Covers star skips pattern text ↔ pattern = text := by
  induction pattern generalizing text with
  | nil =>
    constructor
    · intro hc
      cases hc
      rfl
    · intro heq
      subst heq
      exact Covers.nil
  | cons a pattern ih =>
    obtain ⟨hne, hpattern⟩ := not_or.1 (mt List.mem_cons.2 h)
    constructor
    · intro hc
      cases hc with
      | star run hrun hc => exact absurd rfl hne
      | symbol _ hc => rw [(ih hpattern).1 hc]
    · intro heq
      subst heq
      exact Covers.symbol (Ne.symm hne) ((ih hpattern).2 rfl)

/-- A star at the end covers whatever follows. -/
theorem Covers.append {rest : List α} (h : Covers star skips pattern text)
    (hlast : pattern.getLast? = some star) (hrest : ∀ a ∈ rest, skips a) :
    Covers star skips pattern (text ++ rest) := by
  induction h with
  | nil => exact absurd hlast (by simp)
  | @star pattern text run hrun h ih =>
    rw [List.append_assoc]
    cases pattern with
    | nil =>
      cases h
      rw [List.nil_append, ← List.append_nil (run ++ rest)]
      exact Covers.star (run ++ rest) (List.forall_mem_append.2 ⟨hrun, hrest⟩) Covers.nil
    | cons a pattern =>
      rw [List.getLast?_cons_cons] at hlast
      exact Covers.star run hrun (ih hlast)
  | @symbol pattern text a hne h ih =>
    cases pattern with
    | nil => exact absurd (Option.some.inj hlast) hne
    | cons b pattern =>
      rw [List.getLast?_cons_cons] at hlast
      exact Covers.symbol hne (ih hlast)

end Wildcard

end Hledac.Lib
