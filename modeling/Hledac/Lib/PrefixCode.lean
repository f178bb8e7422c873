import Mathlib.Data.List.Basic

/-!
# Codes that end by themselves

A code is prefix-free when the code of an element can be told from whatever follows it. Sequences of such codes are
prefix-free again once something closes them that no code starts with.
-/

namespace Hledac.Lib

universe u v

variable {α : Type u} {β : Type v} {enc : α → List β}

/-- The code of an element can be told from what follows it. -/
def PrefixFree (enc : α → List β) : Prop := ∀ a b x y, enc a ++ x = enc b ++ y → a = b ∧ x = y

/-- No code starts with the symbol. -/
def NeverStarts (enc : α → List β) (q : β) : Prop := ∀ a x y, enc a ++ x ≠ q :: y

/-- A code that can be read off the front of a text is prefix-free. -/
theorem prefixFree_of_read (read : List β → Option α) (h : ∀ a x, read (enc a ++ x) = some a) : PrefixFree enc := by
  intro a b x y heq
  have hread := congrArg read heq
  rw [h, h, Option.some_inj] at hread
  subst hread
  exact ⟨rfl, List.append_cancel_left heq⟩

namespace PrefixFree

theorem append_left (h : PrefixFree enc) (start : List β) : PrefixFree fun a => start ++ enc a := by
  intro a b x y heq
  rw [List.append_assoc, List.append_assoc] at heq
  exact h a b x y (List.append_cancel_left heq)

/-- Codes of sequences, closed by a symbol that no code starts with. -/
theorem flatMap_close (h : PrefixFree enc) {q : β} (hq : NeverStarts enc q) :
    PrefixFree fun as : List α => as.flatMap enc ++ [q] := by
  intro as
  induction as with
  | nil =>
    intro bs x y heq
    cases bs with
    | nil => exact ⟨rfl, by simpa using heq⟩
    | cons b bs =>
      simp only [List.flatMap_cons, List.append_assoc] at heq
      exact absurd heq.symm (hq b _ _)
  | cons a as ih =>
    intro bs x y heq
    cases bs with
    | nil =>
      simp only [List.flatMap_cons, List.append_assoc] at heq
      exact absurd heq (hq a _ _)
    | cons b bs =>
      simp only [List.flatMap_cons, List.append_assoc] at heq
      obtain ⟨rfl, hrest⟩ := h a b _ _ heq
      obtain ⟨rfl, hxy⟩ := ih bs x y (by simpa only [List.append_assoc] using hrest)
      exact ⟨rfl, hxy⟩

end PrefixFree

/-- Codes with a separator between them and a closing symbol. -/
def separated (enc : α → List β) (sep : List β) (close : β) : List α → List β
  | [] => [close]
  | a :: as => enc a ++ (as.flatMap (fun b => sep ++ enc b) ++ [close])

theorem PrefixFree.separated (h : PrefixFree enc) {close s : β} {sep : List β} (hclose : NeverStarts enc close)
    (hs : s ≠ close) : PrefixFree (Lib.separated enc (s :: sep) close) := by
  have hsep : NeverStarts (fun b => s :: sep ++ enc b) close := by
    intro b x y heq
    exact hs (List.cons.inj heq).1
  have hrest := (h.append_left (s :: sep)).flatMap_close hsep
  intro as bs x y heq
  cases as with
  | nil =>
    cases bs with
    | nil => exact ⟨rfl, by simpa [Lib.separated] using heq⟩
    | cons b bs =>
      rw [Lib.separated, Lib.separated, List.append_assoc] at heq
      exact absurd heq.symm (hclose b _ _)
  | cons a as =>
    cases bs with
    | nil =>
      rw [Lib.separated, Lib.separated, List.append_assoc] at heq
      exact absurd heq (hclose a _ _)
    | cons b bs =>
      rw [Lib.separated, Lib.separated, List.append_assoc (enc a), List.append_assoc (enc b)] at heq
      obtain ⟨rfl, htail⟩ := h a b _ _ heq
      obtain ⟨rfl, hxy⟩ := hrest as bs x y htail
      exact ⟨rfl, hxy⟩

/-- Two texts split at the same symbol: at the same place, or the second one later. -/
theorem eq_or_exists_of_split {q : β} {as bs x y : List β} (hq : q ∉ as) (h : as ++ q :: x = bs ++ q :: y) :
    (bs = as ∧ y = x) ∨ ∃ more, bs = as ++ q :: more ∧ x = more ++ q :: y := by
  induction as generalizing bs with
  | nil =>
    cases bs with
    | nil => exact .inl ⟨rfl, (List.cons.inj h).2.symm⟩
    | cons b bs =>
      obtain ⟨rfl, hrest⟩ := List.cons.inj h
      exact .inr ⟨bs, rfl, hrest⟩
  | cons a as ih =>
    obtain ⟨ha, has⟩ := not_or.1 (mt List.mem_cons.2 hq)
    cases bs with
    | nil => exact absurd (List.cons.inj h).1.symm ha
    | cons b bs =>
      obtain ⟨rfl, hrest⟩ := List.cons.inj h
      cases ih has hrest with
      | inl heq => exact .inl ⟨by rw [heq.1], heq.2⟩
      | inr hlater =>
        obtain ⟨more, hbs, hx⟩ := hlater
        exact .inr ⟨more, by rw [hbs, List.cons_append], hx⟩

/-- Where neither text has the symbol, they split at the same place. -/
theorem eq_of_split {q : β} {as bs x y : List β} (has : q ∉ as) (hbs : q ∉ bs) (h : as ++ q :: x = bs ++ q :: y) :
    bs = as ∧ y = x := by
  cases eq_or_exists_of_split has h with
  | inl heq => exact heq
  | inr hlater =>
    obtain ⟨more, rfl, -⟩ := hlater
    exact absurd (by simp) hbs

end Hledac.Lib
