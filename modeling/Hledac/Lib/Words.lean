import Mathlib.Data.List.DropRight

/-!
# Words of a list

The runs of a list between its separators, what joining them by one separator gives, and when a
list has no separator at either end and no two in a row. A separator is an element that
satisfies a predicate, so runs of different separators count alike. Lines, which are put one after the other with a
separator after each or only between them, are read back.
-/

namespace Hledac.Lib.Words

variable {α β : Type*} {p : α → Bool}

/-- The longest runs without a separator, in order. -/
def words (p : α → Bool) (s : List α) : List (List α) :=
  (s.splitOnP p).filter fun w => !w.isEmpty

/-- No separator `b` at either end, and no two next to each other. -/
def Tidy (b : α) (s : List α) : Prop :=
  ¬ [b] <+: s ∧ ¬ [b] <:+ s ∧ ¬ [b, b] <:+: s

/-- A list has no separator, or it is cut at its first one. -/
theorem cutInduction {motive : List α → Prop}
    (plain : ∀ s, (∀ x ∈ s, p x = false) → motive s)
    (cut : ∀ xs b ys, (∀ x ∈ xs, p x = false) → p b = true → motive ys → motive (xs ++ b :: ys))
    (s : List α) : motive s := by
  induction hn : s.length using Nat.strong_induction_on generalizing s with
  | _ n ih =>
    have hfront : ∀ x ∈ s.takeWhile (fun x => !p x), p x = false := by
      intro x hx
      simpa using List.mem_takeWhile_imp hx
    cases hrest : s.dropWhile fun x => !p x with
    | nil =>
      apply plain
      intro x hx
      simpa using List.dropWhile_eq_nil_iff.1 hrest x hx
    | cons b ys =>
      have hs : s = s.takeWhile (fun x => !p x) ++ b :: ys := by
        rw [← hrest, List.takeWhile_append_dropWhile]
      have hb : p b = true := by
        have hhead := List.head_dropWhile_not (fun x => !p x) (l := s) (by simp [hrest])
        simpa [hrest] using hhead
      have hlen : ys.length < n := by
        rw [← hn, hs]
        simp
        omega
      rw [hs]
      exact cut _ b ys hfront hb (ih ys.length hlen ys rfl)

/-! ### Splitting -/

@[simp] theorem words_nil : words p [] = [] := rfl

theorem words_append_cons {b : α} (hb : p b = true) (xs ys : List α) :
    words p (xs ++ b :: ys) = words p xs ++ words p ys := by
  rw [words, List.splitOnP_append_cons xs ys hb, List.filter_append]
  rfl

theorem words_cons_separator {b : α} (hb : p b = true) (s : List α) :
    words p (b :: s) = words p s :=
  words_append_cons hb [] s

theorem words_concat_separator {b : α} (hb : p b = true) (s : List α) :
    words p (s ++ [b]) = words p s := by
  rw [words_append_cons hb s [], words_nil, List.append_nil]

theorem words_plain {s : List α} (h : ∀ x ∈ s, p x = false) (hne : s ≠ []) : words p s = [s] := by
  simp [words, List.splitOnP_eq_singleton h, hne]

theorem ne_nil_of_mem_words {s w : List α} (h : w ∈ words p s) : w ≠ [] := by
  simpa using (List.mem_filter.1 h).2

theorem words_dropWhile (s : List α) : words p (s.dropWhile p) = words p s := by
  induction s with
  | nil => rfl
  | cons x s ih =>
    rw [List.dropWhile_cons]
    split
    · next hx => rw [ih, words_cons_separator hx]
    · rfl

theorem words_rdropWhile (s : List α) : words p (s.rdropWhile p) = words p s := by
  induction s using List.reverseRecOn with
  | nil => rfl
  | append_singleton s x ih =>
    rw [List.rdropWhile_concat]
    split
    · next hx => rw [ih, words_concat_separator hx]
    · rfl

/-- The elements of the words are the elements that are no separators. -/
theorem mem_words_flatten {s : List α} {x : α} :
    x ∈ (words p s).flatten ↔ x ∈ s ∧ p x = false := by
  induction s using cutInduction (p := p) with
  | plain s hs =>
    by_cases hne : s = []
    · simp [hne]
    · rw [words_plain hs hne, List.flatten_singleton]
      exact ⟨fun h => ⟨h, hs x h⟩, And.left⟩
  | cut xs b ys hxs hb ih =>
    have hfront : x ∈ (words p xs).flatten ↔ x ∈ xs ∧ p x = false := by
      by_cases hne : xs = []
      · simp [hne]
      · rw [words_plain hxs hne, List.flatten_singleton]
        exact ⟨fun h => ⟨h, hxs x h⟩, And.left⟩
    rw [words_append_cons hb, List.flatten_append, List.mem_append, hfront, ih, List.mem_append,
      List.mem_cons]
    constructor
    · rintro (⟨hx, hp⟩ | ⟨hx, hp⟩)
      · exact ⟨.inl hx, hp⟩
      · exact ⟨.inr (.inr hx), hp⟩
    · rintro ⟨hx | rfl | hx, hp⟩
      · exact .inl ⟨hx, hp⟩
      · rw [hb] at hp
        cases hp
      · exact .inr ⟨hx, hp⟩

theorem of_mem_words {s w : List α} (h : w ∈ words p s) {x : α} (hx : x ∈ w) :
    x ∈ s ∧ p x = false :=
  mem_words_flatten.1 (List.mem_flatten.2 ⟨w, h, hx⟩)

/-- A map that keeps separators and others apart maps the words. -/
theorem words_map {q : β → Bool} {f : α → β} {s : List α} (h : ∀ x ∈ s, q (f x) = p x) :
    words q (s.map f) = (words p s).map (List.map f) := by
  induction s using cutInduction (p := p) with
  | plain s hs =>
    by_cases hne : s = []
    · simp [hne]
    · have hq : ∀ y ∈ s.map f, q y = false := by
        intro y hy
        obtain ⟨x, hx, rfl⟩ := List.mem_map.1 hy
        rw [h x hx, hs x hx]
      rw [words_plain hs hne, words_plain hq (by simp [hne])]
      rfl
  | cut xs b ys hxs hb ih =>
    have hfront : words q (xs.map f) = (words p xs).map (List.map f) := by
      by_cases hne : xs = []
      · simp [hne]
      · have hq : ∀ y ∈ xs.map f, q y = false := by
          intro y hy
          obtain ⟨x, hx, rfl⟩ := List.mem_map.1 hy
          rw [h x (List.mem_append_left _ hx), hxs x hx]
        rw [words_plain hxs hne, words_plain hq (by simp [hne])]
        rfl
    have hqb : q (f b) = true := by rw [h b (by simp), hb]
    rw [List.map_append, List.map_cons, words_append_cons hqb, words_append_cons hb,
      List.map_append, hfront, ih fun x hx => h x (by simp [hx])]

/-- A filter that keeps the separators filters the words, and drops those it empties. -/
theorem words_filter {keep : α → Bool} {s : List α} (h : ∀ x ∈ s, p x = true → keep x = true) :
    words p (s.filter keep) =
      ((words p s).map (List.filter keep)).filter fun w => !w.isEmpty := by
  have hplain : ∀ xs : List α, (∀ x ∈ xs, p x = false) → words p (xs.filter keep) =
      ((words p xs).map (List.filter keep)).filter fun w => !w.isEmpty := by
    intro xs hxs
    by_cases hne : xs = []
    · simp [hne]
    · rw [words_plain hxs hne]
      by_cases hkept : xs.filter keep = []
      · simp [hkept]
      · rw [words_plain (fun x hx => hxs x (List.mem_of_mem_filter hx)) hkept]
        simp [hkept]
  induction s using cutInduction (p := p) with
  | plain s hs => exact hplain s hs
  | cut xs b ys hxs hb ih =>
    have hkeep : keep b = true := h b (by simp) hb
    rw [List.filter_append, List.filter_cons_of_pos hkeep, words_append_cons hb,
      words_append_cons hb, List.map_append, List.filter_append, hplain xs hxs,
      ih fun x hx => h x (by simp [hx])]

/-! ### Joining -/

theorem words_intercalate {b : α} (hb : p b = true) {ws : List (List α)}
    (h : ∀ w ∈ ws, w ≠ [] ∧ ∀ x ∈ w, p x = false) : words p ([b].intercalate ws) = ws := by
  induction ws with
  | nil => rfl
  | cons w ws ih =>
    obtain ⟨hne, hw⟩ := h w List.mem_cons_self
    cases ws with
    | nil => rw [List.intercalate_singleton, words_plain hw hne]
    | cons w' ws =>
      rw [List.intercalate_cons_cons, List.append_assoc, List.singleton_append,
        words_append_cons hb, words_plain hw hne, ih fun v hv => h v (List.mem_cons_of_mem _ hv)]
      rfl

/-- A filter that keeps the joining separator filters what it joins. -/
theorem filter_intercalate {keep : α → Bool} {b : α} (hb : keep b = true) (ws : List (List α)) :
    ([b].intercalate ws).filter keep = [b].intercalate (ws.map (List.filter keep)) := by
  induction ws with
  | nil => rfl
  | cons w ws ih =>
    cases ws with
    | nil => simp
    | cons w' ws =>
      rw [List.intercalate_cons_cons, List.filter_append, List.filter_append, ih,
        List.filter_cons_of_pos hb, List.filter_nil]
      simp only [List.map_cons, List.intercalate_cons_cons]

theorem mem_intercalate_of_mem_flatten {x : α} {ws : List (List α)} (h : x ∈ ws.flatten) (b : α) :
    x ∈ [b].intercalate ws := by
  induction ws with
  | nil => cases h
  | cons w ws ih =>
    rw [List.flatten_cons, List.mem_append] at h
    cases ws with
    | nil => simpa using h
    | cons w' ws =>
      rw [List.intercalate_cons_cons, List.append_assoc, List.mem_append]
      exact h.imp_right fun hx => List.mem_append_right _ (ih hx)

theorem mem_intercalate {b x : α} {ws : List (List α)} (h : x ∈ [b].intercalate ws) :
    x = b ∨ x ∈ ws.flatten := by
  induction ws with
  | nil => cases h
  | cons w ws ih =>
    cases ws with
    | nil =>
      right
      simpa using h
    | cons w' ws =>
      rw [List.intercalate_cons_cons, List.append_assoc, List.singleton_append, List.mem_append,
        List.mem_cons] at h
      rw [List.flatten_cons, List.mem_append]
      rcases h with hx | rfl | hx
      · exact .inr (.inl hx)
      · exact .inl rfl
      · exact (ih hx).imp_right .inr

theorem intercalate_append {as bs : List (List α)} (ha : as ≠ []) (hb : bs ≠ []) (b : α) :
    [b].intercalate (as ++ bs) = [b].intercalate as ++ b :: [b].intercalate bs := by
  induction as with
  | nil => exact absurd rfl ha
  | cons a as ih =>
    cases as with
    | nil =>
      rw [List.singleton_append, List.intercalate_cons_of_ne_nil hb, List.intercalate_singleton]
      simp
    | cons a' as =>
      rw [List.cons_append, List.cons_append, List.intercalate_cons_cons, List.intercalate_cons_cons,
        ← List.cons_append, ih (List.cons_ne_nil a' as)]
      simp only [List.append_assoc]

variable [DecidableEq α]

/-- A piece is empty just where a separator stands at an end or next to another one. -/
theorem tidy_iff {b : α} {s : List α} : Tidy b s ↔ s = [] ∨ [] ∉ s.splitOn b := by
  constructor
  · rintro ⟨hfront, hback, hinner⟩
    by_contra hno
    obtain ⟨hne, hmem⟩ := not_or.1 hno
    obtain ⟨as, bs, hpieces⟩ := List.append_of_mem (not_not.1 hmem)
    have hs : s = [b].intercalate (as ++ [] :: bs) := by
      rw [← hpieces, List.intercalate_splitOn]
    cases bs with
    | nil =>
      cases as with
      | nil => exact hne (by simpa using hs)
      | cons a as =>
        apply hback
        refine ⟨[b].intercalate (a :: as), ?_⟩
        rw [hs, intercalate_append (by simp) (by simp)]
        simp
    | cons c bs =>
      cases as with
      | nil =>
        apply hfront
        refine ⟨[b].intercalate (c :: bs), ?_⟩
        rw [hs, List.nil_append, List.intercalate_cons_cons]
        rfl
      | cons a as =>
        apply hinner
        refine ⟨[b].intercalate (a :: as), [b].intercalate (c :: bs), ?_⟩
        rw [hs, intercalate_append (by simp) (by simp), List.intercalate_cons_cons]
        simp
  · rintro (rfl | hpieces)
    · simp [Tidy]
    · refine ⟨fun ⟨t, ht⟩ => hpieces ?_, fun ⟨t, ht⟩ => hpieces ?_, fun ⟨t, u, ht⟩ => hpieces ?_⟩
      · rw [← ht, List.singleton_append, ← List.nil_append (b :: t),
          List.splitOn_append_cons_self]
        simp
      · rw [← ht, List.splitOn_append_cons_self]
        simp
      · rw [← ht, List.append_assoc, List.cons_append, List.splitOn_append_cons_self,
          List.singleton_append, ← List.nil_append (b :: u), List.splitOn_append_cons_self]
        simp

/-- Joined pieces are tidy when none is empty, or when there is at most one. -/
theorem tidy_intercalate_iff {b : α} {ws : List (List α)} (h : ∀ w ∈ ws, b ∉ w) :
    Tidy b ([b].intercalate ws) ↔ [] ∉ ws ∨ ws.length ≤ 1 := by
  cases ws with
  | nil => simp [Tidy]
  | cons w ws =>
    rw [tidy_iff, List.splitOn_intercalate b h (List.cons_ne_nil w ws)]
    cases ws with
    | nil =>
      rw [List.intercalate_singleton]
      simp [eq_comm, em]
    | cons w' ws => simp [List.intercalate_cons_cons]

end Hledac.Lib.Words

namespace Hledac.Lib

/-! ### Texts of lines -/

section Lines

variable {α : Type*} [DecidableEq α] {sep : α} {ls : List (List α)}

omit [DecidableEq α] in
/-- The lines, each with its end. -/
def terminated (sep : α) (ls : List (List α)) : List α := ls.flatMap fun l => l ++ [sep]

/-- The lines of a text, with or without an end of the last one. -/
def linesOf (sep : α) (text : List α) : List (List α) :=
  let pieces := text.splitOn sep
  if pieces.getLast? = some [] then pieces.dropLast else pieces

omit [DecidableEq α] in
theorem terminated_eq_intercalate (sep : α) (ls : List (List α)) :
    terminated sep ls = [sep].intercalate (ls ++ [[]]) := by
  induction ls with
  | nil => rfl
  | cons l ls ih =>
    rw [terminated, List.flatMap_cons, ← terminated, ih, List.cons_append]
    cases ls <;> simp [List.intercalate]

theorem linesOf_nil (sep : α) : linesOf sep [] = [] := by
  rw [linesOf, List.splitOn_nil]
  rfl

/-- Lines with their ends are read back. -/
theorem linesOf_terminated (h : ∀ l ∈ ls, sep ∉ l) : linesOf sep (terminated sep ls) = ls := by
  have hsplit : (terminated sep ls).splitOn sep = ls ++ [[]] := by
    rw [terminated_eq_intercalate]
    apply List.splitOn_intercalate
    · intro l hl
      cases List.mem_append.1 hl with
      | inl hl => exact h l hl
      | inr hl => rw [List.mem_singleton.1 hl]; exact List.not_mem_nil
    · simp
  simp [linesOf, hsplit]

/-- Lines that are joined are read back, unless the last one is empty. -/
theorem linesOf_intercalate (h : ∀ l ∈ ls, sep ∉ l) (hne : ∀ l ∈ ls, l ≠ []) :
    linesOf sep ([sep].intercalate ls) = ls := by
  cases ls with
  | nil => exact linesOf_nil sep
  | cons l ls =>
    have hsplit : ([sep].intercalate (l :: ls)).splitOn sep = l :: ls :=
      List.splitOn_intercalate sep h (List.cons_ne_nil _ _)
    simp only [linesOf, hsplit]
    rw [if_neg]
    intro hlast
    exact hne [] (List.mem_of_getLast? hlast) rfl

end Lines

end Hledac.Lib
