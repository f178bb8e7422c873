import Mathlib.Data.List.Infix

/-!
# Searching byte strings

`find` and `split` as Python's `bytes` have them, over lists of any type with decidable equality,
and what they do on texts whose lines do not contain the separator.
-/

namespace Hledac.Lib.ByteSearch

universe u

variable {α : Type u} {pat : List α}

/-- A pattern occurs in a text when it starts one of its suffixes. -/
theorem isInfix_iff_exists_drop {xs : List α} : pat <:+: xs ↔ ∃ j, pat <+: xs.drop j := by
  constructor
  · rintro ⟨s, t, rfl⟩
    refine ⟨s.length, t, ?_⟩
    rw [List.append_assoc, List.drop_left]
  · rintro ⟨j, h⟩
    exact h.isInfix.trans (List.drop_suffix j xs).isInfix

/-- An occurrence does not go over an entry that the pattern does not have. -/
theorem prefix_drop_append_cons {xs ys : List α} {c : α} {q : Nat} (hc : c ∉ pat)
    (h : pat <+: (xs ++ c :: ys).drop q) :
    pat <+: xs.drop q ∨ (xs.length < q ∧ pat <+: ys.drop (q - (xs.length + 1))) := by
  rcases Nat.lt_or_ge xs.length q with hq | hq
  · right
    refine ⟨hq, ?_⟩
    have hsplit : xs ++ c :: ys = (xs ++ [c]) ++ ys := by simp
    rwa [hsplit, List.drop_append, List.drop_eq_nil_of_le (by simp; omega), List.nil_append,
      List.length_append] at h
  · left
    rw [List.drop_append_of_le_length hq] at h
    rcases List.prefix_or_prefix_of_prefix h (List.prefix_append _ _) with hp | ⟨rest, rfl⟩
    · exact hp
    · cases rest with
      | nil => simp
      | cons x rest =>
        have hx := (List.cons_prefix_cons.1 ((List.prefix_append_right_inj _).1 h)).1
        exact absurd (by simp [hx]) hc

theorem isInfix_append_cons {xs ys : List α} {c : α} (hc : c ∉ pat)
    (h : pat <:+: xs ++ c :: ys) : pat <:+: xs ∨ pat <:+: ys := by
  obtain ⟨q, hq⟩ := isInfix_iff_exists_drop.1 h
  rcases prefix_drop_append_cons hc hq with hx | ⟨_, hy⟩
  · exact .inl (isInfix_iff_exists_drop.2 ⟨q, hx⟩)
  · exact .inr (isInfix_iff_exists_drop.2 ⟨_, hy⟩)

/-- Lines joined by a separator. -/
def joinLines (sep : List α) : List (List α) → List α
  | [] => []
  | [line] => line
  | line :: rest => line ++ sep ++ joinLines sep rest

theorem joinLines_cons_cons (sep line next : List α) (rest : List (List α)) :
    joinLines sep (line :: next :: rest) = line ++ sep ++ joinLines sep (next :: rest) := rfl

/-- Entry by entry, a text that begins with a line and its two-entry end. -/
private theorem drop_line {row tail : List α} {c d : α} {j : Nat} {pat : List α}
    (hj : j < (row ++ [c, d]).length) (hp : pat <+: (row ++ [c, d] ++ tail).drop j) :
    (∃ x ∈ row, ∃ more, pat <+: x :: more) ∨ pat <+: c :: d :: tail ∨ pat <+: d :: tail := by
  rw [List.append_assoc] at hp
  rcases Nat.lt_trichotomy j row.length with h | h | h
  · rw [List.drop_append_of_le_length (Nat.le_of_lt h), List.drop_eq_getElem_cons h] at hp
    exact .inl ⟨row[j], List.getElem_mem h, _, hp⟩
  · rw [h, List.drop_left] at hp
    exact .inr (.inl hp)
  · have h1 : j = row.length + 1 := by
      simp only [List.length_append, List.length_cons, List.length_nil] at hj
      omega
    rw [h1, ← List.drop_drop, List.drop_left] at hp
    exact .inr (.inr hp)

/-! ### Finding -/

variable [DecidableEq α]

/-- `xs.find(pat)`: where the pattern occurs first. -/
def find (pat : List α) : List α → Option Nat
  | [] => if pat = [] then some 0 else none
  | x :: xs => if pat <+: x :: xs then some 0 else (find pat xs).map (· + 1)

/-- Before the first occurrence nothing can be skipped. -/
theorem find_eq_some_iff {xs : List α} {i : Nat} :
    find pat xs = some i ↔
      i ≤ xs.length ∧ pat <+: xs.drop i ∧ ∀ j < i, ¬ pat <+: xs.drop j := by
  induction xs generalizing i with
  | nil =>
    by_cases hp : pat = []
    · subst hp
      cases i <;> simp [find]
    · simp [find, hp]
  | cons x xs ih =>
    by_cases hp : pat <+: x :: xs
    · simp only [find, hp, ite_true]
      cases i with
      | zero => simp [hp]
      | succ i =>
        simp only [Option.some.injEq, Nat.zero_ne_add_one, false_iff, not_and]
        intro _ _ h
        exact h 0 (Nat.succ_pos i) hp
    · simp only [find, hp, ite_false, Option.map_eq_some_iff]
      cases i with
      | zero => simp [hp]
      | succ i =>
        simp only [Nat.add_right_cancel_iff, exists_eq_right, ih, List.length_cons,
          Nat.add_le_add_iff_right, List.drop_succ_cons]
        refine and_congr_right fun _ => and_congr_right fun _ => ?_
        constructor
        · intro h j hj
          cases j with
          | zero => exact hp
          | succ j => exact h j (Nat.lt_of_succ_lt_succ hj)
        · intro h j hj
          exact h (j + 1) (Nat.succ_lt_succ hj)

theorem find_eq_none_iff {xs : List α} : find pat xs = none ↔ ¬ pat <:+: xs := by
  induction xs with
  | nil =>
    by_cases hp : pat = []
    · simp [find, hp]
    · simp [find, hp]
  | cons x xs ih =>
    by_cases hp : pat <+: x :: xs
    · simp [find, hp, hp.isInfix]
    · simp [find, hp, ih, List.infix_cons_iff]

theorem find_of_isPrefix {xs : List α} (h : pat <+: xs) : find pat xs = some 0 :=
  find_eq_some_iff.2 ⟨Nat.zero_le _, h, fun j hj => absurd hj (Nat.not_lt_zero j)⟩

/-- A text without the pattern's first entry is skipped, up to the pattern itself. -/
theorem find_append {c : α} {rest xs ys : List α} (hx : c ∉ xs) (hy : (c :: rest) <+: ys) :
    find (c :: rest) (xs ++ ys) = some xs.length := by
  rw [find_eq_some_iff]
  refine ⟨by simp, by rw [List.drop_left]; exact hy, fun j hj hp => ?_⟩
  rw [List.drop_append_of_le_length (Nat.le_of_lt hj), List.drop_eq_getElem_cons hj,
    List.cons_append, List.cons_prefix_cons] at hp
  exact hx (hp.1 ▸ List.getElem_mem hj)

/-- Where no occurrence starts can be skipped. -/
theorem find_append_of_forall {xs ys : List α}
    (h : ∀ j < xs.length, ¬ pat <+: (xs ++ ys).drop j) :
    find pat (xs ++ ys) = (find pat ys).map (· + xs.length) := by
  induction xs with
  | nil => cases hf : find pat ys <;> simp [hf]
  | cons x xs ih =>
    have hx : ¬ pat <+: x :: (xs ++ ys) := h 0 (Nat.succ_pos _)
    have hxs := ih fun j hj => h (j + 1) (Nat.succ_lt_succ hj)
    rw [List.cons_append, find, if_neg hx, hxs, Option.map_map]
    rfl

/-- A text too short for the first occurrence has none. -/
theorem find_eq_none_of_prefix {xs ys : List α} {i : Nat} (hp : xs <+: ys)
    (hf : find pat ys = some i) (hl : xs.length < i + pat.length) : find pat xs = none := by
  cases hx : find pat xs with
  | none => rfl
  | some j =>
    exfalso
    obtain ⟨hj, hpat, _⟩ := find_eq_some_iff.1 hx
    obtain ⟨_, _, hmin⟩ := find_eq_some_iff.1 hf
    have hlen : pat.length ≤ xs.length - j := by simpa using hpat.length_le
    exact hmin j (by omega) (hpat.trans (hp.drop j))

/-- A line and its end are skipped, when what follows them does not complete the pattern. -/
theorem find_line {line tail rest : List α} {c d : α} (hline : c ∉ line) (hcd : d ≠ c)
    (ht : ¬ rest <+: d :: tail) :
    find (c :: rest) (line ++ [c, d] ++ tail) =
      (find (c :: rest) tail).map (· + (line ++ [c, d]).length) := by
  refine find_append_of_forall fun j hj hp => ?_
  rcases drop_line hj hp with ⟨x, hx, more, hp⟩ | hp | hp
  · exact hline ((List.cons_prefix_cons.1 hp).1 ▸ hx)
  · exact ht (List.cons_prefix_cons.1 hp).2
  · exact hcd (List.cons_prefix_cons.1 hp).1.symm

/-- The blank line after a block of lines is found where the block ends. -/
theorem find_blankLine {c d : α} {rest : List α} {lines : List (List α)} (hcd : d ≠ c)
    (hne : lines ≠ []) (hl : ∀ line ∈ lines, line ≠ [] ∧ c ∉ line) :
    find [c, d, c, d] (joinLines [c, d] lines ++ ([c, d, c, d] ++ rest)) =
      some (joinLines [c, d] lines).length := by
  induction lines with
  | nil => exact absurd rfl hne
  | cons line lines ih =>
    obtain ⟨⟨_, hline⟩, hrest⟩ := List.forall_mem_cons.1 hl
    cases lines with
    | nil => exact find_append hline (List.prefix_append _ _)
    | cons next lines =>
      obtain ⟨⟨hnil, hnext⟩, _⟩ := List.forall_mem_cons.1 hrest
      have ht : ¬ [d, c, d] <+: d :: (joinLines [c, d] (next :: lines) ++
          ([c, d, c, d] ++ rest)) := by
        intro h
        have h' := (List.cons_prefix_cons.1 h).2
        cases next with
        | nil => exact hnil rfl
        | cons x next =>
          have hx : c = x := by
            cases lines <;> exact (List.cons_prefix_cons.1 h').1
          exact hnext (hx ▸ List.mem_cons_self)
      rw [joinLines_cons_cons, List.append_assoc, find_line hline hcd ht,
        ih (List.cons_ne_nil _ _) hrest]
      simp only [Option.map_some, List.length_append, Nat.add_comm]

/-- A block of lines, blank line included, has no two of the second separator in a row. -/
theorem find_doubled_eq_none {c d : α} {lines : List (List α)} (hcd : d ≠ c)
    (hl : ∀ line ∈ lines, line ≠ [] ∧ d ∉ line) :
    find [d, d] (joinLines [c, d] lines ++ [c, d, c, d]) = none := by
  have hskip : ∀ line tail : List α, d ∉ line → ¬ [d] <+: tail →
      find [d, d] (line ++ [c, d] ++ tail) =
        (find [d, d] tail).map (· + (line ++ [c, d]).length) := by
    intro line tail hline ht
    refine find_append_of_forall fun j hj hp => ?_
    rcases drop_line hj hp with ⟨x, hx, more, hp⟩ | hp | hp
    · exact hline ((List.cons_prefix_cons.1 hp).1 ▸ hx)
    · exact hcd (List.cons_prefix_cons.1 hp).1
    · exact ht (List.cons_prefix_cons.1 hp).2
  have hend : ¬ [d] <+: [c, d] := fun h => hcd (List.cons_prefix_cons.1 h).1
  have hlast : find [d, d] [c, d] = none := by
    simp [find, List.cons_prefix_cons, hcd]
  induction lines with
  | nil =>
    have h := hskip [] [c, d] (List.not_mem_nil) hend
    rw [hlast] at h
    exact h
  | cons line lines ih =>
    obtain ⟨⟨_, hline⟩, hrest⟩ := List.forall_mem_cons.1 hl
    cases lines with
    | nil =>
      have h := hskip line [c, d] hline hend
      rw [hlast] at h
      simpa [joinLines] using h
    | cons next lines =>
      obtain ⟨⟨hnil, hnext⟩, _⟩ := List.forall_mem_cons.1 hrest
      have ht : ¬ [d] <+: joinLines [c, d] (next :: lines) ++ [c, d, c, d] := by
        intro h
        cases next with
        | nil => exact hnil rfl
        | cons x next =>
          have hx : d = x := by
            cases lines <;> exact (List.cons_prefix_cons.1 h).1
          exact hnext (hx ▸ List.mem_cons_self)
      rw [joinLines_cons_cons, List.append_assoc, hskip line _ hline ht, ih hrest]
      rfl

/-! ### Splitting -/

/-- `xs.split(sep)`, taken apart at each occurrence from the left. Each round drops at least the
separator, so the length of the text is enough fuel. -/
def splitLoop (sep : List α) : Nat → List α → List (List α)
  | 0, xs => [xs]
  | fuel + 1, xs =>
    match find sep xs with
    | none => [xs]
    | some i => xs.take i :: splitLoop sep fuel (xs.drop (i + sep.length))

/-- `xs.split(sep)`, for a separator that is not empty. -/
def split (sep xs : List α) : List (List α) := splitLoop sep xs.length xs

/-- Lines without the separator's first entry come back apart. -/
theorem split_joinLines {c : α} {more : List α} {lines : List (List α)} (hne : lines ≠ [])
    (hl : ∀ line ∈ lines, c ∉ line) :
    split (c :: more) (joinLines (c :: more) lines) = lines := by
  have hloop : ∀ fuel, lines.length ≤ fuel + 1 →
      splitLoop (c :: more) fuel (joinLines (c :: more) lines) = lines := by
    intro fuel hfuel
    induction lines generalizing fuel with
    | nil => exact absurd rfl hne
    | cons line rest ih =>
      obtain ⟨hline, hrest⟩ := List.forall_mem_cons.1 hl
      cases rest with
      | nil =>
        have hnone : find (c :: more) line = none := by
          rw [find_eq_none_iff]
          intro h
          exact hline (h.subset List.mem_cons_self)
        cases fuel with
        | zero => rfl
        | succ fuel => simp [splitLoop, joinLines, hnone]
      | cons next rest =>
        cases fuel with
        | zero => simp at hfuel
        | succ fuel =>
          have hfind : find (c :: more) (joinLines (c :: more) (line :: next :: rest)) =
              some line.length := by
            rw [joinLines_cons_cons, List.append_assoc]
            exact find_append hline (List.prefix_append _ _)
          rw [splitLoop, hfind]
          simp only [joinLines_cons_cons, List.append_assoc, List.take_left]
          rw [← List.drop_drop, List.drop_left, List.drop_left,
            ih (List.cons_ne_nil _ _) hrest fuel (by simpa using hfuel)]
  apply hloop
  clear hloop hne hl
  induction lines with
  | nil => simp
  | cons line rest ih =>
    cases rest with
    | nil => simp
    | cons next rest =>
      simp only [joinLines_cons_cons, List.length_append, List.length_cons] at ih ⊢
      omega

end Hledac.Lib.ByteSearch
