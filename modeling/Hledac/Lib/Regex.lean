import Hledac.Lib.Intervals

/-!
# Regular expressions with backtracking

Greedy regular expressions over any alphabet, matched at a position with a continuation: the first way to match, in
the order in which a backtracking matcher tries them, after which the rest of the expression matches as well. Every
match takes at least `minWidth` symbols, so a pattern with a positive one finds stretches that are not empty and
follow each other.
-/

namespace Hledac.Lib

universe u

/-- A regular expression; `repeats r least most` is greedy, without a bound where `most` is none. -/
inductive Regex (α : Type u) where
  | empty
  | symbol (p : α → Bool)
  | boundary (isWord : α → Bool)
  | seq (r s : Regex α)
  | alt (r s : Regex α)
  | repeats (r : Regex α) (least : Nat) (most : Option Nat)

namespace Regex

variable {α : Type u}

/-- The position lies between a word and what is not one. -/
def onBoundary (isWord : α → Bool) (xs : List α) (i : Nat) : Bool :=
  (decide (0 < i) && (xs[i - 1]?).any isWord) != (xs[i]?).any isWord

/-- `n` rounds of `body`, then `next`. -/
def rounds (body : (Nat → Option Nat) → Nat → Option Nat) (next : Nat → Option Nat) : Nat → Nat → Option Nat
  | 0, i => next i
  | n + 1, i => body (rounds body next n) i

/-- As many of `n` rounds as let `next` match after them; a round that takes nothing is none. -/
def greedyRounds (body : (Nat → Option Nat) → Nat → Option Nat) (next : Nat → Option Nat) :
    Nat → Nat → Option Nat
  | 0, i => next i
  | n + 1, i => (body (fun j => if i < j then greedyRounds body next n j else none) i).or (next i)

/-- Where the first match from a position ends that `next` accepts. Without a bound, as many rounds as there are symbols
are enough. -/
def run (xs : List α) : Regex α → (Nat → Option Nat) → Nat → Option Nat
  | empty, next => next
  | symbol p, next => fun i => if (xs[i]?).any p then next (i + 1) else none
  | boundary isWord, next => fun i => if onBoundary isWord xs i then next i else none
  | seq r s, next => run xs r (run xs s next)
  | alt r s, next => fun i => (run xs r next i).or (run xs s next i)
  | repeats r least most, next =>
    rounds (run xs r) (greedyRounds (run xs r) next (most.getD (least + xs.length) - least)) least

/-- How many symbols every match takes at least. -/
def minWidth : Regex α → Nat
  | empty => 0
  | symbol _ => 1
  | boundary _ => 0
  | seq r s => r.minWidth + s.minWidth
  | alt r s => min r.minWidth s.minWidth
  | repeats r least _ => least * r.minWidth

/-- The ends a matcher hands on: past `width` symbols from `i`, and inside the text unless the start was not. -/
def Advances (length width : Nat) (body : (Nat → Option Nat) → Nat → Option Nat) : Prop :=
  ∀ next i e, body next i = some e → ∃ j, i + width ≤ j ∧ j ≤ max i length ∧ next j = some e

theorem advances_rounds {length width : Nat} {body : (Nat → Option Nat) → Nat → Option Nat}
    (h : Advances length width body) (n : Nat) : Advances length (n * width) fun next => rounds body next n := by
  induction n with
  | zero =>
    intro next i e he
    exact ⟨i, by omega, Nat.le_max_left i length, he⟩
  | succ n ih =>
    intro next i e he
    obtain ⟨j, hj, hmax, he⟩ := h _ i e he
    obtain ⟨k, hk, hkmax, he⟩ := ih next j e he
    refine ⟨k, ?_, ?_, he⟩
    · rw [Nat.succ_mul]
      omega
    · omega

theorem advances_greedyRounds {length width : Nat} {body : (Nat → Option Nat) → Nat → Option Nat}
    (h : Advances length width body) (n : Nat) : Advances length 0 fun next => greedyRounds body next n := by
  induction n with
  | zero =>
    intro next i e he
    exact ⟨i, Nat.le_refl i, Nat.le_max_left i length, he⟩
  | succ n ih =>
    intro next i e he
    cases Option.or_eq_some_iff.1 he with
    | inl hbody =>
      obtain ⟨j, hj, hmax, he⟩ := h _ i e hbody
      split at he
      · obtain ⟨k, hk, hkmax, he⟩ := ih next j e he
        exact ⟨k, by omega, by omega, he⟩
      · cases he
    | inr hnext => exact ⟨i, Nat.le_refl i, Nat.le_max_left i length, hnext.2⟩

/-- A match takes the least width of the expression or more and ends in the text. -/
theorem advances_run (xs : List α) (r : Regex α) : Advances xs.length r.minWidth (run xs r) := by
  induction r with
  | empty =>
    intro next i e he
    exact ⟨i, Nat.le_refl i, Nat.le_max_left i _, he⟩
  | symbol p =>
    intro next i e he
    simp only [run] at he
    split at he
    · next hany =>
      cases hx : xs[i]? with
      | none => simp [hx] at hany
      | some x =>
        have hi := (List.getElem?_eq_some_iff.1 hx).1
        exact ⟨i + 1, Nat.le_refl _, Nat.le_trans hi (Nat.le_max_right i _), he⟩
    · cases he
  | boundary isWord =>
    intro next i e he
    simp only [run] at he
    split at he
    · exact ⟨i, Nat.le_refl i, Nat.le_max_left i _, he⟩
    · cases he
  | seq r s ihr ihs =>
    intro next i e he
    obtain ⟨j, hj, hmax, he⟩ := ihr _ i e he
    obtain ⟨k, hk, hkmax, he⟩ := ihs _ j e he
    refine ⟨k, ?_, ?_, he⟩
    · rw [minWidth]
      omega
    · omega
  | alt r s ihr ihs =>
    intro next i e he
    cases Option.or_eq_some_iff.1 he with
    | inl hr =>
      obtain ⟨j, hj, hmax, he⟩ := ihr _ i e hr
      exact ⟨j, Nat.le_trans (Nat.add_le_add_left (Nat.min_le_left _ _) i) hj, hmax, he⟩
    | inr hs =>
      obtain ⟨j, hj, hmax, he⟩ := ihs _ i e hs.2
      exact ⟨j, Nat.le_trans (Nat.add_le_add_left (Nat.min_le_right _ _) i) hj, hmax, he⟩
  | repeats r least most ih =>
    intro next i e he
    obtain ⟨j, hj, hmax, he⟩ := advances_rounds ih least _ i e he
    obtain ⟨k, hk, hkmax, he⟩ := advances_greedyRounds ih _ next j e he
    refine ⟨k, ?_, ?_, he⟩
    · rw [minWidth]
      omega
    · omega

/-! ### First symbols -/

/-- The expression has a match that takes nothing. -/
def nullable : Regex α → Bool
  | empty => true
  | symbol _ => false
  | boundary _ => true
  | seq r s => r.nullable && s.nullable
  | alt r s => r.nullable || s.nullable
  | repeats r least _ => least == 0 || r.nullable

/-- The symbols a match may start with. -/
def first : Regex α → α → Bool
  | empty, _ => false
  | symbol p, x => p x
  | boundary _, _ => false
  | seq r s, x => r.first x || r.nullable && s.first x
  | alt r s, x => r.first x || s.first x
  | repeats r _ _, x => r.first x

/-- A matcher goes on either past a symbol that `q` accepts or, where `takesNothing`, from the same position. -/
def StartsWith (xs : List α) (q : α → Bool) (takesNothing : Bool)
    (body : (Nat → Option Nat) → Nat → Option Nat) : Prop :=
  ∀ next i e, body next i = some e →
    ((xs[i]?).any q = true ∧ ∃ j, next j = some e) ∨ (takesNothing = true ∧ next i = some e)

theorem startsWith_rounds {xs : List α} {q : α → Bool} {takesNothing : Bool}
    {body : (Nat → Option Nat) → Nat → Option Nat} (h : StartsWith xs q takesNothing body) (n : Nat) :
    StartsWith xs q (n == 0 || takesNothing) fun next => rounds body next n := by
  induction n with
  | zero =>
    intro next i e he
    exact Or.inr ⟨rfl, he⟩
  | succ n ih =>
    intro next i e he
    cases h _ i e he with
    | inl hbody =>
      obtain ⟨hq, j, hj⟩ := hbody
      cases ih next j e hj with
      | inl hnext => exact Or.inl ⟨hq, hnext.2⟩
      | inr hnext => exact Or.inl ⟨hq, j, hnext.2⟩
    | inr hbody =>
      cases ih next i e hbody.2 with
      | inl hnext => exact Or.inl hnext
      | inr hnext => exact Or.inr ⟨by simp [hbody.1], hnext.2⟩

theorem startsWith_greedyRounds {xs : List α} {q : α → Bool} {takesNothing : Bool}
    {body : (Nat → Option Nat) → Nat → Option Nat} (h : StartsWith xs q takesNothing body) (n : Nat) :
    StartsWith xs q true fun next => greedyRounds body next n := by
  induction n with
  | zero =>
    intro next i e he
    exact Or.inr ⟨rfl, he⟩
  | succ n ih =>
    intro next i e he
    cases Option.or_eq_some_iff.1 he with
    | inl hbody =>
      cases h _ i e hbody with
      | inl hround =>
        obtain ⟨hq, j, hj⟩ := hround
        split at hj
        · cases ih next j e hj with
          | inl hnext => exact Or.inl ⟨hq, hnext.2⟩
          | inr hnext => exact Or.inl ⟨hq, j, hnext.2⟩
        · cases hj
      | inr hround =>
        rw [if_neg (Nat.lt_irrefl i)] at hround
        cases hround.2
    | inr hnext => exact Or.inr ⟨rfl, hnext.2⟩

theorem startsWith_run (xs : List α) (r : Regex α) : StartsWith xs r.first r.nullable (run xs r) := by
  induction r with
  | empty =>
    intro next i e he
    exact Or.inr ⟨rfl, he⟩
  | symbol p =>
    intro next i e he
    simp only [run] at he
    split at he
    · next hany => exact Or.inl ⟨hany, i + 1, he⟩
    · cases he
  | boundary isWord =>
    intro next i e he
    simp only [run] at he
    split at he
    · exact Or.inr ⟨rfl, he⟩
    · cases he
  | seq r s ihr ihs =>
    intro next i e he
    cases ihr _ i e he with
    | inl hr =>
      obtain ⟨hq, j, hj⟩ := hr
      have hany : (xs[i]?).any (first (seq r s)) = true := by
        cases hx : xs[i]? with
        | none => simp [hx] at hq
        | some x =>
          rw [hx, Option.any_some] at hq
          simp [first, hq]
      cases ihs next j e hj with
      | inl hs => exact Or.inl ⟨hany, hs.2⟩
      | inr hs => exact Or.inl ⟨hany, j, hs.2⟩
    | inr hr =>
      cases ihs next i e hr.2 with
      | inl hs =>
        refine Or.inl ⟨?_, hs.2⟩
        cases hx : xs[i]? with
        | none => simp [hx] at hs
        | some x =>
          have hq := hs.1
          rw [hx, Option.any_some] at hq
          simp [first, hq, hr.1]
      | inr hs => exact Or.inr ⟨by simp [nullable, hr.1, hs.1], hs.2⟩
  | alt r s ihr ihs =>
    intro next i e he
    have hany : ∀ q : α → Bool, (∀ x, q x = true → first (alt r s) x = true) → (xs[i]?).any q = true →
        (xs[i]?).any (first (alt r s)) = true := by
      intro q hle hq
      cases hx : xs[i]? with
      | none => simp [hx] at hq
      | some x =>
        rw [hx, Option.any_some] at hq
        exact hle x hq
    cases Option.or_eq_some_iff.1 he with
    | inl hr =>
      cases ihr next i e hr with
      | inl h => exact Or.inl ⟨hany _ (fun x hx => by simp [first, hx]) h.1, h.2⟩
      | inr h => exact Or.inr ⟨by simp [nullable, h.1], h.2⟩
    | inr hs =>
      cases ihs next i e hs.2 with
      | inl h => exact Or.inl ⟨hany _ (fun x hx => by simp [first, hx]) h.1, h.2⟩
      | inr h => exact Or.inr ⟨by simp [nullable, h.1], h.2⟩
  | repeats r least most ih =>
    intro next i e he
    cases startsWith_rounds ih least _ i e he with
    | inl hrounds =>
      obtain ⟨hq, j, hj⟩ := hrounds
      cases startsWith_greedyRounds ih _ next j e hj with
      | inl h => exact Or.inl ⟨hq, h.2⟩
      | inr h => exact Or.inl ⟨hq, j, h.2⟩
    | inr hrounds =>
      cases startsWith_greedyRounds ih _ next i e hrounds.2 with
      | inl h => exact Or.inl h
      | inr h => exact Or.inr ⟨hrounds.1, h.2⟩

end Regex

/-! ### Patterns -/

/-- A regular expression whose matches are not empty. -/
structure Pattern (α : Type u) where
  regex : Regex α
  consumes : 0 < regex.minWidth

namespace Pattern

variable {α : Type u} (p : Pattern α) (xs : List α)

/-- Where a match at the position ends. -/
def matchEnd (i : Nat) : Option Nat := p.regex.run xs some i

theorem lt_matchEnd {i j : Nat} (h : p.matchEnd xs i = some j) : i < j ∧ j ≤ xs.length := by
  obtain ⟨k, hk, hmax, hj⟩ := p.regex.advances_run xs some i j h
  have hpos := p.consumes
  cases hj
  omega

/-- The matches from a position on, the next search starting where a match ends. -/
def findFrom : Nat → Nat → List Span
  | 0, _ => []
  | fuel + 1, i =>
    match p.matchEnd xs i with
    | some j => ⟨i, j⟩ :: findFrom fuel j
    | none => findFrom fuel (i + 1)

/-- All matches, from left to right; every round of the search advances. -/
def finditer : List Span := p.findFrom xs xs.length 0

theorem findFrom_spec {fuel i : Nat} :
    (∀ s ∈ p.findFrom xs fuel i, i ≤ s.start ∧ s.start < s.stop ∧ s.stop ≤ xs.length) ∧
      (p.findFrom xs fuel i).Pairwise fun s t => s.stop ≤ t.start := by
  induction fuel generalizing i with
  | zero => simp [findFrom]
  | succ fuel ih =>
    rw [findFrom]
    cases hend : p.matchEnd xs i with
    | none =>
      obtain ⟨hbounds, hpairwise⟩ := ih (i := i + 1)
      refine ⟨?_, hpairwise⟩
      intro s hs
      have h := hbounds s hs
      omega
    | some j =>
      have hj := p.lt_matchEnd xs hend
      obtain ⟨hbounds, hpairwise⟩ := ih (i := j)
      constructor
      · intro s hs
        cases List.mem_cons.1 hs with
        | inl h =>
          subst h
          exact ⟨Nat.le_refl i, hj⟩
        | inr h =>
          have hb := hbounds s h
          omega
      · exact List.pairwise_cons.2 ⟨fun s hs => (hbounds s hs).1, hpairwise⟩

theorem matchEnd_of_mem_findFrom {fuel i : Nat} {s : Span} (h : s ∈ p.findFrom xs fuel i) :
    p.matchEnd xs s.start = some s.stop := by
  induction fuel generalizing i with
  | zero => simp [findFrom] at h
  | succ fuel ih =>
    rw [findFrom] at h
    cases hend : p.matchEnd xs i with
    | none =>
      rw [hend] at h
      exact ih h
    | some j =>
      rw [hend] at h
      cases List.mem_cons.1 h with
      | inl h => exact h ▸ hend
      | inr h => exact ih h

/-- A match starts with one of the first symbols. -/
theorem first_of_mem_finditer {s : Span} (h : s ∈ p.finditer xs) :
    (xs[s.start]?).any p.regex.first = true := by
  have hend := p.matchEnd_of_mem_findFrom xs h
  cases p.regex.startsWith_run xs some s.start s.stop hend with
  | inl h => exact h.1
  | inr h =>
    have hlt := (p.lt_matchEnd xs hend).1
    have heq := Option.some.inj h.2
    omega

theorem bounds_of_mem_finditer {s : Span} (h : s ∈ p.finditer xs) : s.start < s.stop ∧ s.stop ≤ xs.length :=
  ((p.findFrom_spec xs).1 s h).2

theorem pairwise_finditer : (p.finditer xs).Pairwise fun s t => s.stop ≤ t.start := (p.findFrom_spec xs).2

/-- `re.sub` with a fixed text for every match. -/
def sub (out : List α) : List α :=
  spliceFrom xs ((p.finditer xs).reverse.map fun s => (s, out)) xs.length []

end Pattern

/-! ### A group -/

/-- A regular expression with one group that is read out of the match. -/
structure Capture (α : Type u) where
  before : Regex α
  group : Regex α
  after : Regex α

namespace Capture

variable {α : Type u} (p : Capture α) (xs : List α)

/-- Where the group starts in the first match from a position: what is matched after it goes on as for a match, only
the position handed back is another one. -/
def groupStart (i : Nat) : Option Nat :=
  p.before.run xs (fun j => (p.group.run xs (p.after.run xs some) j).map fun _ => j) i

/-- Where the group ends in the first match from a position. -/
def groupStop (i : Nat) : Option Nat :=
  p.before.run xs (p.group.run xs fun k => (p.after.run xs some k).map fun _ => k) i

/-- The group of the leftmost match. -/
def search : Option (List α) :=
  (List.range (xs.length + 1)).findSome? fun i =>
    (p.groupStart xs i).bind fun j => (p.groupStop xs i).map fun k => (xs.drop j).take (k - j)

end Capture

end Hledac.Lib
