import Mathlib.Data.List.Flatten
import Mathlib.Data.List.Perm.Basic
import Mathlib.Data.List.Sort

/-!
# Stretches of a list

A span is a stretch of positions of a list. `spliceFrom` rewrites some spans of a list, from its end to its start,
and `clear` picks spans that do not overlap, from the first to the last. Over disjoint spans a splice is the output of
each position in turn.
-/

namespace Hledac.Lib

universe u v

/-- The positions from `start` up to, not including, `stop`. -/
structure Span where
  start : Nat
  stop : Nat
  deriving DecidableEq, Repr

namespace Span

/-- The position lies in the span. -/
def Covers (s : Span) (i : Nat) : Prop := s.start ≤ i ∧ i < s.stop

instance (s : Span) (i : Nat) : Decidable (s.Covers i) := inferInstanceAs (Decidable (_ ∧ _))

/-- Neither span ends before the other starts. -/
def overlaps (s t : Span) : Bool := !(decide (s.stop ≤ t.start) || decide (t.stop ≤ s.start))

theorem overlaps_iff {s t : Span} : s.overlaps t = true ↔ t.start < s.stop ∧ s.start < t.stop := by
  simp [overlaps]

theorem not_overlaps_iff {s t : Span} : ¬s.overlaps t = true ↔ s.stop ≤ t.start ∨ t.stop ≤ s.start := by
  rw [overlaps_iff]
  omega

theorem overlaps_comm (s t : Span) : s.overlaps t = t.overlaps s := by
  rw [Bool.eq_iff_iff, overlaps_iff, overlaps_iff]
  exact and_comm

end Span

/-! ### Splices -/

variable {α : Type u} {β : Type v}

/-- The slice `xs[start:stop]`. -/
def slice (xs : List α) (start stop : Nat) : List α := (xs.take stop).drop start

/-- Rewrites spans of the list, given from the last to the first; `last` is where what is already written starts. -/
def spliceFrom (xs : List α) : List (Span × List α) → Nat → List α → List α
  | [], last, written => xs.take last ++ written
  | (s, out) :: rest, last, written =>
    spliceFrom xs rest s.start (out ++ (slice xs s.stop last ++ written))

theorem flatMap_range'_getElem? (xs : List α) (a n : Nat) :
    (List.range' a n).flatMap (fun i => xs[i]?.toList) = (xs.drop a).take n := by
  induction n generalizing a with
  | zero => simp
  | succ n ih =>
    rw [List.range'_succ, List.flatMap_cons, ih]
    cases h : xs[a]? with
    | none =>
      have hlength := List.getElem?_eq_none_iff.1 h
      rw [List.drop_eq_nil_of_le (by omega), List.drop_eq_nil_of_le hlength]
      simp
    | some x =>
      obtain ⟨ha, hx⟩ := List.getElem?_eq_some_iff.1 h
      rw [List.drop_eq_getElem_cons ha, hx]
      simp

theorem flatMap_range_getElem? (xs : List α) : (List.range xs.length).flatMap (fun i => xs[i]?.toList) = xs := by
  rw [List.range_eq_range', flatMap_range'_getElem?, List.drop_zero, List.take_length]

theorem flatMap_congr_of_mem {l : List α} {f g : α → List β} (h : ∀ a ∈ l, f a = g a) :
    l.flatMap f = l.flatMap g := by
  induction l with
  | nil => rfl
  | cons a l ih =>
    rw [List.flatMap_cons, List.flatMap_cons, h a List.mem_cons_self,
      ih fun b hb => h b (List.mem_cons_of_mem a hb)]

theorem flatMap_range'_of_gap {xs : List α} {f : Nat → List α} {a b : Nat}
    (h : ∀ i, a ≤ i → i < b → f i = xs[i]?.toList) :
    (List.range' a (b - a)).flatMap f = slice xs a b := by
  rw [flatMap_congr_of_mem (g := fun i => xs[i]?.toList), flatMap_range'_getElem?, slice, List.drop_take]
  intro i hi
  rw [List.mem_range'_1] at hi
  exact h i (by omega) (by omega)

/-- A splice over disjoint spans, the last first, writes what each position stands for: in a span its share of the
text for it, elsewhere the element itself. -/
theorem spliceFrom_eq_flatMap {xs : List α} {f : Nat → List α} {spans : List (Span × List α)} {last : Nat}
    (written : List α) (hordered : spans.Pairwise fun s t => t.1.stop ≤ s.1.start)
    (hspan : ∀ s ∈ spans, s.1.start ≤ s.1.stop ∧ s.1.stop ≤ last)
    (hout : ∀ s ∈ spans, (List.range' s.1.start (s.1.stop - s.1.start)).flatMap f = s.2)
    (hrest : ∀ i, i < last → (∀ s ∈ spans, ¬s.1.Covers i) → f i = xs[i]?.toList) :
    spliceFrom xs spans last written = (List.range last).flatMap f ++ written := by
  induction spans generalizing last written with
  | nil =>
    have hall : (List.range' 0 (last - 0)).flatMap f = slice xs 0 last :=
      flatMap_range'_of_gap fun i _ hi => hrest i hi fun s hs => absurd hs List.not_mem_nil
    rw [spliceFrom, List.range_eq_range']
    rw [Nat.sub_zero, slice, List.drop_zero] at hall
    rw [hall]
  | cons s spans ih =>
    obtain ⟨s, out⟩ := s
    obtain ⟨hfirst, hordered⟩ := List.pairwise_cons.1 hordered
    have hs : s.start ≤ s.stop ∧ s.stop ≤ last := hspan (s, out) List.mem_cons_self
    -- past the span nothing else is left to rewrite
    have hgap : (List.range' s.stop (last - s.stop)).flatMap f = slice xs s.stop last := by
      apply flatMap_range'_of_gap
      intro i hi hlast
      apply hrest i hlast
      intro t ht
      cases List.mem_cons.1 ht with
      | inl h =>
        subst h
        intro hcovers
        have hlt : i < s.stop := hcovers.2
        omega
      | inr h =>
        intro hcovers
        have hstop : t.1.stop ≤ s.start := hfirst t h
        have hlt := hcovers.2
        omega
    have hsplit : List.range last = List.range s.start ++
        (List.range' s.start (s.stop - s.start) ++ List.range' s.stop (last - s.stop)) := by
      have hinner : List.range' s.start (s.stop - s.start) ++ List.range' s.stop (last - s.stop) =
          List.range' s.start (last - s.start) := by
        have happend := List.range'_append_1 (s := s.start) (m := s.stop - s.start) (n := last - s.stop)
        rw [show s.start + (s.stop - s.start) = s.stop by omega,
          show s.stop - s.start + (last - s.stop) = last - s.start by omega] at happend
        exact happend
      have houter := List.range'_append_1 (s := 0) (m := s.start) (n := last - s.start)
      rw [Nat.zero_add, show s.start + (last - s.start) = last by omega] at houter
      rw [hinner, List.range_eq_range', List.range_eq_range', houter]
    rw [spliceFrom, ih]
    · rw [hsplit, List.flatMap_append, List.flatMap_append, hgap, hout (s, out) List.mem_cons_self]
      simp only [List.append_assoc]
    · exact hordered
    · intro t ht
      exact ⟨(hspan t (List.mem_cons_of_mem _ ht)).1, hfirst t ht⟩
    · intro t ht
      exact hout t (List.mem_cons_of_mem _ ht)
    · intro i hi hcovers
      apply hrest i (by omega)
      intro t ht
      cases List.mem_cons.1 ht with
      | inl h =>
        subst h
        intro hcov
        have hle : s.start ≤ i := hcov.1
        omega
      | inr h => exact hcovers t h

/-- Up to the first span that is rewritten, a splice leaves the list as it is. -/
theorem exists_spliceFrom_eq (xs : List α) {spans : List (Span × List α)} (h : spans ≠ []) (last : Nat)
    (written : List α) :
    ∃ s ∈ spans, ∃ rest, spliceFrom xs spans last written = xs.take s.1.start ++ (s.2 ++ rest) := by
  induction spans generalizing last written with
  | nil => exact absurd rfl h
  | cons s spans ih =>
    obtain ⟨s, out⟩ := s
    rw [spliceFrom]
    cases spans with
    | nil => exact ⟨(s, out), List.mem_cons_self, _, rfl⟩
    | cons t spans =>
      obtain ⟨r, hr, rest, heq⟩ := ih (List.cons_ne_nil t spans) s.start (out ++ (slice xs s.stop last ++ written))
      exact ⟨r, List.mem_cons_of_mem _ hr, rest, heq⟩

/-! ### Spans that keep clear of each other -/

variable (span : β → Span)

/-- Disjoint spans in the order of their starts, the last first, end before the next ones start. -/
theorem pairwise_stop_le {l : List β} (hne : ∀ m ∈ l, (span m).start < (span m).stop)
    (hsorted : l.Pairwise fun m n => (span n).start ≤ (span m).start)
    (hdisjoint : l.Pairwise fun m n => ¬(span m).overlaps (span n) = true) :
    l.Pairwise fun m n => (span n).stop ≤ (span m).start := by
  apply List.Pairwise.imp_of_mem _ (hsorted.and hdisjoint)
  intro m n hm hn h
  have hmne := hne m hm
  have hstart := h.1
  cases Span.not_overlaps_iff.1 h.2 with
  | inl hstop => omega
  | inr hstop => exact hstop

/-- Sorting by a key, ties by another relation, sorts by the key. -/
theorem pairwise_insertionSort_lex {γ : Type*} [LinearOrder γ] (key : β → γ) (tie : β → β → Prop)
    (htotal : ∀ m n, tie m n ∨ tie n m) (htrans : ∀ m n p, tie m n → tie n p → tie m p)
    [DecidableRel fun m n => key m < key n ∨ key m = key n ∧ tie m n] (l : List β) :
    (l.insertionSort fun m n => key m < key n ∨ key m = key n ∧ tie m n).Pairwise fun m n => key m ≤ key n := by
  have : Std.Total fun m n => key m < key n ∨ key m = key n ∧ tie m n := by
    constructor
    intro m n
    rcases lt_trichotomy (key m) (key n) with hlt | heq | hgt
    · exact Or.inl (Or.inl hlt)
    · cases htotal m n with
      | inl h => exact Or.inl (Or.inr ⟨heq, h⟩)
      | inr h => exact Or.inr (Or.inr ⟨heq.symm, h⟩)
    · exact Or.inr (Or.inl hgt)
  have : IsTrans β fun m n => key m < key n ∨ key m = key n ∧ tie m n := by
    constructor
    intro m n p hmn hnp
    cases hmn with
    | inl hmn =>
      cases hnp with
      | inl hnp => exact Or.inl (hmn.trans hnp)
      | inr hnp => exact Or.inl (hnp.1 ▸ hmn)
    | inr hmn =>
      cases hnp with
      | inl hnp => exact Or.inl (hmn.1 ▸ hnp)
      | inr hnp => exact Or.inr ⟨hmn.1.trans hnp.1, htrans m n p hmn.2 hnp.2⟩
  apply (List.pairwise_insertionSort _ l).imp
  intro m n h
  cases h with
  | inl h => exact h.le
  | inr h => exact h.1.le

/-- Disjoint spans sorted by their starts, the last first, end before the next ones start. -/
theorem pairwise_stop_le_insertionSort {l : List β} (hne : ∀ m ∈ l, (span m).start < (span m).stop)
    (hdisjoint : l.Pairwise fun m n => ¬(span m).overlaps (span n) = true) :
    (l.insertionSort fun m n => (span n).start ≤ (span m).start).Pairwise
      fun m n => (span n).stop ≤ (span m).start := by
  have hperm := List.perm_insertionSort (fun m n => (span n).start ≤ (span m).start) l
  have : Std.Total fun m n => (span n).start ≤ (span m).start := ⟨fun m n => Nat.le_total _ _⟩
  have : IsTrans β fun m n => (span n).start ≤ (span m).start := ⟨fun _ _ _ hmn hnp => Nat.le_trans hnp hmn⟩
  apply pairwise_stop_le span
  · intro m hm
    exact hne m (hperm.mem_iff.1 hm)
  · exact List.pairwise_insertionSort _ l
  · exact hperm.symm.pairwise hdisjoint fun {m n} h => by rwa [Span.overlaps_comm]

/-- Adds those of a list that overlap none of what is already there. -/
def addDisjoint (kept ms : List β) : List β :=
  ms.foldl (fun kept m => if kept.any fun n => (span m).overlaps (span n) then kept else kept ++ [m]) kept

/-- The ones that start where the last of them has ended, `frontier` first. -/
def clear : Nat → List β → List β
  | _, [] => []
  | frontier, m :: ms =>
    if (span m).start < frontier then clear frontier ms else m :: clear (span m).stop ms

theorem mem_of_mem_clear {frontier : Nat} {ms : List β} {m : β} (h : m ∈ clear span frontier ms) : m ∈ ms := by
  induction ms generalizing frontier with
  | nil => exact h
  | cons n ms ih =>
    rw [clear] at h
    split at h
    · exact List.mem_cons_of_mem n (ih h)
    · cases List.mem_cons.1 h with
      | inl h => exact h ▸ List.mem_cons_self
      | inr h => exact List.mem_cons_of_mem n (ih h)

/-- What is clear of the frontier starts there or later, and each starts where the one before has ended. -/
theorem pairwise_clear (frontier : Nat) {ms : List β} (hne : ∀ m ∈ ms, (span m).start < (span m).stop) :
    (∀ m ∈ clear span frontier ms, frontier ≤ (span m).start) ∧
      (clear span frontier ms).Pairwise fun m n => (span m).stop ≤ (span n).start := by
  induction ms generalizing frontier with
  | nil => simp [clear]
  | cons m ms ih =>
    have htail : ∀ n ∈ ms, (span n).start < (span n).stop := fun n hn => hne n (List.mem_cons_of_mem m hn)
    rw [clear]
    split
    · exact ih frontier htail
    · next hstart =>
      have hm := hne m List.mem_cons_self
      obtain ⟨hfrontier, hpairwise⟩ := ih (span m).stop htail
      constructor
      · intro n hn
        cases List.mem_cons.1 hn with
        | inl h => subst h; omega
        | inr h => have hn := hfrontier n h; omega
      · exact List.pairwise_cons.2 ⟨hfrontier, hpairwise⟩

/-- In the order of the starts, what overlaps none of those kept is what starts past the last of them. -/
theorem addDisjoint_eq_append_clear {ms : List β} (kept : List β) (frontier : Nat)
    (hsorted : ms.Pairwise fun m n => (span m).start ≤ (span n).start)
    (hne : ∀ m ∈ ms, (span m).start < (span m).stop)
    (hfrontier : ∀ n ∈ kept, (span n).stop ≤ frontier)
    (hlast : 0 < frontier →
      ∃ n ∈ kept, (span n).stop = frontier ∧ ∀ m ∈ ms, (span n).start ≤ (span m).start) :
    addDisjoint span kept ms = kept ++ clear span frontier ms := by
  induction ms generalizing kept frontier with
  | nil => simp [addDisjoint, clear]
  | cons m ms ih =>
    obtain ⟨hm, hsorted⟩ := List.pairwise_cons.1 hsorted
    have hmne := hne m List.mem_cons_self
    have htail : ∀ n ∈ ms, (span n).start < (span n).stop := fun n hn => hne n (List.mem_cons_of_mem m hn)
    have hany : (kept.any fun n => (span m).overlaps (span n)) = true ↔ (span m).start < frontier := by
      rw [List.any_eq_true]
      constructor
      · intro h
        obtain ⟨n, hn, hoverlap⟩ := h
        have hstop := hfrontier n hn
        have hlt := (Span.overlaps_iff.1 hoverlap).2
        omega
      · intro h
        obtain ⟨n, hn, hstop, hstart⟩ := hlast (by omega)
        have hle := hstart m List.mem_cons_self
        exact ⟨n, hn, Span.overlaps_iff.2 (by omega)⟩
    rw [addDisjoint, List.foldl_cons, clear]
    by_cases hcase : (span m).start < frontier
    · rw [if_pos (hany.2 hcase), if_pos hcase]
      apply ih kept frontier hsorted htail hfrontier
      intro hpos
      obtain ⟨n, hn, hstop, hstart⟩ := hlast hpos
      exact ⟨n, hn, hstop, fun k hk => hstart k (List.mem_cons_of_mem m hk)⟩
    · rw [if_neg (fun h => hcase (hany.1 h)), if_neg hcase]
      have hstep := ih (kept ++ [m]) (span m).stop hsorted htail ?_ ?_
      · rw [addDisjoint] at hstep
        rw [hstep, List.append_assoc, List.singleton_append]
      · intro n hn
        cases List.mem_append.1 hn with
        | inl h => have hstop := hfrontier n h; omega
        | inr h => exact Nat.le_of_eq (by rw [List.mem_singleton.1 h])
      · intro _
        exact ⟨m, List.mem_append_right kept (List.mem_singleton_self m), rfl, hm⟩

/-! ### Spans of different ranks -/

variable (rank : β → Nat)

/-- `n` overlaps `m` and has the smaller rank, which is the stronger one. -/
def beats (n m : β) : Bool := (span m).overlaps (span n) && decide (rank n < rank m)

/-- The next in line, unless one that is there beats it; it takes the place of those it beats. -/
def settle (kept : List β) (m : β) : List β :=
  if kept.any fun n => beats span rank n m then kept
  else kept.filter (fun n => !beats span rank m n) ++ [m]

/-- The ones that none accepted before them beats. -/
def accept (accepted : List β) (m : β) : List β :=
  if accepted.any fun n => beats span rank n m then accepted else accepted ++ [m]

/-- Those of a list that none of it beats. -/
def unbeaten (l : List β) : List β := l.filter fun m => !l.any fun n => beats span rank n m

theorem beats_iff {n m : β} : beats span rank n m = true ↔
    (span n).start < (span m).stop ∧ (span m).start < (span n).stop ∧ rank n < rank m := by
  rw [beats, Bool.and_eq_true, Span.overlaps_iff, decide_eq_true_eq, and_assoc]

theorem not_beats_self (m : β) : ¬beats span rank m m = true := by
  rw [beats_iff]
  omega

/-- How two that were accepted one after the other stand to each other. -/
def InLine (m n : β) : Prop := (span n).start ≤ (span m).start ∧ ¬beats span rank m n = true

/-- Where starts only fall, one that an accepted one beats is beaten by one that is not beaten itself: what beats
the accepted one came later, starts between the two and so overlaps both. -/
theorem exists_unbeaten_of_beats {l : List β} (hline : l.Pairwise (InLine span rank))
    (hne : ∀ n ∈ l, (span n).start < (span n).stop) {m : β} (hm : ∀ n ∈ l, (span m).start ≤ (span n).start)
    (k : Nat) {n : β} (hk : rank n = k) (hn : n ∈ l) (hbeats : beats span rank n m = true) :
    ∃ p ∈ unbeaten span rank l, beats span rank p m = true := by
  induction k using Nat.strongRecOn generalizing n with
  | ind k ih =>
    by_cases hstays : n ∈ unbeaten span rank l
    · exact ⟨n, hstays, hbeats⟩
    · have hbeaten : ∃ p ∈ l, beats span rank p n = true := by
        simpa [unbeaten, hn] using hstays
      obtain ⟨p, hp, hpn⟩ := hbeaten
      have hlater : InLine span rank n p := by
        have hall : ∀ ⦃x⦄, x ∈ l → ∀ ⦃y⦄, y ∈ l → InLine span rank x y ∨ InLine span rank y x :=
          List.Pairwise.forall_of_forall_of_flip
            (fun x _ => Or.inl ⟨Nat.le_refl _, not_beats_self span rank x⟩) (hline.imp Or.inl)
            (hline.imp Or.inr)
        cases hall hn hp with
        | inl h => exact h
        | inr h => exact absurd hpn h.2
      have hstart := hlater.1
      have hmp := hm p hp
      have hpne := hne p hp
      rw [beats_iff] at hbeats hpn
      exact ih (rank p) (by omega) rfl hp ((beats_iff span rank).2 (by omega))

/-- One step of the line: what is left of the accepted ones is what no other accepted one beats. -/
theorem settle_unbeaten {l : List β} (hline : l.Pairwise (InLine span rank))
    (hne : ∀ n ∈ l, (span n).start < (span n).stop) {m : β} (hm : ∀ n ∈ l, (span m).start ≤ (span n).start) :
    settle span rank (unbeaten span rank l) m = unbeaten span rank (accept span rank l m) := by
  have hany : ((unbeaten span rank l).any fun n => beats span rank n m) = l.any fun n => beats span rank n m := by
    rw [Bool.eq_iff_iff, List.any_eq_true, List.any_eq_true]
    constructor
    · intro h
      obtain ⟨n, hn, hbeats⟩ := h
      exact ⟨n, (List.mem_filter.1 hn).1, hbeats⟩
    · intro h
      obtain ⟨n, hn, hbeats⟩ := h
      exact exists_unbeaten_of_beats span rank hline hne hm (rank n) rfl hn hbeats
  rw [settle, accept, hany]
  by_cases h : (l.any fun n => beats span rank n m) = true
  · rw [if_pos h, if_pos h]
  · rw [if_neg h, if_neg h, unbeaten, unbeaten, List.filter_append, List.filter_filter]
    have hself : ([m].filter fun x => !(l ++ [m]).any fun n => beats span rank n x) = [m] := by
      have hnot := not_beats_self span rank m
      simp only [Bool.not_eq_true] at h hnot
      simp [List.any_append, h, hnot]
    rw [hself]
    congr 1
    apply List.filter_congr
    intro x _
    rw [List.any_append, Bool.not_or, Bool.and_comm]
    simp

/-- The line as a whole: what is left in the end is what no accepted one beats. -/
theorem foldl_settle {l ms : List β} (hsorted : ms.Pairwise fun m n => (span n).start ≤ (span m).start)
    (hne : ∀ n ∈ ms, (span n).start < (span n).stop) (hline : l.Pairwise (InLine span rank))
    (hlne : ∀ n ∈ l, (span n).start < (span n).stop)
    (hbefore : ∀ n ∈ l, ∀ m ∈ ms, (span m).start ≤ (span n).start) :
    ms.foldl (settle span rank) (unbeaten span rank l) =
      unbeaten span rank (ms.foldl (accept span rank) l) := by
  induction ms generalizing l with
  | nil => rfl
  | cons m ms ih =>
    obtain ⟨hm, hsorted⟩ := List.pairwise_cons.1 hsorted
    rw [List.foldl_cons, List.foldl_cons,
      settle_unbeaten span rank hline hlne fun n hn => hbefore n hn m List.mem_cons_self]
    apply ih hsorted fun n hn => hne n (List.mem_cons_of_mem m hn)
    · rw [accept]
      split
      · exact hline
      · next h =>
        rw [List.any_eq_true, not_exists] at h
        rw [List.pairwise_append]
        refine ⟨hline, List.pairwise_singleton _ m, ?_⟩
        intro n hn k hk
        rw [List.mem_singleton.1 hk]
        exact ⟨hbefore n hn m List.mem_cons_self, fun hbeats => h n ⟨hn, hbeats⟩⟩
    · intro n hn
      rw [accept] at hn
      split at hn
      · exact hlne n hn
      · cases List.mem_append.1 hn with
        | inl h => exact hlne n h
        | inr h => exact List.mem_singleton.1 h ▸ hne m List.mem_cons_self
    · intro n hn k hk
      rw [accept] at hn
      split at hn
      · exact hbefore n hn k (List.mem_cons_of_mem m hk)
      · cases List.mem_append.1 hn with
        | inl h => exact hbefore n h k (List.mem_cons_of_mem m hk)
        | inr h => exact List.mem_singleton.1 h ▸ hm k hk

/-- The accepted ones are of the list. -/
theorem mem_of_mem_accepted {l ms : List β} {m : β} (h : m ∈ ms.foldl (accept span rank) l) :
    m ∈ l ∨ m ∈ ms := by
  induction ms generalizing l with
  | nil => exact Or.inl h
  | cons n ms ih =>
    rw [List.foldl_cons] at h
    cases ih h with
    | inl h =>
      rw [accept] at h
      split at h
      · exact Or.inl h
      · cases List.mem_append.1 h with
        | inl h => exact Or.inl h
        | inr h => exact Or.inr (List.mem_singleton.1 h ▸ List.mem_cons_self)
    | inr h => exact Or.inr (List.mem_cons_of_mem n h)

end Hledac.Lib
