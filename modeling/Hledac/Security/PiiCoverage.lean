import Hledac.Lib.Machine
import Hledac.Security.PiiGate

/-!
# What the PII gate covers

Both functions settle overlaps by dropping whole matches. What is left is described without the loops: the gate keeps
the matches that start clear of the ones before them, the fallback those that no accepted replacement beats. A
position of a dropped match that lies in none of these stays in the output.
-/

namespace Hledac.Security

open Hledac.Lib Hledac.Py.Re

/-- The position lies in one of the spans. -/
def Covered (spans : List Span) (i : Nat) : Prop := ∃ s ∈ spans, s.Covers i

instance (spans : List Span) (i : Nat) : Decidable (Covered spans i) := inferInstanceAs (Decidable (∃ _ ∈ _, _))

theorem covered_map {β : Type} {l : List β} {span : β → Span} {i : Nat} :
    Covered (l.map span) i ↔ ∃ m ∈ l, (span m).Covers i := by
  simp [Covered]

namespace SecurityGate

variable (gate : SecurityGate) (text : List Char)

/-- The text with the mask at each position that lies in a match and every other character as it is. -/
def maskedEverywhere : List Char :=
  (List.range text.length).flatMap fun i =>
    if Covered ((gate.detectWithRegex text).map PIIMatch.span) i then gate.maskChar else text[i]?.toList

/-- The matches that start where the last of them has ended, or later. -/
def clearMatches : List PIIMatch := clear PIIMatch.span 0 (sortMatches (gate.detectWithRegex text))

/-- Each position of a match lies in a clear one, or what stands there is the mask already. -/
def ClearMatchesCover : Prop :=
  ∀ m ∈ gate.detectWithRegex text, ∀ i, m.span.Covers i →
    Covered ((gate.clearMatches text).map PIIMatch.span) i ∨ text[i]?.toList = gate.maskChar

variable {gate text}

theorem of_mem_detectWithRegex {m : PIIMatch} (h : m ∈ gate.detectWithRegex text) :
    m.text = slice text m.span.start m.span.stop ∧ m.span.start < m.span.stop ∧ m.span.stop ≤ text.length := by
  simp only [detectWithRegex, List.mem_flatMap, List.mem_map] at h
  obtain ⟨p, -, s, hs, rfl⟩ := h
  exact ⟨rfl, p.2.bounds_of_mem_finditer text hs⟩

theorem length_text_of_mem {m : PIIMatch} (h : m ∈ gate.detectWithRegex text) :
    m.text.length = m.span.stop - m.span.start := by
  obtain ⟨htext, -, hstop⟩ := of_mem_detectWithRegex h
  rw [htext, slice, List.length_drop, List.length_take]
  omega

theorem pairwise_sortMatches (ms : List PIIMatch) :
    (sortMatches ms).Pairwise fun m n => m.span.start ≤ n.span.start :=
  pairwise_insertionSort_lex (fun m : PIIMatch => m.span.start) (fun m n => n.confidence ≤ m.confidence)
    (fun _ _ => Rat.le_total) (fun _ _ _ hmn hnp => Rat.le_trans hnp hmn) ms

theorem mem_sortMatches {ms : List PIIMatch} {m : PIIMatch} : m ∈ sortMatches ms ↔ m ∈ ms :=
  List.mem_insertionSort _

theorem deduplicateMatches_eq : deduplicateMatches (gate.detectWithRegex text) = gate.clearMatches text := by
  rw [deduplicateMatches, clearMatches, addDisjoint_eq_append_clear _ [] 0]
  · rfl
  · exact pairwise_sortMatches _
  · intro m hm
    exact (of_mem_detectWithRegex (mem_sortMatches.1 hm)).2.1
  · intro n hn
    exact absurd hn List.not_mem_nil
  · intro h
    exact absurd h (Nat.lt_irrefl 0)

theorem mem_detect_of_mem_clear {m : PIIMatch} (h : m ∈ gate.clearMatches text) : m ∈ gate.detectWithRegex text :=
  mem_sortMatches.1 (mem_of_mem_clear PIIMatch.span h)

theorem pairwise_maskOrder : ((gate.clearMatches text).insertionSort fun m n => n.span.start ≤ m.span.start).Pairwise
    fun m n => n.span.stop ≤ m.span.start := by
  apply pairwise_stop_le_insertionSort PIIMatch.span
  · intro m hm
    exact (of_mem_detectWithRegex (mem_detect_of_mem_clear hm)).2.1
  · have hclear : (gate.clearMatches text).Pairwise fun m n => m.span.stop ≤ n.span.start :=
      (pairwise_clear PIIMatch.span 0 fun m hm => (of_mem_detectWithRegex (mem_sortMatches.1 hm)).2.1).2
    exact hclear.imp fun h => Span.not_overlaps_iff.2 (Or.inl h)

theorem maskPii_eq : gate.maskPii text (gate.clearMatches text) =
    (List.range text.length).flatMap fun i =>
      if Covered ((gate.clearMatches text).map PIIMatch.span) i then gate.maskChar else text[i]?.toList := by
  have hmem : ∀ m, m ∈ (gate.clearMatches text).insertionSort (fun m n => n.span.start ≤ m.span.start) ↔
      m ∈ gate.clearMatches text := fun m => List.mem_insertionSort _
  rw [maskPii, spliceFrom_eq_flatMap (f := fun i =>
    if Covered ((gate.clearMatches text).map PIIMatch.span) i then gate.maskChar else text[i]?.toList),
    List.append_nil]
  · rw [List.pairwise_map]
    exact pairwise_maskOrder
  · intro s hs
    obtain ⟨m, hm, rfl⟩ := List.mem_map.1 hs
    obtain ⟨-, hlt, hstop⟩ := of_mem_detectWithRegex (mem_detect_of_mem_clear ((hmem m).1 hm))
    exact ⟨hlt.le, hstop⟩
  · intro s hs
    obtain ⟨m, hm, rfl⟩ := List.mem_map.1 hs
    have hclear := (hmem m).1 hm
    simp only [maskFor, length_text_of_mem (mem_detect_of_mem_clear hclear)]
    rw [flatMap_congr_of_mem (g := fun _ => gate.maskChar), List.flatMap_def, List.map_const',
      List.length_range']
    intro i hi
    rw [List.mem_range'_1] at hi
    exact if_pos (covered_map.2 ⟨m, hclear, hi.1, by omega⟩)
  · intro i _ huncovered
    apply if_neg
    intro hcovered
    obtain ⟨m, hm, hcovers⟩ := covered_map.1 hcovered
    exact huncovered (m.span, gate.maskFor m) (List.mem_map.2 ⟨m, (hmem m).2 hm, rfl⟩) hcovers

theorem sanitizedText_eq (returnMatches : Bool) : (gate.sanitize text true returnMatches).sanitizedText =
    (List.range text.length).flatMap fun i =>
      if Covered ((gate.clearMatches text).map PIIMatch.span) i then gate.maskChar else text[i]?.toList := by
  rw [sanitize]
  simp only [deduplicateMatches_eq, Bool.true_and]
  by_cases hempty : gate.clearMatches text = []
  · simp [hempty, Covered, flatMap_range_getElem?]
  · rw [if_pos (by simp [hempty]), maskPii_eq]

/-- Characters and masks in the places of characters: two such texts are the same when they are so at each
position. -/
theorem flatMap_mask_eq_iff {p q : Nat → Prop} [DecidablePred p] [DecidablePred q] (hpq : ∀ i, p i → q i) :
    ((List.range text.length).flatMap fun i => if p i then gate.maskChar else text[i]?.toList) =
        ((List.range text.length).flatMap fun i => if q i then gate.maskChar else text[i]?.toList) ↔
      ∀ i < text.length, q i → p i ∨ text[i]?.toList = gate.maskChar := by
  have hchar : ∀ i ∈ List.range text.length, (text[i]?.toList).length = 1 := by
    intro i hi
    rw [List.getElem?_eq_getElem (List.mem_range.1 hi)]
    rfl
  have hpointwise : (∀ i ∈ List.range text.length, (if p i then gate.maskChar else text[i]?.toList) =
      if q i then gate.maskChar else text[i]?.toList) ↔
      ∀ i < text.length, q i → p i ∨ text[i]?.toList = gate.maskChar := by
    apply forall_congr'
    intro i
    rw [List.mem_range]
    apply imp_congr_right
    intro _
    by_cases hp : p i
    · simp [hp, hpq i hp]
    · by_cases hq : q i <;> simp [hp, hq]
  rw [← hpointwise]
  -- where the two differ one writes a character and the other the mask, which is the longer one unless it is empty
  by_cases hmask : gate.maskChar.length = 0
  · rw [eq_comm, flatMap_eq_iff_of_length_le]
    · exact forall_congr' fun i => forall_congr' fun _ => eq_comm
    · intro i hi
      have hone := hchar i hi
      by_cases hp : p i
      · rw [if_pos hp, if_pos (hpq i hp)]
      · rw [if_neg hp]
        split <;> omega
  · rw [flatMap_eq_iff_of_length_le]
    intro i hi
    have hone := hchar i hi
    by_cases hp : p i
    · rw [if_pos hp, if_pos (hpq i hp)]
    · rw [if_neg hp]
      split <;> omega

theorem sanitizedText_eq_maskedEverywhere_iff (returnMatches : Bool) :
    (gate.sanitize text true returnMatches).sanitizedText = gate.maskedEverywhere text ↔
      gate.ClearMatchesCover text := by
  have hsub : ∀ i, Covered ((gate.clearMatches text).map PIIMatch.span) i →
      Covered ((gate.detectWithRegex text).map PIIMatch.span) i := by
    intro i hi
    obtain ⟨m, hm, hcovers⟩ := covered_map.1 hi
    exact covered_map.2 ⟨m, mem_detect_of_mem_clear hm, hcovers⟩
  rw [sanitizedText_eq, maskedEverywhere, flatMap_mask_eq_iff hsub]
  constructor
  · intro h m hm i hcovers
    have hi : i < text.length := Nat.lt_of_lt_of_le hcovers.2 (of_mem_detectWithRegex hm).2.2
    exact h i hi (covered_map.2 ⟨m, hm, hcovers⟩)
  · intro h i _ hcovered
    obtain ⟨m, hm, hcovers⟩ := covered_map.1 hcovered
    exact h m hm i hcovers

/-- What the gate masks is the mask already. -/
def AlreadyMasked (gate : SecurityGate) (text : List Char) : Prop :=
  ∀ i < text.length, Covered ((gate.clearMatches text).map PIIMatch.span) i → text[i]?.toList = gate.maskChar

theorem sanitizedText_eq_self_iff (returnMatches : Bool) :
    (gate.sanitize text true returnMatches).sanitizedText = text ↔ gate.AlreadyMasked text := by
  have hself : ((List.range text.length).flatMap fun i =>
      if False then gate.maskChar else text[i]?.toList) = text := by
    simp [flatMap_range_getElem?]
  have hiff := @flatMap_mask_eq_iff gate text (fun _ => False)
    (Covered ((gate.clearMatches text).map PIIMatch.span)) _ _ fun _ h => h.elim
  rw [hself, eq_comm] at hiff
  rw [sanitizedText_eq, hiff]
  simp only [false_or, AlreadyMasked]

end SecurityGate

/-! ### The fallback -/

section Fallback

variable (u : CharClasses) (text : List Char)

/-- The replacements that none of those beats which an earlier one let in. -/
def staying : List Replacement :=
  unbeaten Replacement.span Replacement.priority
    ((sortReplacements (findReplacements u text)).foldl (accept Replacement.span Replacement.priority) [])

/-- Each position of a match lies in one of the matches that stay. -/
def StayingCover : Prop :=
  ∀ r ∈ findReplacements u text, ∀ i, r.span.Covers i → Covered ((staying u text).map Replacement.span) i

/-- Matches of one priority do not overlap. -/
def Separate (r s : Replacement) : Prop := r.priority = s.priority → ¬r.span.overlaps s.span = true

variable {u text}

theorem bounds_of_mem_findReplacements {r : Replacement} (h : r ∈ findReplacements u text) :
    r.span.start < r.span.stop ∧ r.span.stop ≤ text.length := by
  simp only [findReplacements, List.mem_flatMap, List.mem_map] at h
  obtain ⟨c, -, s, hs, rfl⟩ := h
  exact (c.1.pattern u).bounds_of_mem_finditer text hs

theorem pairwise_findReplacements : (findReplacements u text).Pairwise Separate := by
  rw [findReplacements, List.pairwise_flatMap]
  constructor
  · intro c _
    rw [List.pairwise_map]
    apply ((c.1.pattern u).pairwise_finditer text).imp
    intro s t h _
    exact Span.not_overlaps_iff.2 (Or.inl h)
  · have hindex : (FallbackCategory.priorityOrder.zipIdx.map Prod.snd).Pairwise (· ≠ ·) := by decide
    rw [List.pairwise_map] at hindex
    apply hindex.imp
    intro c d hne r hr s hs
    obtain ⟨x, -, rfl⟩ := List.mem_map.1 hr
    obtain ⟨y, -, rfl⟩ := List.mem_map.1 hs
    exact fun heq => absurd heq hne

theorem mem_sortReplacements {rs : List Replacement} {r : Replacement} : r ∈ sortReplacements rs ↔ r ∈ rs :=
  List.mem_insertionSort _

theorem pairwise_sortReplacements (rs : List Replacement) :
    (sortReplacements rs).Pairwise fun r s => s.span.start ≤ r.span.start :=
  pairwise_insertionSort_lex (fun r : Replacement => OrderDual.toDual r.span.start)
    (fun r s => r.priority ≤ s.priority) (fun r s => Nat.le_total r.priority s.priority)
    (fun _ _ _ => Nat.le_trans) rs

theorem resolveOverlap_eq_settle {kept : List Replacement} {r : Replacement}
    (hne : ∀ n ∈ kept, n.span.start < n.span.stop)
    (hdisjoint : kept.Pairwise fun m n => ¬m.span.overlaps n.span = true) :
    resolveOverlap kept r = settle Replacement.span Replacement.priority kept r := by
  have hsame : ∀ ⦃m⦄, m ∈ kept → ∀ ⦃n⦄, n ∈ kept → m.span = n.span → m = n := by
    refine List.Pairwise.forall_of_forall_of_flip (fun m _ _ => rfl) ?_ ?_
    · apply hdisjoint.imp_of_mem
      intro m n hm _ h hspan
      have hm := hne m hm
      exact absurd (Span.overlaps_iff.2 (by rw [hspan] at hm ⊢; omega)) h
    · apply hdisjoint.imp_of_mem
      intro m n hm _ h hspan
      have hm := hne m hm
      exact absurd (Span.overlaps_iff.2 (by rw [← hspan] at hm ⊢; omega)) h
  rw [resolveOverlap, settle]
  simp only [beats]
  congr 2
  apply List.filter_congr
  intro n hn
  rw [Bool.not_inj_iff, Bool.eq_iff_iff, List.contains_iff_mem, List.mem_map]
  constructor
  · intro h
    obtain ⟨m, hm, hspan⟩ := h
    obtain ⟨hm, hbeats⟩ := List.mem_filter.1 hm
    rw [← hsame hm hn hspan, Span.overlaps_comm]
    exact hbeats
  · intro h
    rw [Span.overlaps_comm] at h
    exact ⟨n, List.mem_filter.2 ⟨hn, h⟩, rfl⟩

theorem pairwise_settle {kept : List Replacement} {r : Replacement} (hseparate : ∀ n ∈ kept, Separate r n)
    (hdisjoint : kept.Pairwise fun m n => ¬m.span.overlaps n.span = true) :
    (settle Replacement.span Replacement.priority kept r).Pairwise fun m n => ¬m.span.overlaps n.span = true := by
  rw [settle]
  split
  · exact hdisjoint
  · next hbeaten =>
    rw [List.pairwise_append]
    refine ⟨hdisjoint.filter _, List.pairwise_singleton _ r, ?_⟩
    intro n hn k hk hoverlap
    rw [List.mem_singleton.1 hk] at hoverlap
    obtain ⟨hn, hnot⟩ := List.mem_filter.1 hn
    have hweaker : ¬n.priority < r.priority := by
      intro hlt
      apply hbeaten
      rw [List.any_eq_true]
      refine ⟨n, hn, ?_⟩
      rw [beats, Span.overlaps_comm, hoverlap, decide_eq_true hlt]
      rfl
    have hstronger : ¬r.priority < n.priority := by
      intro hlt
      rw [beats, hoverlap, decide_eq_true hlt] at hnot
      cases hnot
    rw [Span.overlaps_comm] at hoverlap
    exact hseparate n hn (by omega) hoverlap

theorem foldl_resolveOverlap (kept : List Replacement) {rs : List Replacement}
    (hne : ∀ r ∈ rs, r.span.start < r.span.stop)
    (hkept : ∀ n ∈ kept, n.span.start < n.span.stop) (hseparate : rs.Pairwise Separate)
    (hboth : ∀ n ∈ kept, ∀ r ∈ rs, Separate r n)
    (hdisjoint : kept.Pairwise fun m n => ¬m.span.overlaps n.span = true) :
    rs.foldl resolveOverlap kept = rs.foldl (settle Replacement.span Replacement.priority) kept ∧
      (rs.foldl resolveOverlap kept).Pairwise fun m n => ¬m.span.overlaps n.span = true := by
  induction rs generalizing kept with
  | nil => exact ⟨rfl, hdisjoint⟩
  | cons r rs ih =>
    obtain ⟨hr, hseparate⟩ := List.pairwise_cons.1 hseparate
    have hmem : ∀ n ∈ settle Replacement.span Replacement.priority kept r, n ∈ kept ∨ n = r := by
      intro n hn
      rw [settle] at hn
      split at hn
      · exact Or.inl hn
      · cases List.mem_append.1 hn with
        | inl h => exact Or.inl (List.mem_filter.1 h).1
        | inr h => exact Or.inr (List.mem_singleton.1 h)
    rw [List.foldl_cons, List.foldl_cons, resolveOverlap_eq_settle hkept hdisjoint]
    apply ih _ (fun s hs => hne s (List.mem_cons_of_mem r hs)) _ hseparate
    · intro n hn s hs
      cases hmem n hn with
      | inl h => exact hboth n h s (List.mem_cons_of_mem r hs)
      | inr h =>
        subst h
        intro heq hoverlap
        rw [Span.overlaps_comm] at hoverlap
        exact hr s hs heq.symm hoverlap
    · exact pairwise_settle (fun n hn => hboth n hn r List.mem_cons_self) hdisjoint
    · intro n hn
      cases hmem n hn with
      | inl h => exact hkept n h
      | inr h => exact h ▸ hne r List.mem_cons_self

theorem foldl_resolveOverlap_eq :
    (sortReplacements (findReplacements u text)).foldl resolveOverlap [] = staying u text ∧
      (staying u text).Pairwise fun m n => ¬m.span.overlaps n.span = true := by
  have hne : ∀ r ∈ sortReplacements (findReplacements u text), r.span.start < r.span.stop := fun r hr =>
    (bounds_of_mem_findReplacements (mem_sortReplacements.1 hr)).1
  have hseparate : (sortReplacements (findReplacements u text)).Pairwise Separate := by
    apply (List.perm_insertionSort _ _).symm.pairwise pairwise_findReplacements
    intro r s h heq hoverlap
    rw [Span.overlaps_comm] at hoverlap
    exact h heq.symm hoverlap
  obtain ⟨hloop, hdisjoint⟩ := foldl_resolveOverlap [] hne (by simp) hseparate (by simp) List.Pairwise.nil
  have hsettle := foldl_settle Replacement.span Replacement.priority (l := [])
    (pairwise_sortReplacements (findReplacements u text)) hne List.Pairwise.nil (by simp) (by simp)
  have heq : (sortReplacements (findReplacements u text)).foldl resolveOverlap [] = staying u text :=
    hloop.trans hsettle
  exact ⟨heq, heq ▸ hdisjoint⟩

theorem mem_findReplacements_of_mem_staying {r : Replacement} (h : r ∈ staying u text) :
    r ∈ findReplacements u text := by
  have haccepted := mem_of_mem_accepted Replacement.span Replacement.priority (List.mem_filter.1 h).1
  exact mem_sortReplacements.1 (haccepted.resolve_left List.not_mem_nil)

theorem mem_nonOverlapping {r : Replacement} : r ∈ nonOverlapping u text ↔ r ∈ staying u text := by
  rw [nonOverlapping, List.mem_insertionSort, foldl_resolveOverlap_eq.1]

theorem covered_nonOverlapping {i : Nat} :
    Covered ((nonOverlapping u text).map Replacement.span) i ↔ Covered ((staying u text).map Replacement.span) i := by
  rw [covered_map, covered_map]
  exact exists_congr fun r => and_congr_left fun _ => mem_nonOverlapping

theorem pairwise_nonOverlapping : (nonOverlapping u text).Pairwise fun r s => s.span.stop ≤ r.span.start := by
  rw [nonOverlapping, foldl_resolveOverlap_eq.1]
  apply pairwise_stop_le_insertionSort Replacement.span
  · intro r hr
    exact (bounds_of_mem_findReplacements (mem_findReplacements_of_mem_staying hr)).1
  · exact foldl_resolveOverlap_eq.2

/-! ### Where the output comes from -/

/-- The output of `fallback_sanitize` piece by piece: positions of the text that are kept, and tokens. It is the same
splice, over the positions in place of the characters. -/
def fallbackPieces (u : CharClasses) (text : List Char) (maxLength : Int) : List (Nat ⊕ List Char) :=
  let result := firstChars text maxLength
  spliceFrom ((List.range result.length).map .inl) ((nonOverlapping u result).map fun r => (r.span, [.inr r.token]))
    result.length []

/-- The text of a piece. -/
def render (text : List Char) : Nat ⊕ List Char → List Char
  | .inl i => text[i]?.toList
  | .inr token => token

/-- What the position comes to: the token of the replacement that starts there, nothing inside one, itself elsewhere. -/
def outputAt (rs : List Replacement) (i : Nat) : List (Nat ⊕ List Char) :=
  match rs.find? fun r => r.span.start == i with
  | some r => [.inr r.token]
  | none => if Covered (rs.map Replacement.span) i then [] else [.inl i]

/-- Of the first `n` positions, those that are covered have given way to a token in their place, the others are kept
in order. -/
structure Redacted (pieces : List (Nat ⊕ List Char)) (n : Nat) (spans : List Span) : Prop where
  kept : pieces.filterMap Sum.getLeft? = (List.range n).filter fun i => ¬Covered spans i
  token : ∀ i < n, Covered spans i → ∃ before token after, pieces = before ++ .inr token :: after ∧
    (∀ j, .inl j ∈ before → j < i) ∧ ∀ j, .inl j ∈ after → i < j

section Pieces

variable {rs : List Replacement} {r : Replacement}

theorem eq_of_covers (hordered : rs.Pairwise fun r s => s.span.stop ≤ r.span.start) {s : Replacement} {i : Nat}
    (hr : r ∈ rs) (hs : s ∈ rs) (hri : r.span.Covers i) (hsi : s.span.Covers i) : r = s := by
  have hall : ∀ ⦃r⦄, r ∈ rs → ∀ ⦃s⦄, s ∈ rs → r.span.Covers i → s.span.Covers i → r = s := by
    apply List.Pairwise.forall_of_forall_of_flip
      (R := fun r s : Replacement => r.span.Covers i → s.span.Covers i → r = s) (fun r _ _ _ => rfl)
    · apply hordered.imp
      intro r s h hr hs
      have hle := hr.1
      have hlt := hs.2
      omega
    · apply hordered.imp
      intro r s h hr hs
      have hle := hs.1
      have hlt := hr.2
      omega
  exact hall hr hs hri hsi

theorem starts_of_find? (hne : ∀ r ∈ rs, r.span.start < r.span.stop) {i : Nat}
    (h : (rs.find? fun s => s.span.start == i) = some r) : r ∈ rs ∧ r.span.start = i ∧ r.span.Covers i := by
  have hr := List.mem_of_find?_eq_some h
  have hstart : r.span.start = i := by simpa using List.find?_some h
  have hlt := hne r hr
  exact ⟨hr, hstart, ⟨hstart.le, by omega⟩⟩

theorem outputAt_start (hordered : rs.Pairwise fun r s => s.span.stop ≤ r.span.start)
    (hne : ∀ r ∈ rs, r.span.start < r.span.stop) (hr : r ∈ rs) : outputAt rs r.span.start = [.inr r.token] := by
  rw [outputAt]
  cases hfind : rs.find? fun s => s.span.start == r.span.start with
  | none => simpa using List.find?_eq_none.1 hfind r hr
  | some s =>
    obtain ⟨hs, -, hcovers⟩ := starts_of_find? hne hfind
    rw [eq_of_covers hordered hs hr hcovers ⟨Nat.le_refl _, hne r hr⟩]

theorem outputAt_inside (hordered : rs.Pairwise fun r s => s.span.stop ≤ r.span.start)
    (hne : ∀ r ∈ rs, r.span.start < r.span.stop) (hr : r ∈ rs) {i : Nat} (hi : r.span.start < i)
    (hstop : i < r.span.stop) : outputAt rs i = [] := by
  rw [outputAt]
  cases hfind : rs.find? fun s => s.span.start == i with
  | none => exact if_pos (covered_map.2 ⟨r, hr, by omega, hstop⟩)
  | some s =>
    obtain ⟨hs, hstart, hcovers⟩ := starts_of_find? hne hfind
    rw [eq_of_covers hordered hs hr hcovers ⟨hi.le, hstop⟩] at hstart
    omega

theorem outputAt_of_not_covered (hne : ∀ r ∈ rs, r.span.start < r.span.stop) {i : Nat}
    (h : ¬Covered (rs.map Replacement.span) i) : outputAt rs i = [.inl i] := by
  rw [outputAt]
  cases hfind : rs.find? fun s => s.span.start == i with
  | none => exact if_neg h
  | some s =>
    obtain ⟨hs, -, hcovers⟩ := starts_of_find? hne hfind
    exact absurd (covered_map.2 ⟨s, hs, hcovers⟩) h

theorem filterMap_outputAt (hne : ∀ r ∈ rs, r.span.start < r.span.stop) (i : Nat) :
    (outputAt rs i).filterMap Sum.getLeft? = if Covered (rs.map Replacement.span) i then [] else [i] := by
  rw [outputAt]
  cases hfind : rs.find? fun s => s.span.start == i with
  | none => by_cases h : Covered (rs.map Replacement.span) i <;> simp [h]
  | some s =>
    obtain ⟨hs, -, hcovers⟩ := starts_of_find? hne hfind
    simp [covered_map.2 ⟨s, hs, hcovers⟩]

theorem eq_of_inl_mem_outputAt {i j : Nat} (h : .inl j ∈ outputAt rs i) :
    j = i ∧ ¬Covered (rs.map Replacement.span) i := by
  rw [outputAt] at h
  split at h
  · simp at h
  · split at h
    · simp at h
    · next hcovered => exact ⟨by simpa using h, hcovered⟩

theorem flatMap_outputAt (hordered : rs.Pairwise fun r s => s.span.stop ≤ r.span.start)
    (hne : ∀ r ∈ rs, r.span.start < r.span.stop) (hr : r ∈ rs) :
    (List.range' r.span.start (r.span.stop - r.span.start)).flatMap (outputAt rs) = [.inr r.token] := by
  have hlt := hne r hr
  rw [show r.span.stop - r.span.start = r.span.stop - r.span.start - 1 + 1 by omega, List.range'_succ,
    List.flatMap_cons, outputAt_start hordered hne hr, List.flatMap_eq_nil_iff.2]
  · rfl
  · intro i hi
    rw [List.mem_range'_1] at hi
    exact outputAt_inside hordered hne hr (by omega) (by omega)

end Pieces

section Redaction

variable (u : CharClasses) (text : List Char) (maxLength : Int)

theorem fallbackPieces_eq : fallbackPieces u text maxLength =
    (List.range (firstChars text maxLength).length).flatMap
      (outputAt (nonOverlapping u (firstChars text maxLength))) := by
  set result := firstChars text maxLength
  have hbounds : ∀ r ∈ nonOverlapping u result,
      r.span.start < r.span.stop ∧ r.span.stop ≤ result.length := fun r hr =>
    bounds_of_mem_findReplacements (mem_findReplacements_of_mem_staying (mem_nonOverlapping.1 hr))
  rw [fallbackPieces, spliceFrom_eq_flatMap (f := outputAt (nonOverlapping u result)), List.append_nil]
  · rw [List.pairwise_map]
    exact pairwise_nonOverlapping
  · intro s hs
    obtain ⟨r, hr, rfl⟩ := List.mem_map.1 hs
    exact ⟨(hbounds r hr).1.le, (hbounds r hr).2⟩
  · intro s hs
    obtain ⟨r, hr, rfl⟩ := List.mem_map.1 hs
    exact flatMap_outputAt pairwise_nonOverlapping (fun r hr => (hbounds r hr).1) hr
  · intro i hi huncovered
    rw [outputAt_of_not_covered (fun r hr => (hbounds r hr).1), List.getElem?_map, List.getElem?_range hi]
    · rfl
    · intro hcovered
      obtain ⟨r, hr, hcovers⟩ := covered_map.1 hcovered
      exact huncovered (r.span, [.inr r.token]) (List.mem_map.2 ⟨r, hr, rfl⟩) hcovers

theorem fallbackSanitize_eq : fallbackSanitize u text maxLength =
    (fallbackPieces u text maxLength).flatMap (render (firstChars text maxLength)) := by
  rw [fallbackPieces_eq, List.flatMap_assoc, fallbackSanitize]
  set result := firstChars text maxLength
  set rs := nonOverlapping u result
  have hbounds : ∀ r ∈ rs,
      r.span.start < r.span.stop ∧ r.span.stop ≤ result.length := fun r hr =>
    bounds_of_mem_findReplacements (mem_findReplacements_of_mem_staying (mem_nonOverlapping.1 hr))
  rw [spliceFrom_eq_flatMap (f := fun i => (outputAt rs i).flatMap (render result)), List.append_nil]
  · rw [List.pairwise_map]
    exact pairwise_nonOverlapping
  · intro s hs
    obtain ⟨r, hr, rfl⟩ := List.mem_map.1 hs
    exact ⟨(hbounds r hr).1.le, (hbounds r hr).2⟩
  · intro s hs
    obtain ⟨r, hr, rfl⟩ := List.mem_map.1 hs
    rw [← List.flatMap_assoc, flatMap_outputAt pairwise_nonOverlapping (fun r hr => (hbounds r hr).1) hr]
    simp [render]
  · intro i hi huncovered
    rw [outputAt_of_not_covered (fun r hr => (hbounds r hr).1)]
    · simp [render]
    · intro hcovered
      obtain ⟨r, hr, hcovers⟩ := covered_map.1 hcovered
      exact huncovered (r.span, r.token) (List.mem_map.2 ⟨r, hr, rfl⟩) hcovers

theorem kept_fallbackPieces : (fallbackPieces u text maxLength).filterMap Sum.getLeft? =
    (List.range (firstChars text maxLength).length).filter fun i =>
      ¬Covered ((staying u (firstChars text maxLength)).map Replacement.span) i := by
  have hbounds : ∀ r ∈ nonOverlapping u (firstChars text maxLength), r.span.start < r.span.stop := fun r hr =>
    (bounds_of_mem_findReplacements (mem_findReplacements_of_mem_staying (mem_nonOverlapping.1 hr))).1
  rw [fallbackPieces_eq, List.filterMap_flatMap]
  simp only [filterMap_outputAt hbounds, covered_nonOverlapping]
  induction List.range (firstChars text maxLength).length with
  | nil => rfl
  | cons i l ih =>
    rw [List.flatMap_cons, ih]
    by_cases h : Covered ((staying u (firstChars text maxLength)).map Replacement.span) i <;> simp [h]

theorem exists_token {i : Nat}
    (h : Covered ((staying u (firstChars text maxLength)).map Replacement.span) i) :
    ∃ before token after, fallbackPieces u text maxLength = before ++ .inr token :: after ∧
      (∀ j, .inl j ∈ before → j < i) ∧ ∀ j, .inl j ∈ after → i < j := by
  set result := firstChars text maxLength
  obtain ⟨r, hr, hstart, hstop⟩ := covered_map.1 h
  have hbounds : ∀ r ∈ nonOverlapping u result,
      r.span.start < r.span.stop ∧ r.span.stop ≤ result.length := fun r hr =>
    bounds_of_mem_findReplacements (mem_findReplacements_of_mem_staying (mem_nonOverlapping.1 hr))
  have hmem := mem_nonOverlapping.2 hr
  have hr := hbounds r hmem
  have hsplit : List.range result.length =
      List.range r.span.start ++ r.span.start :: List.range' (r.span.start + 1) (result.length - r.span.start - 1) := by
    have happend := List.range'_append_1 (s := 0) (m := r.span.start) (n := result.length - r.span.start)
    rw [Nat.zero_add, show r.span.start + (result.length - r.span.start) = result.length by omega] at happend
    rw [← List.range'_succ, show result.length - r.span.start - 1 + 1 = result.length - r.span.start by omega,
      List.range_eq_range', List.range_eq_range', happend]
  refine ⟨(List.range r.span.start).flatMap (outputAt (nonOverlapping u result)), r.token,
    (List.range' (r.span.start + 1) (result.length - r.span.start - 1)).flatMap (outputAt (nonOverlapping u result)),
    ?_, ?_, ?_⟩
  · rw [fallbackPieces_eq, hsplit, List.flatMap_append, List.flatMap_cons,
      outputAt_start pairwise_nonOverlapping (fun r hr => (hbounds r hr).1) hmem]
    rfl
  · intro j hj
    obtain ⟨k, hk, hjk⟩ := List.mem_flatMap.1 hj
    rw [(eq_of_inl_mem_outputAt hjk).1]
    have hlt := List.mem_range.1 hk
    omega
  · intro j hj
    obtain ⟨k, hk, hjk⟩ := List.mem_flatMap.1 hj
    obtain ⟨heq, huncovered⟩ := eq_of_inl_mem_outputAt hjk
    rw [List.mem_range'_1] at hk
    rw [heq]
    by_contra hle
    exact huncovered (covered_map.2 ⟨r, hmem, by omega, by omega⟩)

theorem redacted_iff : Redacted (fallbackPieces u text maxLength) (firstChars text maxLength).length
    ((findReplacements u (firstChars text maxLength)).map Replacement.span) ↔
      StayingCover u (firstChars text maxLength) := by
  set result := firstChars text maxLength
  have hkept := kept_fallbackPieces u text maxLength
  constructor
  · intro h r hr i hcovers
    by_contra hleft
    have hi : i < result.length := Nat.lt_of_lt_of_le hcovers.2 (bounds_of_mem_findReplacements hr).2
    have hmem : i ∈ (fallbackPieces u text maxLength).filterMap Sum.getLeft? := by
      rw [hkept]
      exact List.mem_filter.2 ⟨List.mem_range.2 hi, decide_eq_true hleft⟩
    rw [h.kept] at hmem
    exact of_decide_eq_true (List.mem_filter.1 hmem).2 (covered_map.2 ⟨r, hr, hcovers⟩)
  · intro h
    have hiff : ∀ i, Covered ((staying u result).map Replacement.span) i ↔
        Covered ((findReplacements u result).map Replacement.span) i := by
      intro i
      constructor
      · intro hi
        obtain ⟨r, hr, hcovers⟩ := covered_map.1 hi
        exact covered_map.2 ⟨r, mem_findReplacements_of_mem_staying hr, hcovers⟩
      · intro hi
        obtain ⟨r, hr, hcovers⟩ := covered_map.1 hi
        exact h r hr i hcovers
    constructor
    · rw [hkept]
      exact List.filter_congr fun i _ => by rw [decide_eq_decide, hiff i]
    · intro i _ hi
      exact exists_token u text maxLength ((hiff i).2 hi)

end Redaction

/-! ### The fallback never gives back what it found something in -/

theorem not_first_bracket (u : CharClasses) (c : FallbackCategory) : (c.pattern u).regex.first '[' = false := by
  have hdecimal : u.isDecimal '[' = false := (u.ascii '[' (by decide)).2.1
  cases c with
  | phone =>
    simp [FallbackCategory.pattern, phone, concat, Regex.first, Regex.nullable, CharClasses.boundary, Py.Re.optional,
      times, separator, text, CharClasses.decimal, hdecimal]
  | ssn =>
    simp [FallbackCategory.pattern, ssn, concat, Regex.first, Regex.nullable, CharClasses.boundary, times,
      CharClasses.decimal, hdecimal]
  | creditCard =>
    simp [FallbackCategory.pattern, creditCard, concat, Regex.first, Regex.nullable, CharClasses.boundary, times,
      CharClasses.decimal, hdecimal]
  | ipAddress =>
    simp [FallbackCategory.pattern, ipAddress, concat, Regex.first, Regex.nullable, CharClasses.boundary, times,
      between, CharClasses.decimal, hdecimal]
  | czRodneCislo =>
    simp [FallbackCategory.pattern, concat, Regex.first, Regex.nullable, CharClasses.boundary, times,
      CharClasses.decimal, hdecimal]
  | iban | euVat | e164Phone | ukNino | email | driverLicense | passport => rfl

section Unequal

variable {u : CharClasses} {text : List Char} {maxLength : Int}

theorem bracket_of_mem_findReplacements {r : Replacement} (h : r ∈ findReplacements u text) :
    r.token[0]? = some '[' ∧ text[r.span.start]? ≠ some '[' := by
  simp only [findReplacements, List.mem_flatMap, List.mem_map] at h
  obtain ⟨c, -, s, hs, rfl⟩ := h
  constructor
  · cases c.1 <;> rfl
  · intro hbracket
    have hfirst := (c.1.pattern u).first_of_mem_finditer text hs
    simp only at hbracket
    rw [hbracket, Option.any_some, not_first_bracket] at hfirst
    cases hfirst

theorem nonOverlapping_ne_nil (h : findReplacements u text ≠ []) : nonOverlapping u text ≠ [] := by
  have hsettle : ∀ kept r, settle Replacement.span Replacement.priority kept r ≠ [] := by
    intro kept r
    rw [settle]
    split
    · next hany =>
      intro hnil
      simp [hnil] at hany
    · simp
  have hfold : ∀ rs kept, rs ≠ [] ∨ kept ≠ [] →
      rs.foldl (settle Replacement.span Replacement.priority) kept ≠ [] := by
    intro rs
    induction rs with
    | nil => exact fun kept h => h.resolve_left fun h => h rfl
    | cons r rs ih => exact fun kept _ => ih _ (Or.inr (hsettle kept r))
  have hsorted : sortReplacements (findReplacements u text) ≠ [] := by
    obtain ⟨r, hr⟩ := List.exists_mem_of_ne_nil _ h
    exact List.ne_nil_of_mem (mem_sortReplacements.2 hr)
  have hsettled := foldl_settle Replacement.span Replacement.priority (l := [])
    (pairwise_sortReplacements (findReplacements u text))
    (fun r hr => (bounds_of_mem_findReplacements (mem_sortReplacements.1 hr)).1) List.Pairwise.nil (by simp) (by simp)
  have hstaying : staying u text ≠ [] := fun hnil => hfold _ [] (Or.inl hsorted) (hsettled.trans hnil)
  obtain ⟨r, hr⟩ := List.exists_mem_of_ne_nil _ hstaying
  exact List.ne_nil_of_mem (mem_nonOverlapping.2 hr)

theorem fallbackSanitize_ne (h : findReplacements u (firstChars text maxLength) ≠ []) :
    fallbackSanitize u text maxLength ≠ text := by
  intro heq
  rw [fallbackSanitize] at heq
  set result := firstChars text maxLength with hresult
  have hspans : (nonOverlapping u result).map (fun r => (r.span, r.token)) ≠ [] := by
    simpa using nonOverlapping_ne_nil h
  obtain ⟨s, hs, rest, hsplice⟩ := exists_spliceFrom_eq result hspans result.length []
  obtain ⟨r, hr, rfl⟩ := List.mem_map.1 hs
  have hmem := mem_findReplacements_of_mem_staying (mem_nonOverlapping.1 hr)
  obtain ⟨htoken, htext⟩ := bracket_of_mem_findReplacements hmem
  have hbounds := bounds_of_mem_findReplacements hmem
  have hstart : r.span.start < result.length := by omega
  apply htext
  have hsame : result[r.span.start]? = text[r.span.start]? := by
    rw [hresult, firstChars, List.length_take] at hstart
    rw [hresult, firstChars, List.getElem?_take_of_lt (by omega)]
  rw [hsame, ← heq, hsplice, List.getElem?_append_right (by simp), List.length_take,
    show r.span.start - min r.span.start result.length = 0 by omega, List.getElem?_append_left]
  · exact htoken
  · exact (List.getElem?_eq_some_iff.1 htoken).1

theorem fallbackSanitize_eq_self_iff : fallbackSanitize u text maxFallbackLength = text ↔
    findReplacements u text = [] ∧ text.length ≤ 10000 := by
  constructor
  · intro heq
    have hnone : findReplacements u (firstChars text maxFallbackLength) = [] := by
      by_contra h
      exact fallbackSanitize_ne h heq
    have hcut : firstChars text maxFallbackLength = text := by
      rw [fallbackSanitize, nonOverlapping, hnone] at heq
      simpa [sortReplacements, spliceFrom] using heq
    have hlength := congrArg List.length hcut
    rw [firstChars, List.length_take] at hlength
    rw [hcut] at hnone
    exact ⟨hnone, by simp only [maxFallbackLength] at hlength; omega⟩
  · intro h
    have hcut : firstChars text maxFallbackLength = text := List.take_of_length_le h.2
    rw [fallbackSanitize, hcut, nonOverlapping, h.1]
    simp [sortReplacements, spliceFrom]

end Unequal

end Fallback

/-! ### Both together -/

/-- Every character of a match is masked or replaced exactly when the overlaps leave no part of a match uncovered. -/
theorem detections_covered_iff (gate : SecurityGate) (u : CharClasses) (text : List Char) (returnMatches : Bool)
    (maxLength : Int) :
    ((gate.sanitize text true returnMatches).sanitizedText = gate.maskedEverywhere text ↔
        gate.ClearMatchesCover text) ∧
      fallbackSanitize u text maxLength =
        (fallbackPieces u text maxLength).flatMap (render (firstChars text maxLength)) ∧
      (Redacted (fallbackPieces u text maxLength) (firstChars text maxLength).length
          ((findReplacements u (firstChars text maxLength)).map Replacement.span) ↔
        StayingCover u (firstChars text maxLength)) :=
  ⟨SecurityGate.sanitizedText_eq_maskedEverywhere_iff returnMatches, fallbackSanitize_eq u text maxLength,
    redacted_iff u text maxLength⟩

/-- The URL ends inside an address, which is dropped; a phone number with its country code starts an address. -/
theorem not_detections_covered :
    ((createSecurityGate asciiClasses ['*']).sanitize "http://x.cz/foo@bar.com".toList true true).sanitizedText =
        "***************@bar.com".toList ∧
      (createSecurityGate asciiClasses ['*']).maskedEverywhere "http://x.cz/foo@bar.com".toList =
        "***********************".toList ∧
      fallbackSanitize asciiClasses "+420123456789@seznam.cz".toList maxFallbackLength =
        "[REDACTED:INTL_PHONE]@seznam.cz".toList ∧
      ¬Redacted (fallbackPieces asciiClasses "+420123456789@seznam.cz".toList maxFallbackLength) 23
        ((findReplacements asciiClasses "+420123456789@seznam.cz".toList).map Replacement.span) := by
  refine ⟨by decide +kernel, by decide +kernel, by decide +kernel, ?_⟩
  intro h
  have hkept := h.kept
  revert hkept
  decide +kernel

end Hledac.Security
