import Hledac.Knowledge.ConsistencyVotes

/-!
# Whom a batch retracts

A batch retracts by vote, and by ratio whom the vote has left. Of the sources tied for the majority on an entity any
one is taken in some order of the findings, so that a batch retracts the same sources in every order exactly where
the choice among them does not matter.
-/

namespace Hledac.Knowledge.ConsistencyVerifier

open Hledac.Lib Hledac.Py

variable {u : Re.CharClasses} {F F' : List FindingDict} {S S' : List ContradictionSignal} {s : SourceId}

/-! ### Records of a dictionary -/

section Records

variable {V : Type} {record? : SourceId × V → Option RetractionDecision} {d : Dict SourceId V} {reason : String}

/-- Records that name the key that they are made of, and one reason. -/
structure Named (reason : String) (record? : SourceId × V → Option RetractionDecision) : Prop where
  sourceId : ∀ e r, record? e = some r → r.sourceId = e.1
  reason : ∀ e r, record? e = some r → r.reason = reason

theorem Named.nodup (h : Named reason record?) :
    ((d.entries.filterMap record?).map RetractionDecision.sourceId).Nodup := by
  have hsub : ((d.entries.filterMap record?).map RetractionDecision.sourceId).Sublist d.keys := by
    rw [Dict.keys]
    induction d.entries with
    | nil => exact List.Sublist.refl _
    | cons e entries ih =>
      cases hr : record? e with
      | none =>
        rw [List.filterMap_cons_none hr]
        exact ih.cons _
      | some r =>
        rw [List.filterMap_cons_some hr, List.map_cons, List.map_cons, h.sourceId e r hr]
        exact ih.cons_cons _
  exact d.nodup.sublist hsub

theorem Named.mem_iff (h : Named reason record?) :
    s ∈ (d.entries.filterMap record?).map RetractionDecision.sourceId ↔
      ∃ v, d.get? s = some v ∧ (record? (s, v)).isSome = true := by
  rw [List.mem_map]
  constructor
  · intro hs
    obtain ⟨r, hr, rfl⟩ := hs
    obtain ⟨e, he, hrecord⟩ := List.mem_filterMap.1 hr
    rw [h.sourceId e r hrecord]
    exact ⟨e.2, Dict.get?_eq_some_iff.2 he, Option.isSome_iff_exists.2 ⟨r, hrecord⟩⟩
  · intro hs
    obtain ⟨v, hv, hsome⟩ := hs
    obtain ⟨r, hr⟩ := Option.isSome_iff_exists.1 hsome
    exact ⟨r, List.mem_filterMap.2 ⟨(s, v), Dict.get?_eq_some_iff.1 hv, hr⟩, h.sourceId _ r hr⟩

theorem Named.reason_of_mem (h : Named reason record?) {r : RetractionDecision}
    (hr : r ∈ d.entries.filterMap record?) : r.reason = reason := by
  obtain ⟨e, -, he⟩ := List.mem_filterMap.1 hr
  exact h.reason e r he

end Records

/-! ### By vote -/

theorem named_retraction? : Named "tri_source_voting" retraction? := by
  have hshape : ∀ e r, retraction? e = some r → r.sourceId = e.1 ∧ r.reason = "tri_source_voting" := by
    intro e r h
    simp only [retraction?] at h
    split at h
    · obtain rfl := Option.some.inj h
      exact ⟨rfl, rfl⟩
    · cases h
  exact ⟨fun e r h => (hshape e r h).1, fun e r h => (hshape e r h).2⟩

theorem isSome_retraction? {vote : SourceVote} :
    (retraction? (s, vote)).isSome = true ↔ triSourceMinVotes ≤ vote.dissentCount := by
  simp only [retraction?]
  split
  · next h => simp [h]
  · next h => simp [h]

theorem mem_buildRetractionDecisions {votes : Dict SourceId SourceVote} :
    s ∈ (buildRetractionDecisions votes).map RetractionDecision.sourceId ↔ triSourceMinVotes ≤ dissentsOf s votes := by
  rw [buildRetractionDecisions, named_retraction?.mem_iff, dissentsOf]
  simp only [isSome_retraction?]
  cases votes.get? s with
  | none => exact iff_of_false (by simp) (by decide)
  | some vote => simp

/-- The decisions of the vote, where it returns. -/
structure Voted (F : List FindingDict) (S : List ContradictionSignal) (decisions : List RetractionDecision) : Prop where
  nodup : (decisions.map RetractionDecision.sourceId).Nodup
  mem_iff : ∀ s, s ∈ decisions.map RetractionDecision.sourceId ↔ AtLeast triSourceMinVotes (DissentsOn F S s)
  reason : ∀ r ∈ decisions, r.reason = "tri_source_voting"

theorem not_decided_of_length_lt (h : F.length < triSourceMinSources) (e : String) : ¬ Decided (onEntity F e) := by
  intro hdecided
  have hle := (le_length_of_decided hdecided).trans (List.length_filter_le _ F)
  exact absurd hle (not_le.2 h)

theorem triSourceVoting_spec (F : List FindingDict) (S : List ContradictionSignal) :
    (AllReturn F S ∧ ∃ decisions, triSourceVoting F S = .ok decisions ∧ Voted F S decisions) ∨
      (¬ AllReturn F S ∧ ∃ error, triSourceVoting F S = .error error) := by
  rw [triSourceVoting]
  by_cases hlength : F.length < triSourceMinSources
  · rw [if_pos hlength]
    refine .inl ⟨fun e he => absurd he (not_decided_of_length_lt hlength e), [], rfl, List.nodup_nil, ?_, nofun⟩
    intro s
    refine iff_of_false List.not_mem_nil ?_
    intro h
    obtain ⟨e, he⟩ := h.exists (by decide)
    exact not_decided_of_length_lt hlength e he.1
  · rw [if_neg hlength]
    cases hvotes : processEntityGroups (groupFindingsByEntity F S) S with
    | error error =>
      refine .inr ⟨?_, error, rfl⟩
      intro hall
      obtain ⟨votes, hok⟩ := processEntityGroups_returns_iff.2 hall
      rw [hvotes] at hok
      cases hok
    | ok votes =>
      refine .inl ⟨processEntityGroups_returns_iff.1 ⟨votes, hvotes⟩, _, rfl, named_retraction?.nodup, ?_, ?_⟩
      · intro s
        rw [mem_buildRetractionDecisions, le_dissentsOf_iff hvotes]
      · exact fun r hr => named_retraction?.reason_of_mem hr

/-! ### By ratio -/

/-- The number of signals that count against a source. -/
def contradictions (u : Re.CharClasses) (S : List ContradictionSignal) (s : SourceId) : Nat :=
  (members (signalSource u) s S).length

/-- The number of findings of a source. -/
def claims (F : List FindingDict) (s : SourceId) : Nat := (ofSource F s).length

/-- The source is over the ratio, where one without findings has as many as contradictions. -/
def OverRatio (u : Re.CharClasses) (F : List FindingDict) (S : List ContradictionSignal) (s : SourceId) : Prop :=
  triSourceMinVotes ≤ contradictions u S s ∧
    (claims F s = 0 ∨ ratioThreshold < (contradictions u S s : ℚ) / claims F s)

theorem named_overRatio? (totals : Dict SourceId Nat) : Named "ratio_threshold" (overRatio? totals) := by
  have hshape : ∀ e r, overRatio? totals e = some r → r.sourceId = e.1 ∧ r.reason = "ratio_threshold" := by
    intro e r h
    simp only [overRatio?] at h
    split at h
    · cases h
    · split at h
      · obtain rfl := Option.some.inj h
        exact ⟨rfl, rfl⟩
      · cases h
  exact ⟨fun e r h => (hshape e r h).1, fun e r h => (hshape e r h).2⟩

theorem isSome_overRatio? {count : Nat} :
    (overRatio? (Dict.tally FindingDict.sourceKey F) (s, count)).isSome = true ↔
      triSourceMinVotes ≤ count ∧ (claims F s = 0 ∨ ratioThreshold < (count : ℚ) / claims F s) := by
  simp only [overRatio?, Dict.get?_tally]
  by_cases hcount : count < triSourceMinVotes
  · rw [if_pos hcount]
    exact iff_of_false (by simp) fun h => absurd h.1 (not_le.2 hcount)
  · rw [if_neg hcount, and_iff_right (not_lt.1 hcount), claims, ofSource]
    by_cases hnone : members FindingDict.sourceKey s F = []
    · have hpos : 0 < count := Nat.lt_of_lt_of_le (by decide) (not_lt.1 hcount)
      have hone : ratioOf count count = 1 := by rw [ratioOf, if_pos hpos, div_self (Nat.cast_ne_zero.2 hpos.ne')]
      have hlt : ratioThreshold < 1 := by norm_num [ratioThreshold]
      simp [hnone, hone, hlt]
    · have hpos : 0 < (members FindingDict.sourceKey s F).length := List.length_pos_iff.2 hnone
      rw [if_neg hnone, Option.getD_some, ratioOf, if_pos hpos]
      split
      · next h => simp [h]
      · next h => simp [h, hnone]

theorem mem_sourceReliabilityRatio :
    s ∈ (sourceReliabilityRatio u F S).map RetractionDecision.sourceId ↔ OverRatio u F S s := by
  rw [sourceReliabilityRatio, (named_overRatio? _).mem_iff, OverRatio, contradictions]
  simp only [isSome_overRatio?, Dict.get?_tally]
  split
  · next h =>
    rw [h]
    exact iff_of_false (by simp) fun h => absurd h.1 (by decide)
  · simp

/-! ### A batch -/

/-- Both lists are within their caps. -/
def WithinCaps (F : List FindingDict) (S : List ContradictionSignal) : Prop :=
  F.length ≤ maxFindings ∧ S.length ≤ maxSignals

/-- The sources that the batch retracts. -/
def retracted (u : Re.CharClasses) (F : List FindingDict) (S : List ContradictionSignal) : List SourceId :=
  (checkBatch u F S).map RetractionDecision.sourceId

theorem checkBatch_spec (h : WithinCaps F S) :
    (¬ (F ≠ [] ∧ S ≠ [] ∧ AllReturn F S) ∧ checkBatch u F S = []) ∨
      ((F ≠ [] ∧ S ≠ [] ∧ AllReturn F S) ∧ ∃ decisions, Voted F S decisions ∧
        checkBatch u F S = decisions ++ (sourceReliabilityRatio u F S).filter fun r =>
          !(decisions.map RetractionDecision.sourceId).contains r.sourceId) := by
  rw [checkBatch, List.take_of_length_le h.1, List.take_of_length_le h.2]
  by_cases hempty : F = [] ∨ S = []
  · rw [if_pos hempty]
    exact .inl ⟨fun hne => hempty.elim hne.1 hne.2.1, rfl⟩
  · rw [if_neg hempty]
    obtain ⟨hF, hS⟩ := not_or.1 hempty
    cases triSourceVoting_spec F S with
    | inl hok =>
      obtain ⟨hall, decisions, hvote, hvoted⟩ := hok
      rw [hvote]
      exact .inr ⟨⟨hF, hS, hall⟩, decisions, hvoted, rfl⟩
    | inr hraises =>
      obtain ⟨hnot, error, hvote⟩ := hraises
      rw [hvote]
      exact .inl ⟨fun hne => hnot hne.2.2, rfl⟩

theorem nodup_retracted (h : WithinCaps F S) : (retracted u F S).Nodup := by
  rw [retracted]
  cases checkBatch_spec (u := u) h with
  | inl hnone =>
    rw [hnone.2]
    exact List.nodup_nil
  | inr hsome =>
    obtain ⟨-, decisions, hvoted, hbatch⟩ := hsome
    rw [hbatch, List.map_append, List.nodup_append]
    have hratio : ((sourceReliabilityRatio u F S).map RetractionDecision.sourceId).Nodup := (named_overRatio? _).nodup
    refine ⟨hvoted.nodup, hratio.sublist (List.filter_sublist.map _), ?_⟩
    intro s hs t ht hst
    obtain ⟨r, hr, rfl⟩ := List.mem_map.1 ht
    have hfresh := (List.mem_filter.1 hr).2
    rw [Bool.not_eq_true', List.contains_eq_mem, decide_eq_false_iff_not] at hfresh
    exact hfresh (hst ▸ hs)

theorem exists_tri_iff (h : WithinCaps F S) :
    (∃ r ∈ checkBatch u F S, r.reason = "tri_source_voting" ∧ r.sourceId = s) ↔
      (F ≠ [] ∧ S ≠ [] ∧ AllReturn F S) ∧ AtLeast triSourceMinVotes (DissentsOn F S s) := by
  cases checkBatch_spec (u := u) h with
  | inl hnone => simp [hnone.1, hnone.2]
  | inr hsome =>
    obtain ⟨hbatch, decisions, hvoted, heq⟩ := hsome
    rw [and_iff_right hbatch, ← hvoted.mem_iff, heq, List.mem_map]
    constructor
    · intro hr
      obtain ⟨r, hr, hreason, hsource⟩ := hr
      cases List.mem_append.1 hr with
      | inl hmem => exact ⟨r, hmem, hsource⟩
      | inr hmem =>
        have hratio := (named_overRatio? _).reason_of_mem (List.mem_filter.1 hmem).1
        rw [hratio] at hreason
        exact absurd hreason (by decide)
    · intro hr
      obtain ⟨r, hmem, hsource⟩ := hr
      exact ⟨r, List.mem_append_left _ hmem, hvoted.reason r hmem, hsource⟩

theorem exists_ratio_iff (h : WithinCaps F S) :
    (∃ r ∈ checkBatch u F S, r.reason = "ratio_threshold" ∧ r.sourceId = s) ↔
      (F ≠ [] ∧ S ≠ [] ∧ AllReturn F S) ∧ ¬ AtLeast triSourceMinVotes (DissentsOn F S s) ∧ OverRatio u F S s := by
  cases checkBatch_spec (u := u) h with
  | inl hnone => simp [hnone.1, hnone.2]
  | inr hsome =>
    obtain ⟨hbatch, decisions, hvoted, heq⟩ := hsome
    rw [and_iff_right hbatch, ← hvoted.mem_iff, ← mem_sourceReliabilityRatio, heq,
      List.mem_map (l := sourceReliabilityRatio u F S)]
    constructor
    · intro hr
      obtain ⟨r, hr, hreason, rfl⟩ := hr
      cases List.mem_append.1 hr with
      | inl hmem =>
        rw [hvoted.reason r hmem] at hreason
        exact absurd hreason (by decide)
      | inr hmem =>
        obtain ⟨hmem, hfresh⟩ := List.mem_filter.1 hmem
        rw [Bool.not_eq_true', List.contains_eq_mem, decide_eq_false_iff_not] at hfresh
        exact ⟨hfresh, r, hmem, rfl⟩
    · intro hr
      obtain ⟨hfresh, r, hmem, rfl⟩ := hr
      refine ⟨r, List.mem_append_right _ (List.mem_filter.2 ⟨hmem, ?_⟩), (named_overRatio? _).reason_of_mem hmem, rfl⟩
      rw [Bool.not_eq_true', List.contains_eq_mem, decide_eq_false_iff_not]
      exact hfresh

theorem reason_of_mem_checkBatch (h : WithinCaps F S) {r : RetractionDecision} (hr : r ∈ checkBatch u F S) :
    r.reason = "tri_source_voting" ∨ r.reason = "ratio_threshold" := by
  cases checkBatch_spec (u := u) h with
  | inl hnone =>
    rw [hnone.2] at hr
    cases hr
  | inr hsome =>
    obtain ⟨-, decisions, hvoted, heq⟩ := hsome
    rw [heq] at hr
    cases List.mem_append.1 hr with
    | inl hmem => exact .inl (hvoted.reason r hmem)
    | inr hmem => exact .inr ((named_overRatio? _).reason_of_mem (List.mem_filter.1 hmem).1)

theorem mem_retracted_iff (h : WithinCaps F S) : s ∈ retracted u F S ↔
    (F ≠ [] ∧ S ≠ [] ∧ AllReturn F S) ∧ (AtLeast triSourceMinVotes (DissentsOn F S s) ∨ OverRatio u F S s) := by
  have hreasons : s ∈ retracted u F S ↔ (∃ r ∈ checkBatch u F S, r.reason = "tri_source_voting" ∧ r.sourceId = s) ∨
      ∃ r ∈ checkBatch u F S, r.reason = "ratio_threshold" ∧ r.sourceId = s := by
    rw [retracted, List.mem_map]
    constructor
    · intro hr
      obtain ⟨r, hr, hsource⟩ := hr
      cases reason_of_mem_checkBatch h hr with
      | inl hreason => exact .inl ⟨r, hr, hreason, hsource⟩
      | inr hreason => exact .inr ⟨r, hr, hreason, hsource⟩
    · intro hr
      cases hr with
      | inl hr => exact hr.imp fun r hr => ⟨hr.1, hr.2.2⟩
      | inr hr => exact hr.imp fun r hr => ⟨hr.1, hr.2.2⟩
  rw [hreasons, exists_tri_iff h, exists_ratio_iff h, ← and_or_left]
  apply and_congr_right
  intro _
  by_cases hvote : AtLeast triSourceMinVotes (DissentsOn F S s)
  · simp [hvote]
  · simp [hvote]

end Hledac.Knowledge.ConsistencyVerifier
