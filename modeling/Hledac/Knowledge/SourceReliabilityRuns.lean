import Hledac.Py.Round
import Hledac.Knowledge.SourceReliability

/-!
# Which sources stay known to the tracker

The counts stay in their bounds and the three ways to ask agree in every state. Forgetting a source forgets that it has
been retracted, marking a source passes over the bound on their number, and a batch counts claims without a source, so
these hold only in runs that do not come to it.
-/

namespace Hledac.Knowledge

open Hledac.Lib Hledac.Py

namespace SourceStats

/-- The bounds on the counts of a source. -/
structure InBounds (stats : SourceStats) : Prop where
  contradictions : stats.contradictionCount ≤ stats.totalClaims
  claims : stats.totalClaims ≤ maxClaimsPerSource

variable {stats : SourceStats}

theorem inBounds_new : InBounds {} := ⟨Nat.le_refl _, Nat.zero_le _⟩

theorem InBounds.countClaim (h : stats.InBounds) (contradictory : Bool) :
    (stats.countClaim contradictory).InBounds := by
  obtain ⟨hle, hcap⟩ := h
  have hone : (if contradictory then 1 else 0) ≤ 1 := by split <;> omega
  rw [SourceStats.countClaim]
  rw [maxClaimsPerSource] at hcap
  split
  · next hlt =>
    rw [maxClaimsPerSource] at hlt
    exact ⟨Nat.add_le_add hle hone, hlt⟩
  · exact ⟨Nat.add_le_add (Nat.div_le_div_right hle) hone, by simp only [maxClaimsPerSource]; omega⟩

theorem InBounds.countContradiction (h : stats.InBounds) : stats.countContradiction.InBounds := by
  rw [SourceStats.countContradiction]
  split
  · next hlt => exact ⟨Nat.succ_le_succ h.contradictions, hlt⟩
  · exact h

theorem InBounds.countDecision (h : stats.InBounds) (reason : String) (now : ℚ) :
    (stats.countDecision reason now).InBounds := by
  have hfirst : InBounds { stats.countContradiction with lastUpdated := now } :=
    ⟨h.countContradiction.contradictions, h.countContradiction.claims⟩
  simp only [SourceStats.countDecision]
  split
  · exact hfirst.countContradiction
  · exact hfirst

theorem autoRetracted_countClaim (contradictory : Bool) :
    (stats.countClaim contradictory).autoRetracted = stats.autoRetracted := by
  rw [SourceStats.countClaim]
  split <;> rfl

theorem autoRetracted_countContradiction : stats.countContradiction.autoRetracted = stats.autoRetracted := by
  rw [SourceStats.countContradiction]
  split <;> rfl

theorem autoRetracted_countDecision (reason : String) (now : ℚ) :
    (stats.countDecision reason now).autoRetracted = stats.autoRetracted := by
  simp only [SourceStats.countDecision]
  split
  · exact autoRetracted_countContradiction.trans autoRetracted_countContradiction
  · exact autoRetracted_countContradiction

theorem InBounds.lt_roundTo_iff (h : stats.InBounds) (hpos : 0 < stats.totalClaims) :
    autoRetractRatio < roundTo 4 stats.ratio ↔ autoRetractRatio < stats.ratio := by
  have htotal : (0 : ℚ) < stats.totalClaims := Nat.cast_pos.2 hpos
  have hcap : (stats.totalClaims : ℚ) ≤ 1000 := by exact_mod_cast h.claims
  constructor
  · intro hround
    by_contra hle
    rw [not_lt] at hle
    have hround' : roundTo 4 stats.ratio ≤ ((3000 : ℤ) : ℚ) / 10 ^ 4 :=
      roundTo_le (hle.trans (by norm_num [autoRetractRatio]))
    exact absurd (hround.trans_le hround') (by norm_num [autoRetractRatio])
  · intro hlt
    have habove : ((3001 : ℤ) : ℚ) / 10 ^ 4 ≤ stats.ratio := by
      rw [SourceStats.ratio, autoRetractRatio, lt_div_iff₀ htotal] at hlt
      have hnat : 3 * stats.totalClaims < 10 * stats.contradictionCount := by
        have hcast : (3 * stats.totalClaims : ℚ) < 10 * stats.contradictionCount := by linarith
        exact_mod_cast hcast
      have hsucc : (3 * stats.totalClaims + 1 : ℚ) ≤ 10 * stats.contradictionCount := by exact_mod_cast hnat
      rw [SourceStats.ratio, le_div_iff₀ htotal]
      norm_num
      linarith
    exact lt_of_lt_of_le (by norm_num [autoRetractRatio]) (le_roundTo habove)

end SourceStats

namespace Tracker

variable {clock : Nat → ℚ} {t : Tracker} {sourceId j : String}

/-! ### Tracking a source -/

/-- The source that makes way when another is tracked. -/
def evicted? (t : Tracker) (sourceId : String) : Option String :=
  if (t.sources.get? sourceId).isSome then none
  else if maxTrackedSources ≤ t.sources.size then t.oldest?
  else none

theorem mem_keys_of_oldest? (h : t.oldest? = some j) : j ∈ t.sources.keys := by
  rw [oldest?, Option.map_eq_some_iff] at h
  obtain ⟨e, he, rfl⟩ := h
  exact List.mem_map_of_mem (List.argmin_mem he)

theorem exists_oldest? (h : 0 < t.sources.size) : ∃ oldest, t.oldest? = some oldest := by
  rw [← Option.isSome_iff_exists, oldest?, Option.isSome_map, Option.isSome_iff_ne_none, Ne, List.argmin_eq_none]
  exact List.ne_nil_of_length_pos h

theorem track_of_some {stats : SourceStats} (h : t.sources.get? sourceId = some stats) :
    t.track clock sourceId = t := by
  rw [track, h]

theorem sources_track_of_none (h : t.sources.get? sourceId = none) :
    (t.track clock sourceId).sources =
      (if maxTrackedSources ≤ t.sources.size then t.evictLru clock else t).sources.insert sourceId {} := by
  rw [track, h]

theorem sources_evictLru (clock : Nat → ℚ) (h : 0 < t.sources.size) :
    ∃ oldest, t.oldest? = some oldest ∧ (t.evictLru clock).sources = t.sources.erase oldest := by
  obtain ⟨oldest, ho⟩ := exists_oldest? h
  refine ⟨oldest, ho, ?_⟩
  rw [evictLru, ho]

theorem get?_track_self :
    (t.track clock sourceId).sources.get? sourceId = some ((t.sources.get? sourceId).getD {}) := by
  cases h : t.sources.get? sourceId with
  | none => rw [sources_track_of_none h, Dict.get?_insert_self, Option.getD_none]
  | some stats => rw [track_of_some h, h, Option.getD_some]

theorem get?_track_of_ne (h : sourceId ≠ j) :
    (t.track clock sourceId).sources.get? j =
      if t.evicted? sourceId = some j then none else t.sources.get? j := by
  rw [evicted?]
  cases hs : t.sources.get? sourceId with
  | some stats => simp [track_of_some hs]
  | none =>
    rw [sources_track_of_none hs, Dict.get?_insert_of_ne h]
    simp only [Option.isSome_none, Bool.false_eq_true, if_false]
    split
    · next hfull =>
      obtain ⟨oldest, ho, hsources⟩ := sources_evictLru clock (lt_of_lt_of_le (by decide) hfull)
      rw [hsources, ho, Dict.get?_erase]
      simp only [Option.some_inj]
    · simp

theorem size_track_le (h : t.sources.size ≤ maxTrackedSources) :
    (t.track clock sourceId).sources.size ≤ maxTrackedSources := by
  cases hs : t.sources.get? sourceId with
  | some stats => rwa [track_of_some hs]
  | none =>
    rw [sources_track_of_none hs]
    split
    · next hfull =>
      have hpos : 0 < t.sources.size := lt_of_lt_of_le (by decide) hfull
      obtain ⟨oldest, ho, hsources⟩ := sources_evictLru clock hpos
      have herase := Dict.size_erase (mem_keys_of_oldest? ho)
      rw [hsources, Dict.size_insert]
      split <;> omega
    · rw [Dict.size_insert, if_neg (Dict.notMem_keys_iff.2 hs)]
      omega

theorem enabled_track : (t.track clock sourceId).enabled = t.enabled := by
  rw [track]
  split
  · rfl
  · split
    · rw [evictLru]
      split <;> rfl
    · rfl

/-! ### Changing a source -/

variable {change : SourceStats → SourceStats}

theorem sources_update :
    (t.update sourceId change).sources.size = t.sources.size ∧
      ∀ j, (t.update sourceId change).sources.get? j =
        if sourceId = j then (t.sources.get? j).map change else t.sources.get? j := by
  rw [update]
  cases hs : t.sources.get? sourceId with
  | none =>
    refine ⟨rfl, fun j => ?_⟩
    show t.sources.get? j = _
    split
    · next hj => rw [← hj, hs, Option.map_none]
    · rfl
  | some stats =>
    refine ⟨?_, fun j => ?_⟩
    · exact (Dict.size_insert).trans (if_pos (Dict.mem_keys_of_get? hs))
    · show (t.sources.insert sourceId (change stats)).get? j = _
      rw [Dict.get?_insert]
      split
      · next hj => rw [← hj, hs, Option.map_some]
      · rfl

theorem enabled_update : (t.update sourceId change).enabled = t.enabled := by
  rw [update]
  split <;> rfl

/-! ### What holds in every run -/

/-- The tracker is enabled, and the counts of its sources are in their bounds. -/
structure Sound (t : Tracker) : Prop where
  enabled : t.enabled = true
  counts : ∀ s stats, t.sources.get? s = some stats → stats.InBounds

/-- What a change of the counts leaves alone. -/
structure Bounded (change : ℚ → SourceStats → SourceStats) : Prop where
  counts : ∀ now stats, stats.InBounds → (change now stats).InBounds
  autoRetracted : ∀ now stats, (change now stats).autoRetracted = stats.autoRetracted

theorem bounded_countClaim (contradictory : Bool) :
    Bounded fun now s => { s.countClaim contradictory with lastUpdated := now } where
  counts _ _ h := ⟨(h.countClaim contradictory).contradictions, (h.countClaim contradictory).claims⟩
  autoRetracted _ _ := SourceStats.autoRetracted_countClaim contradictory

theorem bounded_countDecision (reason : String) : Bounded (SourceStats.countDecision reason) where
  counts now _ h := h.countDecision reason now
  autoRetracted now _ := SourceStats.autoRetracted_countDecision reason now

theorem get?_charge {change : ℚ → SourceStats → SourceStats} :
    (t.charge clock sourceId change).sources.get? j =
      if sourceId = j then
        some (change (clock (t.track clock sourceId).readings) ((t.sources.get? sourceId).getD {}))
      else if t.evicted? sourceId = some j then none
      else t.sources.get? j := by
  rw [charge]
  refine (sources_update.2 j).trans ?_
  split
  · next h => rw [← h, get?_track_self, Option.map_some]
  · next h => exact get?_track_of_ne h

theorem Sound.charge (h : t.Sound) {change : ℚ → SourceStats → SourceStats} (hchange : Bounded change) :
    (t.charge clock sourceId change).Sound := by
  refine ⟨enabled_update.trans (enabled_track.trans h.enabled), ?_⟩
  intro s stats hs
  rw [get?_charge] at hs
  split at hs
  · rw [← Option.some_inj.1 hs]
    apply hchange.counts
    cases hold : t.sources.get? sourceId with
    | none => exact SourceStats.inBounds_new
    | some old => exact h.counts _ old hold
  · split at hs
    · cases hs
    · exact h.counts s stats hs

theorem Sound.claimed (h : t.Sound) (claim : String × Bool) : (t.claimed clock claim).Sound :=
  have hcounted : Sound { t with stats := { t.stats with
      claimsRecorded := t.stats.claimsRecorded + 1
      contradictionsRecorded := t.stats.contradictionsRecorded + if claim.2 then 1 else 0 } } := ⟨h.enabled, h.counts⟩
  hcounted.charge (bounded_countClaim claim.2)

theorem Sound.decided (h : t.Sound) (decision : RetractionDecision) : (t.decided clock decision).Sound := by
  simp only [Tracker.decided]
  split
  · exact h
  · exact h.charge (bounded_countDecision _)

theorem get?_markAutoRetracted (henabled : t.enabled = true) (hs : sourceId ≠ "") :
    (t.markAutoRetracted clock sourceId).2.sources.get? j =
      if sourceId = j then
        some { (t.sources.get? sourceId).getD {} with autoRetracted := true, autoRetractedAt := clock t.readings }
      else t.sources.get? j := by
  have hcond : (!t.enabled || decide (sourceId = "")) = false := by rw [henabled, decide_eq_false hs]; rfl
  simp only [markAutoRetracted, hcond]
  refine (sources_update.2 j).trans ?_
  cases hold : t.sources.get? sourceId with
  | none =>
    show (if sourceId = j then ((t.sources.insert sourceId {}).get? j).map _ else _) = _
    split
    · next h => rw [← h, Dict.get?_insert_self]; rfl
    · next h => exact Dict.get?_insert_of_ne h
  | some old =>
    show (if sourceId = j then (t.sources.get? j).map _ else _) = _
    split
    · next h => rw [← h, hold]; rfl
    · rfl

theorem markAutoRetracted_of_empty : (t.markAutoRetracted clock "").2 = t := by
  rw [markAutoRetracted, decide_eq_true rfl, Bool.or_true]
  rfl

theorem size_markAutoRetracted_le (hsize : t.sources.size ≤ maxTrackedSources)
    (h : (t.sources.get? sourceId).isSome = true ∨ t.sources.size < maxTrackedSources) :
    (t.markAutoRetracted clock sourceId).2.sources.size ≤ maxTrackedSources := by
  simp only [markAutoRetracted]
  split
  · exact hsize
  · refine sources_update.1.trans_le ?_
    split
    · exact hsize
    · next hnew =>
      show (t.sources.insert sourceId {}).size ≤ _
      rw [Dict.size_insert]
      have hlt := h.resolve_left hnew
      split <;> omega

theorem enabled_markAutoRetracted : (t.markAutoRetracted clock sourceId).2.enabled = t.enabled := by
  simp only [markAutoRetracted]
  split
  · rfl
  · refine enabled_update.trans ?_
    split <;> rfl

theorem Sound.markAutoRetracted (h : t.Sound) : (t.markAutoRetracted clock sourceId).2.Sound := by
  by_cases hempty : sourceId = ""
  · rw [hempty, markAutoRetracted_of_empty]
    exact h
  · refine ⟨enabled_markAutoRetracted.trans h.enabled, ?_⟩
    intro s stats hs
    rw [get?_markAutoRetracted h.enabled hempty] at hs
    split at hs
    · rw [← Option.some_inj.1 hs]
      cases hold : t.sources.get? sourceId with
      | none => exact ⟨Nat.le_refl _, Nat.zero_le _⟩
      | some old => exact ⟨(h.counts _ old hold).contradictions, (h.counts _ old hold).claims⟩
    · exact h.counts s stats hs

theorem recordClaim_eq (henabled : t.enabled = true) {contradictory : Bool} (hs : sourceId ≠ "") :
    t.recordClaim clock sourceId contradictory = t.claimed clock (sourceId, contradictory) := by
  rw [recordClaim, henabled, decide_eq_false hs]
  rfl

theorem recordBatch_eq (henabled : t.enabled = true) (claims : List (String × Bool)) :
    t.recordBatch clock claims = claims.foldl (claimed clock) t := by
  rw [recordBatch, henabled]
  cases claims with
  | nil => rfl
  | cons claim claims => rfl

theorem recordDecisions_eq (henabled : t.enabled = true) (decisions : List RetractionDecision) :
    t.recordDecisions clock decisions = decisions.foldl (decided clock) t := by
  rw [recordDecisions, henabled]
  cases decisions with
  | nil => rfl
  | cons decision decisions => rfl

theorem Sound.step (h : t.Sound) (call : TrackerCall) : (t.step clock call).Sound := by
  cases call with
  | recordClaim sourceId contradictory =>
    rw [Tracker.step, recordClaim]
    split
    · exact h
    · exact h.claimed _
  | recordBatch claims =>
    rw [Tracker.step, recordBatch_eq h.enabled]
    exact foldl_invariant (I := Sound) (fun t claim ht => Sound.claimed ht claim) claims h
  | recordDecisions decisions =>
    rw [Tracker.step, recordDecisions_eq h.enabled]
    exact foldl_invariant (I := Sound) (fun t decision ht => Sound.decided ht decision) decisions h
  | markAutoRetracted sourceId => exact h.markAutoRetracted

theorem sound_new : Sound {} := ⟨rfl, fun _ _ h => nomatch h⟩

theorem sound_run (clock : Nat → ℚ) (calls : List TrackerCall) : (run clock calls).Sound :=
  foldl_invariant (I := Sound) (fun _ call h => Sound.step h call) calls sound_new

/-! ### The three ways to ask -/

/-- A source is to be retracted: it has not been so far, and its ratio of enough claims is above the threshold. -/
def Unreliable (stats : SourceStats) : Prop :=
  stats.autoRetracted = false ∧ autoRetractMinClaims ≤ stats.totalClaims ∧ autoRetractRatio < stats.ratio

theorem shouldAutoRetract_iff (henabled : t.enabled = true) (hs : sourceId ≠ "") :
    t.shouldAutoRetract sourceId = true ↔ ∃ s, t.sources.get? sourceId = some s ∧ Unreliable s := by
  have hcond : (!t.enabled || decide (sourceId = "")) = false := by rw [henabled, decide_eq_false hs]; rfl
  simp only [shouldAutoRetract, hcond]
  cases hold : t.sources.get? sourceId with
  | none => simp
  | some stats =>
    simp only [Option.some.injEq, exists_eq_left', Unreliable]
    cases hmarked : stats.autoRetracted <;> simp

theorem Sound.getReliability_iff (h : t.Sound) (hs : sourceId ≠ "") :
    (t.getReliability sourceId).shouldAutoRetract = true ↔
      ∃ s, t.sources.get? sourceId = some s ∧ Unreliable s := by
  have hcond : (!t.enabled || decide (sourceId = "")) = false := by rw [h.enabled, decide_eq_false hs]; rfl
  simp only [getReliability, hcond]
  cases hold : t.sources.get? sourceId with
  | none => simp [SourceReliability.shouldAutoRetract, SourceReliability.isReliable, autoRetractMinClaims]
  | some stats =>
    simp only [Option.some.injEq, exists_eq_left', Unreliable]
    by_cases hfew : stats.totalClaims < autoRetractMinClaims
    · simp [SourceReliability.shouldAutoRetract, SourceReliability.isReliable, hfew]
    · have hpos : 0 < stats.totalClaims := lt_of_lt_of_le (by decide) (not_lt.1 hfew)
      have hround := (h.counts _ stats hold).lt_roundTo_iff hpos
      simp [SourceReliability.shouldAutoRetract, SourceReliability.isReliable, hfew, hpos, hround, not_lt.1 hfew,
        and_comm]

theorem unreliable?_eq_some_iff {e : String × SourceStats} :
    (∃ r, unreliable? e = some r ∧ r.sourceId = sourceId) ↔ e.1 = sourceId ∧ Unreliable e.2 := by
  obtain ⟨s, stats⟩ := e
  rw [unreliable?, Unreliable]
  cases hmarked : stats.autoRetracted <;> by_cases hfew : stats.totalClaims < autoRetractMinClaims <;>
    by_cases hratio : autoRetractRatio < stats.ratio <;> simp [hfew, hratio]
  all_goals omega

theorem mem_getUnreliableSources_iff :
    (∃ r ∈ t.getUnreliableSources, r.sourceId = sourceId) ↔
      ∃ s, t.sources.get? sourceId = some s ∧ Unreliable s := by
  simp only [getUnreliableSources, List.mem_mergeSort, List.mem_filterMap]
  constructor
  · intro h
    obtain ⟨r, ⟨e, he, hr⟩, hid⟩ := h
    obtain ⟨rfl, hunreliable⟩ := unreliable?_eq_some_iff.1 ⟨r, hr, hid⟩
    exact ⟨e.2, Dict.get?_eq_some_iff.2 he, hunreliable⟩
  · intro h
    obtain ⟨stats, hstats, hunreliable⟩ := h
    obtain ⟨r, hr, hid⟩ := (unreliable?_eq_some_iff (e := (sourceId, stats))).2 ⟨rfl, hunreliable⟩
    exact ⟨r, ⟨_, Dict.get?_eq_some_iff.1 hstats, hr⟩, hid⟩

/-! ### What holds in careful runs -/

/-- Tracking the source does not forget one that has been retracted. -/
def Spares (t : Tracker) (sourceId : String) : Prop :=
  ∀ o stats, t.evicted? sourceId = some o → t.sources.get? o = some stats → stats.autoRetracted = false

/-- The call forgets no retracted source, marks no new source in a full tracker, and its batch has no empty source. -/
def Careful (clock : Nat → ℚ) (t : Tracker) : TrackerCall → Prop
  | .recordClaim sourceId _ => sourceId ≠ "" → t.Spares sourceId
  | .recordBatch claims =>
    (∀ p ∈ claims, p.1 ≠ "") ∧ StepsMeet (claimed clock) (fun t p => t.Spares p.1) t claims
  | .recordDecisions decisions =>
    StepsMeet (decided clock) (fun t d => d.sourceId.getD "" ≠ "" → t.Spares (d.sourceId.getD "")) t decisions
  | .markAutoRetracted sourceId =>
    sourceId ≠ "" → (t.sources.get? sourceId).isSome = true ∨ t.sources.size < maxTrackedSources

/-- The sources that the calls mark as retracted. -/
def marked (calls : List TrackerCall) : Set String := {s | s ≠ "" ∧ .markAutoRetracted s ∈ calls}

/-- The tracker is no larger than it may be, and knows of the given sources that they are retracted. -/
structure Kept (marks : Set String) (t : Tracker) : Prop extends t.Sound where
  size : t.sources.size ≤ maxTrackedSources
  marks : ∀ s ∈ marks, ∃ stats, t.sources.get? s = some stats ∧ stats.autoRetracted = true

variable {marks : Set String}

theorem Kept.charge (h : t.Kept marks) (hspares : t.Spares sourceId) {change : ℚ → SourceStats → SourceStats}
    (hchange : Bounded change) : (t.charge clock sourceId change).Kept marks := by
  refine ⟨h.toSound.charge hchange, ?_, ?_⟩
  · exact sources_update.1.trans_le (size_track_le h.size)
  · intro s hs
    obtain ⟨stats, hstats, hretracted⟩ := h.marks s hs
    rw [get?_charge]
    split
    · next heq =>
      refine ⟨_, rfl, ?_⟩
      rw [hchange.autoRetracted, heq, hstats]
      exact hretracted
    split
    · next hout => rw [hspares s stats hout hstats] at hretracted; cases hretracted
    · exact ⟨stats, hstats, hretracted⟩

theorem Kept.claimed (h : t.Kept marks) {claim : String × Bool} (hspares : t.Spares claim.1) :
    (t.claimed clock claim).Kept marks :=
  have hcounted : Kept marks { t with stats := { t.stats with
      claimsRecorded := t.stats.claimsRecorded + 1
      contradictionsRecorded := t.stats.contradictionsRecorded + if claim.2 then 1 else 0 } } :=
    ⟨⟨h.enabled, h.counts⟩, h.size, h.marks⟩
  hcounted.charge hspares (bounded_countClaim claim.2)

theorem Kept.decided (h : t.Kept marks) {decision : RetractionDecision}
    (hspares : decision.sourceId.getD "" ≠ "" → t.Spares (decision.sourceId.getD "")) :
    (t.decided clock decision).Kept marks := by
  simp only [Tracker.decided]
  split
  · exact h
  · next hs => exact h.charge (hspares hs) (bounded_countDecision _)

theorem Kept.markAutoRetracted (h : t.Kept marks) (hs : sourceId ≠ "")
    (hroom : (t.sources.get? sourceId).isSome = true ∨ t.sources.size < maxTrackedSources) :
    (t.markAutoRetracted clock sourceId).2.Kept (insert sourceId marks) := by
  refine ⟨h.toSound.markAutoRetracted, size_markAutoRetracted_le h.size hroom, ?_⟩
  intro s hmem
  rw [get?_markAutoRetracted h.enabled hs]
  split
  · exact ⟨_, rfl, rfl⟩
  · next hne => exact h.marks s (Set.mem_of_mem_insert_of_ne hmem (Ne.symm hne))

theorem marked_append (calls : List TrackerCall) (call : TrackerCall) :
    marked (calls ++ [call]) = marked calls ∪ marked [call] := by
  ext s
  simp only [marked, Set.mem_ofPred_eq, Set.mem_union, List.mem_append]
  tauto

theorem Kept.step (h : t.Kept marks) {call : TrackerCall} (hcareful : t.Careful clock call) :
    (t.step clock call).Kept (marks ∪ marked [call]) := by
  cases call with
  | recordClaim sourceId contradictory =>
    have hnone : marked [.recordClaim sourceId contradictory] = ∅ := by ext s; simp [marked]
    rw [hnone, Set.union_empty, Tracker.step]
    by_cases hs : sourceId = ""
    · rw [hs, recordClaim, decide_eq_true rfl, Bool.or_true]
      exact h
    · rw [recordClaim_eq h.enabled hs]
      exact h.claimed (hcareful hs)
  | recordBatch claims =>
    have hnone : marked [.recordBatch claims] = ∅ := by ext s; simp [marked]
    rw [hnone, Set.union_empty, Tracker.step, recordBatch_eq h.enabled]
    exact hcareful.2.invariant (fun t p ht hp => Kept.claimed ht hp) h
  | recordDecisions decisions =>
    have hnone : marked [.recordDecisions decisions] = ∅ := by ext s; simp [marked]
    rw [hnone, Set.union_empty, Tracker.step, recordDecisions_eq h.enabled]
    exact hcareful.invariant (fun t d ht hd => Kept.decided ht hd) h
  | markAutoRetracted sourceId =>
    by_cases hs : sourceId = ""
    · have hnone : marked [.markAutoRetracted sourceId] = ∅ := by ext s; simp [marked, hs]
      rw [hnone, Set.union_empty, Tracker.step, hs, markAutoRetracted_of_empty]
      exact h
    · have hone : marked [.markAutoRetracted sourceId] = {sourceId} := by
        ext s
        simp only [marked, List.mem_singleton, Set.mem_ofPred_eq, TrackerCall.markAutoRetracted.injEq,
          Set.mem_singleton_iff]
        exact ⟨fun hmem => hmem.2, fun heq => ⟨heq ▸ hs, heq⟩⟩
      rw [hone, Set.union_singleton]
      exact h.markAutoRetracted hs (hcareful hs)

theorem kept_run {calls : List TrackerCall} (h : StepsMeet (step clock) (Careful clock) {} calls) :
    (run clock calls).Kept (marked calls) := by
  induction calls using List.reverseRecOn with
  | nil => exact ⟨sound_new, Nat.zero_le _, fun s hs => absurd hs.2 List.not_mem_nil⟩
  | append_singleton calls call ih =>
    obtain ⟨hcalls, hcall⟩ := stepsMeet_concat.1 h
    rw [marked_append, run, List.foldl_append]
    exact (ih hcalls).step hcall

theorem recordBatch_eq_foldl (henabled : t.enabled = true) {claims : List (String × Bool)}
    (h : ∀ p ∈ claims, p.1 ≠ "") :
    t.recordBatch clock claims = claims.foldl (fun t p => t.recordClaim clock p.1 p.2) t := by
  rw [recordBatch_eq henabled]
  induction claims generalizing t with
  | nil => rfl
  | cons claim claims ih =>
    obtain ⟨hclaim, hclaims⟩ := List.forall_mem_cons.1 h
    have hnext : (t.claimed clock claim).enabled = true := enabled_update.trans (enabled_track.trans henabled)
    rw [List.foldl_cons, List.foldl_cons, ih hnext hclaims, recordClaim_eq henabled hclaim]

theorem claimsRecorded_claimed (claim : String × Bool) :
    (t.claimed clock claim).stats.claimsRecorded = t.stats.claimsRecorded + 1 := by
  have htrack : ∀ t : Tracker, (t.track clock claim.1).stats.claimsRecorded = t.stats.claimsRecorded := by
    intro t
    rw [track]
    split
    · rfl
    · split
      · rw [evictLru]
        split <;> rfl
      · rfl
  have hupdate : ∀ (t : Tracker) (change : SourceStats → SourceStats),
      (t.update claim.1 change).stats = t.stats := by
    intro t change
    rw [update]
    split <;> rfl
  refine (congrArg TrackerStats.claimsRecorded (hupdate _ _)).trans ?_
  exact htrack _

theorem claimsRecorded_foldl (henabled : t.enabled = true) (claims : List (String × Bool)) :
    (claims.foldl (fun t p => t.recordClaim clock p.1 p.2) t).stats.claimsRecorded =
      t.stats.claimsRecorded + claims.countP fun p => !decide (p.1 = "") := by
  induction claims generalizing t with
  | nil => rfl
  | cons claim claims ih =>
    rw [List.foldl_cons, List.countP_cons]
    by_cases hs : claim.1 = ""
    · have hskip : t.recordClaim clock claim.1 claim.2 = t := by
        rw [recordClaim, decide_eq_true hs, Bool.or_true]
        rfl
      rw [hskip, ih henabled, decide_eq_true hs]
      rfl
    · have hnext : (t.claimed clock claim).enabled = true := enabled_update.trans (enabled_track.trans henabled)
      rw [recordClaim_eq henabled hs, ih hnext, claimsRecorded_claimed, decide_eq_false hs]
      simp only [Bool.not_false, if_true]
      omega

theorem recordBatch_eq_foldl_iff (henabled : t.enabled = true) {claims : List (String × Bool)} :
    t.recordBatch clock claims = claims.foldl (fun t p => t.recordClaim clock p.1 p.2) t ↔
      ∀ p ∈ claims, p.1 ≠ "" := by
  refine ⟨fun h => ?_, recordBatch_eq_foldl henabled⟩
  have hbatch : ∀ (claims : List (String × Bool)) (t : Tracker),
      (claims.foldl (claimed clock) t).stats.claimsRecorded = t.stats.claimsRecorded + claims.length := by
    intro claims
    induction claims with
    | nil => exact fun _ => rfl
    | cons claim claims ih =>
      intro t
      rw [List.foldl_cons, ih, claimsRecorded_claimed, List.length_cons]
      omega
  have hcounts := congrArg (fun t => t.stats.claimsRecorded) h
  simp only [recordBatch_eq henabled, hbatch, claimsRecorded_foldl henabled] at hcounts
  have hall := List.countP_eq_length.1 (Nat.add_left_cancel hcounts).symm
  intro p hp hs
  have hp' := hall p hp
  rw [decide_eq_true hs] at hp'
  cases hp'

theorem size_markAutoRetracted_of_full (henabled : t.enabled = true) (hs : sourceId ≠ "")
    (hnew : t.sources.get? sourceId = none) (hfull : t.sources.size = maxTrackedSources) :
    (t.markAutoRetracted clock sourceId).2.sources.size = maxTrackedSources + 1 := by
  have hcond : (!t.enabled || decide (sourceId = "")) = false := by rw [henabled, decide_eq_false hs]; rfl
  simp only [markAutoRetracted, hcond, hnew, Option.isSome_none, Bool.false_eq_true, if_false]
  refine sources_update.1.trans ?_
  show (t.sources.insert sourceId {}).size = _
  rw [Dict.size_insert, if_neg (Dict.notMem_keys_iff.2 hnew), hfull]

/-- The books are in order after the calls. -/
structure InOrder (clock : Nat → ℚ) (calls : List TrackerCall) : Prop where
  counts : ∀ s stats, (run clock calls).sources.get? s = some stats →
    stats.contradictionCount ≤ stats.totalClaims ∧ stats.totalClaims ≤ maxClaimsPerSource
  size : (run clock calls).sources.size ≤ maxTrackedSources
  batch : ∀ before claims, before ++ [.recordBatch claims] <+: calls →
    (run clock before).recordBatch clock claims =
      claims.foldl (fun t p => t.recordClaim clock p.1 p.2) (run clock before)
  retracted : ∀ s, s ≠ "" → .markAutoRetracted s ∈ calls → (run clock calls).shouldAutoRetract s = false
  snapshot : ∀ s, s ≠ "" →
    ((run clock calls).getReliability s).shouldAutoRetract = (run clock calls).shouldAutoRetract s
  listed : ∀ s, s ≠ "" →
    ((∃ r ∈ (run clock calls).getUnreliableSources, r.sourceId = s) ↔ (run clock calls).shouldAutoRetract s = true)

/-- The books are in order throughout a careful run. -/
theorem inOrder_of_careful {calls : List TrackerCall} (h : StepsMeet (step clock) (Careful clock) {} calls) :
    ∀ before, before <+: calls → InOrder clock before := by
  intro before hbefore
  have hrun : StepsMeet (step clock) (Careful clock) {} before := by
    obtain ⟨after, rfl⟩ := hbefore
    exact (stepsMeet_append.1 h).1
  have hkept := kept_run hrun
  constructor
  · exact fun s stats hs => ⟨(hkept.counts s stats hs).contradictions, (hkept.counts s stats hs).claims⟩
  · exact hkept.size
  · intro start claims hstart
    have hcareful := stepsMeet_iff_forall_concat.1 hrun start _ hstart
    exact recordBatch_eq_foldl (sound_run clock start).enabled hcareful.1
  · intro s hs hmark
    obtain ⟨stats, hstats, hretracted⟩ := hkept.marks s ⟨hs, hmark⟩
    rw [Bool.eq_false_iff, Ne, shouldAutoRetract_iff hkept.enabled hs]
    intro hreported
    obtain ⟨stats', hstats', hunreliable⟩ := hreported
    rw [hstats, Option.some_inj] at hstats'
    rw [hstats', hunreliable.1] at hretracted
    cases hretracted
  · intro s hs
    rw [Bool.eq_iff_iff, hkept.getReliability_iff hs, shouldAutoRetract_iff hkept.enabled hs]
  · intro s hs
    rw [mem_getUnreliableSources_iff, shouldAutoRetract_iff hkept.enabled hs]

theorem inOrder_claim_mark : InOrder (fun n => n) [.recordClaim "a" true, .markAutoRetracted "a"] := by
  have hcareful : StepsMeet (step fun n => n) (Careful fun n => n) {}
      [.recordClaim "a" true, .markAutoRetracted "a"] := by
    refine ⟨?_, fun _ => .inl (by decide), trivial⟩
    intro _ o stats ho
    cases ho
  exact inOrder_of_careful hcareful _ (List.prefix_refl _)

/-- A batch counts a claim without a source. -/
theorem not_inOrder : ¬ InOrder (fun n => n) [.recordBatch [("", true)]] := by
  intro h
  have hbatch := congrArg (fun t => t.stats.claimsRecorded) (h.batch [] [("", true)] (List.prefix_refl _))
  exact absurd hbatch (by decide)

end Tracker

end Hledac.Knowledge
