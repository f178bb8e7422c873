import Mathlib.Algebra.Order.Ring.Rat
import Mathlib.Order.Bounds.Basic
import Hledac.Lib.CappedTally

/-!
# The profile of a target

`build_target_profile` of `knowledge/sprint_diff_engine.py` sums up the findings of a sprint and extends the profile of
the sprints before it. The tallies of a summary take in nothing more once they hold as many keys as they may, known
keys included.
-/

namespace Hledac.Knowledge

open Hledac.Lib

namespace TargetProfile

/-- The entries of a finding that are tallied; `iocType` is `none` where there is no entry. -/
structure Finding where
  iocType : Option (Option String) := none
  sourceType : Option String := none
  source : Option String := none
  deriving DecidableEq

/-- `MAX_PROFILE_ENTRIES`; line 40. -/
def maxProfileEntries : Nat := 500

/-- `text or other`. -/
def orElse (text : Option String) (other : String) : String :=
  match text with
  | some text => if text = "" then other else text
  | none => other

/-- `f.get("ioc_type") or "unknown"`. -/
def Finding.typeKey (f : Finding) : String := orElse f.iocType.join "unknown"

/-- `f.get("source_type") or f.get("source") or "unknown"`. -/
def Finding.sourceKey (f : Finding) : String := orElse f.sourceType (orElse f.source "unknown")

/-- The dictionary of `_compute_entity_summary`. -/
structure EntitySummary where
  total : Nat := 0
  byType : Dict String Nat := .empty
  bySource : Dict String Nat := .empty

/-- A tally takes in a key while it has fewer than it may. -/
def tallied (tally : Dict String Nat) (key : String) : Dict String Nat :=
  if tally.size < maxProfileEntries then tally.bump key else tally

/-- One pass of the loop; lines 312-325. -/
def EntitySummary.add (s : EntitySummary) (f : Finding) : EntitySummary where
  total := s.total + 1
  byType := tallied s.byType f.typeKey
  bySource := tallied s.bySource f.sourceKey

/-- `_compute_entity_summary`; lines 293-336. -/
def computeEntitySummary (findings : List Finding) : EntitySummary := findings.foldl EntitySummary.add {}

/-- `TargetProfileSummary`; lines 61-69. -/
structure TargetProfileSummary where
  targetId : String
  firstSeen : ℚ
  lastSeen : ℚ
  cumulativeFindingCount : Nat
  entitySummaryJson : String
  findingVelocity : ℚ
  entityTypes : Dict (Option String) Nat

/-- `build_target_profile`, over any `orjson.dumps`, which is `none` where it raises;
lines 182-263. -/
def buildTargetProfile (dumps : EntitySummary → Option String) (currentFindings : List Finding)
    (previousProfile : Option TargetProfileSummary) (targetId : String) (currentTs : ℚ) : TargetProfileSummary :=
  let firstSeen := match previousProfile with
    | some previous => if 0 < previous.firstSeen then min previous.firstSeen currentTs else currentTs
    | none => currentTs
  let prevCumulative := match previousProfile with
    | some previous => previous.cumulativeFindingCount
    | none => 0
  let cumulativeCount := prevCumulative + currentFindings.length
  { targetId
    firstSeen
    lastSeen := currentTs
    cumulativeFindingCount := cumulativeCount
    entitySummaryJson := (dumps (computeEntitySummary currentFindings)).getD "\x7b\x7d"
    findingVelocity := cumulativeCount / max ((currentTs - firstSeen) / 86400) 1
    entityTypes := Dict.tally (fun f => some (f.iocType.getD (some "unknown"))) currentFindings }

/-- A call of `build_target_profile`. -/
structure ProfileCall where
  findings : List Finding
  currentTs : ℚ

/-- The profile after the calls, each of which extends the profile of the one before it. -/
def threaded (dumps : EntitySummary → Option String) (targetId : String) (calls : List ProfileCall) :
    Option TargetProfileSummary :=
  calls.foldl (fun previous call => some (buildTargetProfile dumps call.findings previous targetId call.currentTs)) none

/-! ### What should hold -/

/-- A tally of the keys: it is bounded, it counts its keys, and its counts add up where it has them all. -/
structure TallyAddsUp (keys : List String) (tally : Dict String Nat) : Prop where
  size_le : tally.size ≤ maxProfileEntries
  counts : ∀ key count, tally.get? key = some count → count = keys.count key
  total : (∀ key ∈ keys, key ∈ tally.keys) → tally.total id = keys.length

/-- Both tallies of the findings add up to their number. -/
structure SummaryAddsUp (findings : List Finding) : Prop where
  total : (computeEntitySummary findings).total = findings.length
  byType : TallyAddsUp (findings.map Finding.typeKey) (computeEntitySummary findings).byType
  bySource : TallyAddsUp (findings.map Finding.sourceKey) (computeEntitySummary findings).bySource

/-- The profile after the calls counts all their findings and is as old as the first of them. -/
def ProfileAddsUp (dumps : EntitySummary → Option String) (targetId : String) (calls : List ProfileCall) : Prop :=
  ∀ profile, threaded dumps targetId calls = some profile →
    profile.cumulativeFindingCount = (calls.map (·.findings.length)).sum ∧
      IsLeast {t | t ∈ calls.map (·.currentTs)} profile.firstSeen

/-- Once a part of the keys has as many distinct ones as a tally may hold, none of them comes again. -/
def NoneAgain (keys : List String) : Prop :=
  ∀ before after, keys = before ++ after → before.toFinset.card = maxProfileEntries → ∀ key ∈ after, key ∉ before

/-- Every time but the last is positive, or the last is the least. -/
def TimesPositive (calls : List ProfileCall) : Prop :=
  ∀ before last, calls = before ++ [last] →
    (∀ call ∈ before, 0 < call.currentTs) ∨ ∀ call ∈ before, last.currentTs ≤ call.currentTs

/-! ### The tallies -/

theorem computeEntitySummary_concat (findings : List Finding) (f : Finding) :
    computeEntitySummary (findings ++ [f]) = (computeEntitySummary findings).add f := by
  rw [computeEntitySummary, List.foldl_append]
  rfl

theorem computeEntitySummary_eq (findings : List Finding) : computeEntitySummary findings =
    { total := findings.length
      byType := Dict.tallyUpTo maxProfileEntries (findings.map Finding.typeKey)
      bySource := Dict.tallyUpTo maxProfileEntries (findings.map Finding.sourceKey) } := by
  induction findings using List.reverseRecOn with
  | nil => rfl
  | append_singleton findings f ih =>
    rw [computeEntitySummary_concat, ih, List.length_append, List.map_append, List.map_append]
    simp only [List.map_cons, List.map_nil, Dict.tallyUpTo_concat]
    rfl

theorem tallyAddsUp_iff (keys : List String) :
    TallyAddsUp keys (Dict.tallyUpTo maxProfileEntries keys) ↔ NoneAgain keys := by
  rw [NoneAgain, ← Dict.tallyUpTo_counts_iff]
  constructor
  · intro h
    exact h.counts
  · intro h
    exact ⟨Dict.size_tallyUpTo_le _ _, h, Dict.total_tallyUpTo h⟩

theorem summaryAddsUp_iff (findings : List Finding) :
    SummaryAddsUp findings ↔ NoneAgain (findings.map Finding.typeKey) ∧ NoneAgain (findings.map Finding.sourceKey) := by
  rw [← tallyAddsUp_iff, ← tallyAddsUp_iff]
  constructor
  · intro h
    have htype := h.byType
    have hsource := h.bySource
    rw [computeEntitySummary_eq] at htype hsource
    exact ⟨htype, hsource⟩
  · rintro ⟨htype, hsource⟩
    constructor <;> rw [computeEntitySummary_eq]
    · exact htype
    · exact hsource

/-! ### The profile -/

section Profile

variable {dumps : EntitySummary → Option String} {targetId : String} {calls before : List ProfileCall}
  {last : ProfileCall} {profile : TargetProfileSummary}

theorem threaded_concat : threaded dumps targetId (calls ++ [last]) =
    some (buildTargetProfile dumps last.findings (threaded dumps targetId calls) targetId last.currentTs) := by
  rw [threaded, List.foldl_append]
  rfl

theorem cumulativeFindingCount_threaded (h : threaded dumps targetId calls = some profile) :
    profile.cumulativeFindingCount = (calls.map (·.findings.length)).sum := by
  induction calls using List.reverseRecOn generalizing profile with
  | nil => cases h
  | append_singleton calls last ih =>
    rw [threaded_concat] at h
    obtain rfl := Option.some.inj h
    rw [List.map_append, List.sum_append]
    cases hprevious : threaded dumps targetId calls with
    | none =>
      have hnil : calls = [] := by
        rcases List.eq_nil_or_concat' calls with hnil | ⟨first, call, rfl⟩
        · exact hnil
        · rw [threaded_concat] at hprevious
          cases hprevious
      rw [hnil]
      rfl
    | some previous =>
      rw [← ih hprevious]
      rfl

theorem firstSeen_threaded (h : threaded dumps targetId (before ++ [last]) = some profile) :
    profile.firstSeen ∈ (before ++ [last]).map (·.currentTs) ∧ (0 < profile.firstSeen ↔ 0 < last.currentTs) ∧
      (profile.firstSeen = last.currentTs ∨
        ∃ previous, threaded dumps targetId before = some previous ∧ 0 < previous.firstSeen ∧
          profile.firstSeen = min previous.firstSeen last.currentTs) := by
  induction before using List.reverseRecOn generalizing last profile with
  | nil =>
    rw [threaded_concat] at h
    obtain rfl := Option.some.inj h
    exact ⟨List.mem_singleton_self _, .rfl, .inl rfl⟩
  | append_singleton before call ih =>
    rw [threaded_concat] at h
    obtain rfl := Option.some.inj h
    cases hprevious : threaded dumps targetId (before ++ [call]) with
    | none =>
      rw [threaded_concat] at hprevious
      cases hprevious
    | some previous =>
      have hmem := (ih hprevious).1
      have hlast : last.currentTs ∈ (before ++ [call] ++ [last]).map (·.currentTs) := by simp
      by_cases hpos : 0 < previous.firstSeen
      · have hmin : (buildTargetProfile dumps last.findings (some previous) targetId last.currentTs).firstSeen =
            min previous.firstSeen last.currentTs := if_pos hpos
        rw [hmin]
        refine ⟨?_, ?_, .inr ⟨previous, rfl, hpos, rfl⟩⟩
        · rcases min_choice previous.firstSeen last.currentTs with heq | heq
          · rw [heq, List.map_append]
            exact List.mem_append_left _ hmem
          · rw [heq]
            exact hlast
        · rw [lt_min_iff]
          exact ⟨And.right, fun hlast => ⟨hpos, hlast⟩⟩
      · have hts : (buildTargetProfile dumps last.findings (some previous) targetId last.currentTs).firstSeen =
            last.currentTs := if_neg hpos
        rw [hts]
        exact ⟨hlast, .rfl, .inl rfl⟩

theorem isLeast_firstSeen (h : threaded dumps targetId (before ++ [last]) = some profile)
    (hpos : ∀ call ∈ before, 0 < call.currentTs) :
    IsLeast {t | t ∈ (before ++ [last]).map (·.currentTs)} profile.firstSeen := by
  obtain ⟨hmem, -, hcases⟩ := firstSeen_threaded h
  refine ⟨hmem, ?_⟩
  induction before using List.reverseRecOn generalizing last profile with
  | nil =>
    intro t ht
    rcases hcases with heq | ⟨previous, hprevious, -, -⟩
    · rw [heq, List.mem_singleton.1 ht]
    · cases hprevious
  | append_singleton before call ih =>
    obtain ⟨previous, hprevious⟩ : ∃ previous, threaded dumps targetId (before ++ [call]) = some previous :=
      ⟨_, threaded_concat⟩
    obtain ⟨hmem', hpos', hcases'⟩ := firstSeen_threaded hprevious
    have hleast := ih hprevious (fun c hc => hpos c (List.mem_append_left _ hc)) hmem' hcases'
    have hseen : 0 < previous.firstSeen := hpos'.2 (hpos call (by simp))
    have hmin : profile.firstSeen = min previous.firstSeen last.currentTs := by
      rw [threaded_concat, hprevious] at h
      obtain rfl := Option.some.inj h
      exact if_pos hseen
    intro t ht
    rw [Set.mem_ofPred_eq, List.map_append, List.mem_append] at ht
    rw [hmin]
    rcases ht with ht | ht
    · exact (min_le_left _ _).trans (hleast ht)
    · rw [List.mem_singleton.1 ht]
      exact min_le_right _ _

theorem profileAddsUp_iff (dumps : EntitySummary → Option String) (targetId : String) (calls : List ProfileCall) :
    ProfileAddsUp dumps targetId calls ↔ TimesPositive calls := by
  constructor
  · rintro h before last rfl
    obtain ⟨profile, hprofile⟩ : ∃ profile, threaded dumps targetId (before ++ [last]) = some profile :=
      ⟨_, threaded_concat⟩
    have hleast := (h profile hprofile).2
    by_cases hpos : ∀ call ∈ before, 0 < call.currentTs
    · exact .inl hpos
    · right
      push Not at hpos
      obtain ⟨old, hold, hnonpos⟩ := hpos
      have hmem : ∀ call ∈ before, call.currentTs ∈ (before ++ [last]).map (·.currentTs) := fun call hcall =>
        List.mem_map_of_mem (List.mem_append_left _ hcall)
      -- a least time that is not positive can only be the last one
      have hlast : profile.firstSeen = last.currentTs := by
        rcases (firstSeen_threaded hprofile).2.2 with heq | ⟨previous, -, hseen, hmin⟩
        · exact heq
        · have hle := (hleast.2 (hmem old hold)).trans hnonpos
          rw [hmin] at hle ⊢
          rcases min_choice previous.firstSeen last.currentTs with heq | heq
          · exact absurd hseen (not_lt.2 (heq ▸ hle))
          · exact heq
      intro call hcall
      rw [← hlast]
      exact hleast.2 (hmem call hcall)
  · intro h profile hprofile
    refine ⟨cumulativeFindingCount_threaded hprofile, ?_⟩
    rcases List.eq_nil_or_concat' calls with rfl | ⟨before, last, rfl⟩
    · cases hprofile
    · rcases h before last rfl with hpos | hleast
      · exact isLeast_firstSeen hprofile hpos
      · obtain ⟨hmem, -, hcases⟩ := firstSeen_threaded hprofile
        refine ⟨hmem, ?_⟩
        have hle : profile.firstSeen ≤ last.currentTs := by
          rcases hcases with heq | ⟨previous, -, -, hmin⟩
          · exact heq.le
          · rw [hmin]
            exact min_le_right _ _
        intro t ht
        obtain ⟨call, hcall, rfl⟩ := List.mem_map.1 ht
        rcases List.mem_append.1 hcall with hcall | hcall
        · exact hle.trans (hleast call hcall)
        · rw [List.mem_singleton.1 hcall]
          exact hle

end Profile

/-- The tallies of findings add up when and only when no key comes again after a tally is full, and a profile when and
only when no time but the last, or the last and least, fails to be positive. -/
theorem addsUp_iff (dumps : EntitySummary → Option String) (targetId : String) (findings : List Finding)
    (calls : List ProfileCall) :
    SummaryAddsUp findings ∧ ProfileAddsUp dumps targetId calls ↔
      (NoneAgain (findings.map Finding.typeKey) ∧ NoneAgain (findings.map Finding.sourceKey)) ∧
        TimesPositive calls := by
  rw [summaryAddsUp_iff, profileAddsUp_iff]

/-- A finding whose type is a number of letters. -/
def lettersFinding (n : Nat) : Finding where
  iocType := some (some (String.ofList (List.replicate (n + 1) 'a')))

theorem typeKey_lettersFinding (n : Nat) :
    (lettersFinding n).typeKey = String.ofList (List.replicate (n + 1) 'a') := by
  apply if_neg
  intro h
  cases String.ofList_injective h

theorem typeKey_lettersFinding_injective : Function.Injective fun n => (lettersFinding n).typeKey := by
  intro m n h
  simp only [typeKey_lettersFinding] at h
  have hlength := congrArg List.length (String.ofList_injective h)
  simpa using hlength

/-- Five hundred types, and the first of them again. -/
theorem not_addsUp : ¬ ∀ (dumps : EntitySummary → Option String) (targetId : String) (findings : List Finding)
    (calls : List ProfileCall), SummaryAddsUp findings ∧ ProfileAddsUp dumps targetId calls := by
  intro h
  have hnone := ((summaryAddsUp_iff _).1 (h (fun _ => none) ""
    ((List.range maxProfileEntries).map lettersFinding ++ [lettersFinding 0]) []).1).1
  have hfirst : (lettersFinding 0).typeKey ∈
      ((List.range maxProfileEntries).map lettersFinding).map Finding.typeKey := by
    apply List.mem_map_of_mem
    apply List.mem_map_of_mem
    rw [List.mem_range]
    decide
  refine hnone _ [(lettersFinding 0).typeKey] (List.map_append ..) ?_ _ List.mem_cons_self hfirst
  rw [List.map_map, List.toFinset_card_of_nodup, List.length_map, List.length_range]
  exact List.nodup_range.map typeKey_lettersFinding_injective

end TargetProfile

end Hledac.Knowledge
