import Mathlib.Data.List.MinMax
import Hledac.Lib.Dict
import Hledac.Lib.Machine
import Hledac.Py.Value

/-!
# Source reliability

`SourceReliabilityTracker` of `knowledge/source_reliability.py` counts the claims and the contradictions of each source
and forgets the source that was updated least recently when there are too many. Every call holds the lock from its first
reading to its last writing, so a run is a list of calls.
-/

namespace Hledac.Knowledge

open Hledac.Lib Hledac.Py

/-- `AUTO_RETRACT_RATIO`; line 61. -/
def autoRetractRatio : ℚ := 3 / 10

/-- `AUTO_RETRACT_MIN_CLAIMS`; line 62. -/
def autoRetractMinClaims : Nat := 3

/-- `MAX_TRACKED_SOURCES`; line 63. -/
def maxTrackedSources : Nat := 256

/-- `MAX_CLAIMS_PER_SOURCE`; line 64. -/
def maxClaimsPerSource : Nat := 1000

/-- `SourceReliability`; lines 89-111. -/
structure SourceReliability where
  sourceId : String
  totalClaims : Nat := 0
  contradictionCount : Nat := 0
  ratio : ℚ := 0
  lastUpdated : ℚ := 0
  autoRetracted : Bool := false
  autoRetractedAt : ℚ := 0
  deriving DecidableEq

/-- `is_reliable`; lines 101-106. -/
def SourceReliability.isReliable (r : SourceReliability) : Bool :=
  if r.totalClaims < autoRetractMinClaims then true else decide (r.ratio ≤ autoRetractRatio)

/-- `should_auto_retract`; lines 108-111. -/
def SourceReliability.shouldAutoRetract (r : SourceReliability) : Bool := !r.isReliable && !r.autoRetracted

/-- `SourceStats`; lines 114-122. -/
structure SourceStats where
  totalClaims : Nat := 0
  contradictionCount : Nat := 0
  lastUpdated : ℚ := 0
  autoRetracted : Bool := false
  autoRetractedAt : ℚ := 0
  deriving DecidableEq

/-- The entries of `_stats` that the calls below change. -/
structure TrackerStats where
  claimsRecorded : Nat := 0
  contradictionsRecorded : Nat := 0
  autoRetractions : Nat := 0
  lruEvictions : Nat := 0
  deriving DecidableEq

/-- The state of a `SourceReliabilityTracker`, and how often it has read the clock; lines 155-168. -/
structure Tracker where
  enabled : Bool := true
  sources : Dict String SourceStats := .empty
  stats : TrackerStats := {}
  lastLruEviction : ℚ := 0
  readings : Nat := 0

/-- The part of a `RetractionDecision` that is read, `None` for an attribute that is not there. -/
structure RetractionDecision where
  sourceId : Option String
  reason : Option String
  deriving DecidableEq

namespace SourceStats

/-- What a claim adds; at the cap both counts are halved first; lines 201-209. -/
def countClaim (contradictory : Bool) (stats : SourceStats) : SourceStats :=
  if stats.totalClaims < maxClaimsPerSource then
    { stats with
      totalClaims := stats.totalClaims + 1
      contradictionCount := stats.contradictionCount + if contradictory then 1 else 0 }
  else
    { stats with
      totalClaims := stats.totalClaims / 2 + 1
      contradictionCount := stats.contradictionCount / 2 + if contradictory then 1 else 0 }

/-- A contradiction that is not counted at the cap; lines 385-387, 393-395. -/
def countContradiction (stats : SourceStats) : SourceStats :=
  if stats.totalClaims < maxClaimsPerSource then
    { stats with totalClaims := stats.totalClaims + 1, contradictionCount := stats.contradictionCount + 1 }
  else stats

/-- What a decision adds; lines 383-395. -/
def countDecision (reason : String) (now : ℚ) (stats : SourceStats) : SourceStats :=
  let stats := { stats.countContradiction with lastUpdated := now }
  if reason = "tri_source_voting" then stats.countContradiction else stats

/-- `contradiction_count / total_claims`. -/
def ratio (stats : SourceStats) : ℚ := stats.contradictionCount / stats.totalClaims

end SourceStats

namespace Tracker

variable (clock : Nat → ℚ)

/-- The first of the sources with the least `last_updated`. -/
def oldest? (t : Tracker) : Option String := (t.sources.entries.argmin fun e => e.2.lastUpdated).map Prod.fst

/-- `_evict_lru`; lines 529-537. -/
def evictLru (t : Tracker) : Tracker :=
  match t.oldest? with
  | none => t
  | some oldest =>
    { t with
      sources := t.sources.erase oldest
      stats := { t.stats with lruEvictions := t.stats.lruEvictions + 1 }
      lastLruEviction := clock t.readings
      readings := t.readings + 1 }

/-- The source is tracked, if need be in the place of another; lines 193-199. -/
def track (sourceId : String) (t : Tracker) : Tracker :=
  match t.sources.get? sourceId with
  | some _ => t
  | none =>
    let t := if maxTrackedSources ≤ t.sources.size then t.evictLru clock else t
    { t with sources := t.sources.insert sourceId {} }

/-- The counts of a tracked source are changed in place. -/
def update (sourceId : String) (change : SourceStats → SourceStats) (t : Tracker) : Tracker :=
  match t.sources.get? sourceId with
  | some stats => { t with sources := t.sources.insert sourceId (change stats) }
  | none => t

/-- `time.time()` has been called once more. -/
def tick (t : Tracker) : Tracker := { t with readings := t.readings + 1 }

/-- The source is tracked, and its counts are changed at the time that the clock then shows. -/
def charge (sourceId : String) (change : ℚ → SourceStats → SourceStats) (t : Tracker) : Tracker :=
  let t := track clock sourceId t
  (t.update sourceId (change (clock t.readings))).tick

/-- The body of `record_claim` under its lock and of the loop of `record_batch`; lines 189-211,
`:238-256`. -/
def claimed (t : Tracker) (claim : String × Bool) : Tracker :=
  let (sourceId, contradictory) := claim
  let stats := { t.stats with
    claimsRecorded := t.stats.claimsRecorded + 1
    contradictionsRecorded := t.stats.contradictionsRecorded + if contradictory then 1 else 0 }
  charge clock sourceId (fun now s => { s.countClaim contradictory with lastUpdated := now }) { t with stats }

/-- `record_claim`; lines 170-218. -/
def recordClaim (sourceId : String) (contradictory : Bool) (t : Tracker) : Tracker :=
  if !t.enabled || sourceId = "" then t else t.claimed clock (sourceId, contradictory)

/-- `record_batch`; lines 220-262. -/
def recordBatch (claims : List (String × Bool)) (t : Tracker) : Tracker :=
  if !t.enabled || claims = [] then t else claims.foldl (claimed clock) t

/-- The body of the loop of `record_decisions`; lines 372-395. -/
def decided (t : Tracker) (decision : RetractionDecision) : Tracker :=
  let sourceId := decision.sourceId.getD ""
  if sourceId = "" then t else charge clock sourceId (SourceStats.countDecision (decision.reason.getD "")) t

/-- `record_decisions`; lines 355-401. -/
def recordDecisions (decisions : List RetractionDecision) (t : Tracker) : Tracker :=
  if !t.enabled || decisions = [] then t else decisions.foldl (decided clock) t

/-- `mark_auto_retracted`; lines 328-353. -/
def markAutoRetracted (sourceId : String) (t : Tracker) : Bool × Tracker :=
  if !t.enabled || sourceId = "" then (false, t)
  else
    let t := if (t.sources.get? sourceId).isSome then t else { t with sources := t.sources.insert sourceId {} }
    let t := t.update sourceId fun s => { s with autoRetracted := true, autoRetractedAt := clock t.readings }
    (true, { t.tick with stats := { t.stats with autoRetractions := t.stats.autoRetractions + 1 } })

/-! ### Who is to be retracted -/

/-- `should_auto_retract`; lines 264-284. -/
def shouldAutoRetract (t : Tracker) (sourceId : String) : Bool :=
  if !t.enabled || sourceId = "" then false
  else
    match t.sources.get? sourceId with
    | none => false
    | some stats =>
      if stats.autoRetracted then false
      else if stats.totalClaims < autoRetractMinClaims then false
      else decide (autoRetractRatio < stats.ratio)

/-- `get_reliability`; lines 286-304. -/
def getReliability (t : Tracker) (sourceId : String) : SourceReliability :=
  if !t.enabled || sourceId = "" then { sourceId }
  else
    match t.sources.get? sourceId with
    | none => { sourceId }
    | some stats =>
      { sourceId
        totalClaims := stats.totalClaims
        contradictionCount := stats.contradictionCount
        ratio := roundTo 4 (if 0 < stats.totalClaims then stats.ratio else 0)
        lastUpdated := stats.lastUpdated
        autoRetracted := stats.autoRetracted
        autoRetractedAt := stats.autoRetractedAt }

/-- The entry of a source in `get_unreliable_sources`, if it has one. -/
def unreliable? (e : String × SourceStats) : Option SourceReliability :=
  let (sourceId, stats) := e
  if stats.autoRetracted then none
  else if stats.totalClaims < autoRetractMinClaims then none
  else if autoRetractRatio < stats.ratio then
    some {
      sourceId
      totalClaims := stats.totalClaims
      contradictionCount := stats.contradictionCount
      ratio := roundTo 4 stats.ratio
      lastUpdated := stats.lastUpdated }
  else none

/-- `get_unreliable_sources`; lines 306-326. -/
def getUnreliableSources (t : Tracker) : List SourceReliability :=
  (t.sources.entries.filterMap unreliable?).mergeSort fun a b => decide (b.ratio ≤ a.ratio)

/-! ### Runs -/

/-- A call that writes. -/
inductive TrackerCall where
  | recordClaim (sourceId : String) (contradictory : Bool)
  | recordBatch (claims : List (String × Bool))
  | recordDecisions (decisions : List RetractionDecision)
  | markAutoRetracted (sourceId : String)
  deriving DecidableEq

/-- What a call does. -/
def step (t : Tracker) : TrackerCall → Tracker
  | .recordClaim sourceId contradictory => t.recordClaim clock sourceId contradictory
  | .recordBatch claims => t.recordBatch clock claims
  | .recordDecisions decisions => t.recordDecisions clock decisions
  | .markAutoRetracted sourceId => (t.markAutoRetracted clock sourceId).2

/-- An enabled tracker after the calls. -/
def run (calls : List TrackerCall) : Tracker := calls.foldl (step clock) {}

end Tracker

end Hledac.Knowledge
