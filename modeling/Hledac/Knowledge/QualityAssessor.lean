import Hledac.Lib.Lockstep
import Hledac.Knowledge.QualityFunctions

/-!
# The quality assessor

`QualityAssessor.assess` and `assess_batch`; `knowledge/quality_assessment.py:519-1300`. The Rust
helpers are absent, so a batch takes the legacy path. The lookup and the store function act on one
persistent map; either may be missing.
-/

namespace Hledac.Knowledge

open Hledac.Lib

/-- The settings and what the assessor was constructed with. -/
structure AssessorConfig where
  qualityMinEntropyLen : ℤ := 8
  qualityEntropyThreshold : ℚ := 1 / 2
  lmdbLookupFn : Bool := true
  lmdbStoreFn : Bool := true

/-- What the assessor reads and writes. -/
structure AssessorState (cap : Nat) where
  hotCache : FifoCache String String cap
  lmdb : DedupLmdb := fun _ => none
  semanticDedupCache : Option SemanticDedupCache := none
  qualityState : QualityAssessmentState := {}

namespace QualityAssessor

variable {cap : Nat}

/-- `_FEED_SOURCE_TYPES`; lines 83-89. -/
def feedSourceTypes : List String := ["rss_atom_pipeline", "ti_feed_adapter", "feed_pipeline"]

/-- `is_feed_source`. -/
def isFeedSource (f : CanonicalFinding) : Bool := feedSourceTypes.contains f.sourceType

/-- A hexadecimal digit, as the pattern of the high-confidence IOCs reads it. -/
def isHexDigit (ch : Char) : Bool :=
  ch.isDigit || ('a' ≤ ch && ch ≤ 'f') || ('A' ≤ ch && ch ≤ 'F')

/-- `_is_high_conf_ioc`; lines 750-752. -/
def isHighConfIoc (textForEmbed : String) : Bool :=
  let cs := (Py.strip textForEmbed).toList
  decide (32 ≤ cs.length) && decide (cs.length ≤ 128) && cs.all isHexDigit

/-- `_make_decision`; lines 1255-1272. -/
def makeDecision (accepted : Bool) (reason : Option String) (entropy : ℚ) (fingerprint : String)
    (duplicate : Bool) : FindingQualityDecision where
  accepted := accepted
  reason := reason
  entropy := entropy
  normalizedHash := some fingerprint
  duplicate := duplicate

/-- The URL that a finding is known by. -/
def urlOf (f : CanonicalFinding) : String :=
  QualityAssessmentState.extractUrlFromProvenance f.provenance

/-- `_compute_url_fingerprint(url) if url else ""`. -/
def urlFingerprintOf (q : QualityFunctions) (f : CanonicalFinding) : String :=
  if urlOf f ≠ "" then q.computeUrlFingerprint (urlOf f) else ""

/-- `add_to_hot_cache`; lines 545-555. -/
def addToHotCache (s : AssessorState cap) (fp findingId : String) : AssessorState cap :=
  { s with hotCache := s.hotCache.add fp findingId }

/-- `_lmdb_store_fn`, where there is one. -/
def lmdbStore (cfg : AssessorConfig) (s : AssessorState cap) (fp findingId : String) :
    AssessorState cap :=
  if cfg.lmdbStoreFn then { s with lmdb := s.lmdb.put fp findingId } else s

/-- The change of a counter. -/
def count (s : AssessorState cap) (g : QualityAssessmentState → QualityAssessmentState) :
    AssessorState cap :=
  { s with qualityState := g s.qualityState }

/-- The reason of a known fingerprint. -/
def duplicateReason (urlFp : String) : String :=
  if urlFp ≠ "" then "persistent_duplicate" else "duplicate_detected"

/-- `_check_duplicate_caches`, and the first two tiers of `_assess_batch_item_phase2`;
lines 684-706, 1147-1162. -/
def checkDuplicateCaches (cfg : AssessorConfig) (s : AssessorState cap) (fp urlFp : String)
    (entropy : ℚ) : Option FindingQualityDecision × AssessorState cap :=
  let duplicate := makeDecision false (some (duplicateReason urlFp)) entropy fp true
  match s.hotCache.lookup fp with
  | some _ => (some duplicate,
      count s fun c => { c with qualityDuplicateCount := c.qualityDuplicateCount + 1 })
  | none =>
    match if cfg.lmdbLookupFn then s.lmdb fp else none with
    | some storedId => (some duplicate, count (addToHotCache s fp storedId) fun c =>
        { c with persistentDuplicateCount := c.persistentDuplicateCount + 1 })
    | none => (none, s)

/-- The semantic check of the two single paths and of the batch; `quality_assessment.py:731-748,
775-799, 1219-1253`. What the cache raises is swallowed. -/
def semanticDuplicate (s : AssessorState cap) (textForEmbed : String)
    (isHighConfIoc isFeedSource : Bool) : Bool × AssessorState cap :=
  match s.semanticDedupCache with
  | none => (false, s)
  | some cache =>
    if isHighConfIoc || isFeedSource || decide (textForEmbed.length < 16) then (false, s)
    else
      let (answer, cache) := cache.checkAndCache textForEmbed (3 / 4)
      let s := { s with semanticDedupCache := some cache }
      match answer with
      | .ok true =>
        (true, count s fun c => { c with qualityDuplicateCount := c.qualityDuplicateCount + 1 })
      | _ => (false, s)

/-! ### One finding -/

/-- `_accept_and_store`; lines 801-806. -/
def acceptAndStore (cfg : AssessorConfig) (s : AssessorState cap) (f : CanonicalFinding)
    (fp : String) (entropy : ℚ) : FindingQualityDecision × AssessorState cap :=
  (makeDecision true none entropy fp false,
    addToHotCache (lmdbStore cfg s fp f.findingId) fp f.findingId)

/-- `_assess_short_string`; lines 708-729. -/
def assessShortString (cfg : AssessorConfig) (s : AssessorState cap) (f : CanonicalFinding)
    (fp : String) (entropy : ℚ) (textForEmbed : String) :
    FindingQualityDecision × AssessorState cap :=
  match semanticDuplicate s textForEmbed (isHighConfIoc textForEmbed) (isFeedSource f) with
  | (true, s) => (makeDecision false (some "semantic_duplicate") entropy fp true, s)
  | (false, s) => (makeDecision true (some "short_string_skip") entropy fp false,
      addToHotCache (lmdbStore cfg s fp f.findingId) fp f.findingId)

/-- `_reject_low_entropy`; lines 754-773. -/
def rejectLowEntropy (s : AssessorState cap) (entropy : ℚ) (fp : String) :
    FindingQualityDecision × AssessorState cap :=
  (makeDecision false (some "low_entropy_rejected") entropy fp false,
    count s fun c => { c with qualityRejectedCount := c.qualityRejectedCount + 1 })

/-- `_compute_fingerprint`; lines 674-682. -/
def computeFingerprint (q : QualityFunctions) (f : CanonicalFinding) (urlFp : String) :
    String × ℚ :=
  if urlFp ≠ "" then (urlFp, 0)
  else
    let normalized := q.normalizeForQuality f.qualityText
    (q.computeDedupFingerprint normalized, q.computeEntropy normalized)

/-- `assess`; lines 613-672. -/
def assess (cfg : AssessorConfig) (q : QualityFunctions) (s : AssessorState cap)
    (f : CanonicalFinding) : FindingQualityDecision × AssessorState cap :=
  let urlFp := urlFingerprintOf q f
  let (fp, entropy) := computeFingerprint q f urlFp
  match checkDuplicateCaches cfg s fp urlFp entropy with
  | (some decision, s) => (decision, s)
  | (none, s) =>
    if urlFp ≠ "" then acceptAndStore cfg s f fp entropy
    else
      let textForEmbed := if urlOf f ≠ "" then urlOf f else f.payloadOrQuery
      if (fp.length : ℤ) < cfg.qualityMinEntropyLen then
        assessShortString cfg s f fp entropy textForEmbed
      else if entropy < cfg.qualityEntropyThreshold then rejectLowEntropy s entropy fp
      else
        match semanticDuplicate s textForEmbed (isHighConfIoc textForEmbed) (isFeedSource f) with
        | (true, s) => (makeDecision false (some "semantic_duplicate") entropy fp true, s)
        | (false, s) => acceptAndStore cfg s f fp entropy

/-- Successive calls of `assess`. -/
def assessEach (cfg : AssessorConfig) (q : QualityFunctions) (s : AssessorState cap)
    (findings : List CanonicalFinding) : List FindingQualityDecision × AssessorState cap :=
  runEach (assess cfg q) s findings

/-! ### A batch -/

/-- The URL fingerprint, the entropy and the fingerprint that a batch computes for a finding;
lines 1003-1062. -/
def batchRow (q : QualityFunctions) (f : CanonicalFinding) : String × ℚ × String :=
  if urlOf f ≠ "" then (q.computeUrlFingerprint (urlOf f), 0, "")
  else
    let normalized := q.normalizeForQuality f.qualityText
    ("", q.computeEntropy normalized, q.computeDedupFingerprint normalized)

/-- The acceptance at the end of `_assess_batch_item_phase2`: a feed's finding is not put into the hot
cache. -/
def acceptBatchItem (cfg : AssessorConfig) (s : AssessorState cap) (f : CanonicalFinding)
    (fp : String) (entropy : ℚ) (reason : Option String) :
    FindingQualityDecision × AssessorState cap :=
  let s := lmdbStore cfg s fp f.findingId
  (makeDecision true reason entropy fp false,
    if isFeedSource f then s else addToHotCache s fp f.findingId)

/-- `_assess_batch_item_phase2`; lines 1127-1217. -/
def assessBatchItemPhase2 (cfg : AssessorConfig) (s : AssessorState cap) (f : CanonicalFinding)
    (urlFp : String) (entropy : ℚ) (fp : String) : FindingQualityDecision × AssessorState cap :=
  match checkDuplicateCaches cfg s fp urlFp entropy with
  | (some decision, s) => (decision, s)
  | (none, s) =>
    if urlFp ≠ "" then
      (makeDecision true none entropy urlFp false,
        addToHotCache (lmdbStore cfg s urlFp f.findingId) urlFp f.findingId)
    else
      let textForEmbed := if urlFp ≠ "" then urlFp else f.payloadOrQuery
      if (fp.length : ℤ) < cfg.qualityMinEntropyLen then
        match semanticDuplicate s textForEmbed (isHighConfIoc textForEmbed) (isFeedSource f) with
        | (true, s) => (makeDecision false (some "semantic_duplicate") 0 fp true, s)
        | (false, s) => acceptBatchItem cfg s f fp entropy (some "short_string_skip")
      else if entropy < cfg.qualityEntropyThreshold then rejectLowEntropy s entropy fp
      else
        match semanticDuplicate s textForEmbed (isHighConfIoc textForEmbed) (isFeedSource f) with
        | (true, s) => (makeDecision false (some "semantic_duplicate") 0 fp true, s)
        | (false, s) => acceptBatchItem cfg s f fp entropy none

/-- The second phase for a finding with its row. -/
def assessRow (cfg : AssessorConfig) (q : QualityFunctions) (s : AssessorState cap)
    (f : CanonicalFinding) : FindingQualityDecision × AssessorState cap :=
  let (urlFp, entropy, fp) := batchRow q f
  assessBatchItemPhase2 cfg s f urlFp entropy fp

/-- `assess_batch`, by way of `_assess_batch_legacy`; lines 808-926, 988-1087. The
rows depend on the findings alone. -/
def assessBatch (cfg : AssessorConfig) (q : QualityFunctions) (s : AssessorState cap)
    (findings : List CanonicalFinding) : List FindingQualityDecision × AssessorState cap :=
  runEach (assessRow cfg q) s findings

end QualityAssessor

end Hledac.Knowledge
