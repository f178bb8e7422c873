import Hledac.Knowledge.QualityFunctions

/-!
# The quality gate of the store

`DuckDBShadowStore._assess_finding_quality` and `_assess_finding_quality_batch` with the guards they
share; `knowledge/duckdb_store.py:8512-9516, 12939-13001`, and the parts of
`knowledge/dedup.py:636-886` under them. The Rust helpers are absent: no finding has extracted IOCs,
so the seventh guard always passes. The module reads three names that it does not bind.
-/

namespace Hledac.Knowledge

open Hledac.Lib

/-- `DedupManager`, its hot cache, its LMDB (none where it cannot be opened) and its semantic cache. -/
structure DedupManager (cap : Nat) where
  hotCache : FifoCache String String cap
  lmdb : Option DedupLmdb
  semanticDedupCache : Option SemanticDedupCache := none

namespace DedupManager

variable {cap : Nat}

/-- `lookup_persistent_dedup`; `dedup.py:636-696`. -/
def lookupPersistentDedup (m : DedupManager cap) (fp : String) : Option String :=
  m.lmdb.bind fun l => l fp

/-- `store_persistent_dedup`; `dedup.py:698-732`. -/
def storePersistentDedup (m : DedupManager cap) (fp findingId : String) : DedupManager cap :=
  { m with lmdb := m.lmdb.map fun l => l.put fp findingId }

/-- `store_persistent_dedup_batch`; `dedup.py:734-775`. -/
def storePersistentDedupBatch (m : DedupManager cap) (items : List (String × String)) :
    DedupManager cap :=
  { m with lmdb := m.lmdb.map fun l => items.foldl (fun l p => l.put p.1 p.2) l }

/-- `add_to_hot_cache`; `dedup.py:867-882`. -/
def addToHotCache (m : DedupManager cap) (fp findingId : String) : DedupManager cap :=
  { m with hotCache := m.hotCache.add fp findingId }

/-- One of the two lookups finds the fingerprint. -/
def knows (m : DedupManager cap) (fp : String) : Bool :=
  (m.hotCache.lookup fp).isSome || (m.lookupPersistentDedup fp).isSome

end DedupManager

/-- The attributes of the store that the gate reads or writes. -/
structure GateStore (cap : Nat) where
  dedupManager : Option (DedupManager cap)
  dedupLmdb : Option DedupLmdb := none
  qualityState : QualityAssessmentState := {}

/-- A lookup of the store finds the fingerprint. -/
def GateStore.knows {cap : Nat} (s : GateStore cap) (fp : String) : Bool :=
  s.dedupManager.any fun m => m.knows fp

/-- A method of the gate. -/
abbrev GateM (cap : Nat) := Raising StoreError (GateStore cap)

namespace QualityGate

variable {cap : Nat}

/-- Reading a global name that the module does not bind. -/
def unboundGlobal {α : Type} (name : String) : GateM cap α := throw (.nameError name)

/-- `_extract_url_from_provenance` of the store; `duckdb_store.py:8512-8524`. -/
def extractUrlFromProvenance (provenance : List String) : String :=
  (provenance.find? (startsWith "http")).getD ""

/-- `is_feed_source`. -/
def isFeedSource (f : CanonicalFinding) : Bool := f.sourceType == "rss_atom_pipeline"

/-! ### The caches -/

/-- `_hot_cache_lookup`; the fallback attribute is no slot of the class and never there. -/
def hotCacheLookup (fp : String) : GateM cap (Option String) := do
  return (← get).dedupManager.bind fun m => m.hotCache.lookup fp

/-- `_add_to_hot_cache`. -/
def addToHotCache (fp findingId : String) : GateM cap PUnit := do
  match (← get).dedupManager with
  | some m => modify fun s => { s with dedupManager := some (m.addToHotCache fp findingId) }
  | none => throw (.attributeError "_hot_cache_fallback")

/-- `_lookup_persistent_dedup`. -/
def lookupPersistentDedup (fp : String) : GateM cap (Option String) := do
  return (← get).dedupManager.bind fun m => m.lookupPersistentDedup fp

/-- `_store_persistent_dedup`. -/
def storePersistentDedup (fp findingId : String) : GateM cap PUnit := do
  match (← get).dedupManager with
  | some m => modify fun s => { s with dedupManager := some (m.storePersistentDedup fp findingId) }
  | none => modify fun s => { s with dedupLmdb := s.dedupLmdb.map fun l => l.put fp findingId }

/-! ### The guards -/

/-- What the guards are given for a finding. In batch mode the decision goes to `results[idx]`. -/
structure GateInput where
  fp : String
  entropy : ℚ
  urlFp : String
  finding : CanonicalFinding
  batch : Bool

/-- A rejection, as the guards build it. -/
def GateInput.rejected (i : GateInput) (reason : Option String) (duplicate : Bool) :
    FindingQualityDecision where
  accepted := false
  reason := reason
  entropy := i.entropy
  normalizedHash := some i.fp
  duplicate := duplicate

/-- An acceptance. -/
def GateInput.accepted (i : GateInput) : FindingQualityDecision where
  accepted := true
  reason := none
  entropy := i.entropy
  normalizedHash := some i.fp
  duplicate := false

/-- The reason of a known fingerprint. -/
def GateInput.duplicateReason (i : GateInput) : String :=
  if i.urlFp ≠ "" then "persistent_duplicate" else "duplicate_detected"

/-- The change of a counter. -/
def count (f : QualityAssessmentState → QualityAssessmentState) : GateM cap PUnit :=
  modify fun s => { s with qualityState := f s.qualityState }

/-- `_dispatch_rejection`; `duckdb_store.py:8953-8971`. -/
def dispatchRejection (i : GateInput) (decision : FindingQualityDecision) :
    GateM cap FindingQualityDecision := do
  if !i.batch then count fun s => s.recordRejection i.finding decision
  return decision

/-- `_g1_hot_cache_check`; `duckdb_store.py:8833-8858`. -/
def g1HotCacheCheck (i : GateInput) : GateM cap (Option FindingQualityDecision) := do
  match ← hotCacheLookup i.fp with
  | some _ =>
    count fun s => { s with qualityDuplicateCount := s.qualityDuplicateCount + 1 }
    return some (← dispatchRejection i (i.rejected (some i.duplicateReason) true))
  | none => return none

/-- `_g2_persistent_dedup_check`; `duckdb_store.py:8860-8887`. -/
def g2PersistentDedupCheck (i : GateInput) : GateM cap (Option FindingQualityDecision) := do
  match ← lookupPersistentDedup i.fp with
  | some storedId =>
    addToHotCache i.fp storedId
    count fun s => { s with persistentDuplicateCount := s.persistentDuplicateCount + 1 }
    return some (← dispatchRejection i (i.rejected (some i.duplicateReason) true))
  | none => return none

/-- `_accept_findings_common`; `duckdb_store.py:8995-9022`. In batch mode the write is queued: the
result is what goes to `dedup_batch`. -/
def acceptFindingsCommon (i : GateInput) : GateM cap (List (String × String)) := do
  if !i.batch then storePersistentDedup i.fp i.finding.findingId
  if !isFeedSource i.finding then addToHotCache i.fp i.finding.findingId
  return if i.batch then [(i.fp, i.finding.findingId)] else []

/-- `url_fp or (finding.payload_text or finding.query)`. -/
def GateInput.textForEmbed (i : GateInput) : String :=
  if i.urlFp ≠ "" then i.urlFp else i.finding.payloadOrQuery

/-- The semantic check of the fourth and the sixth guard, with `_check_semantic_duplicate`;
`duckdb_store.py:8532-8558`. What the cache raises is swallowed. -/
def semanticDuplicate (i : GateInput) : GateM cap Bool := do
  match (← get).dedupManager with
  | some m =>
    match m.semanticDedupCache with
    | some cache =>
      if 16 ≤ i.textForEmbed.length then
        let (answer, cache) := cache.checkAndCache i.textForEmbed
          (if isFeedSource i.finding then 8 / 10 else 85 / 100)
        modify fun s => { s with dedupManager := some { m with semanticDedupCache := some cache } }
        match answer with
        | .ok true =>
          count fun s => { s with qualityDuplicateCount := s.qualityDuplicateCount + 1 }
          return true
        | _ => return false
      else return false
    | none => return false
  | none => return false

/-- `_check_guard4_short_fingerprint`; `duckdb_store.py:8560-8610`. -/
def checkGuard4ShortFingerprint (i : GateInput) :
    GateM cap (FindingQualityDecision × List (String × String)) := do
  if ← semanticDuplicate i then
    count fun s => { s with qualityDuplicateCount := s.qualityDuplicateCount + 1 }
    return ({ i.rejected (some "semantic_duplicate") true with entropy := 0 }, [])
  else
    storePersistentDedup i.fp i.finding.findingId
    if !isFeedSource i.finding then addToHotCache i.fp i.finding.findingId
    return ({ i.accepted with reason := some "short_string_skip", entropy := 0 },
      if i.batch then [(i.fp, i.finding.findingId)] else [])

/-- `_g5_entropy_check`; `duckdb_store.py:8889-8914`. -/
def g5EntropyCheck (i : GateInput) : GateM cap (Option FindingQualityDecision) := do
  let threshold : ℚ ←
    if isFeedSource i.finding then pure (3 / 10) else unboundGlobal "_QUALITY_ENTROPY_THRESHOLD"
  if i.entropy < threshold then
    count fun s => { s with qualityRejectedCount := s.qualityRejectedCount + 1 }
    return some (← dispatchRejection i (i.rejected (some "low_entropy_rejected") false))
  else return none

/-- `_g6_semantic_check`; `duckdb_store.py:8916-8951`. -/
def g6SemanticCheck (i : GateInput) : GateM cap (Option FindingQualityDecision) := do
  if ← semanticDuplicate i then
    return some (← dispatchRejection i (i.rejected (some "semantic_duplicate") true))
  else return none

/-- The end of the guards: the finding is accepted. -/
def acceptFinding (i : GateInput) :
    GateM cap (FindingQualityDecision × List (String × String)) := do
  let queued ← acceptFindingsCommon i
  if !i.batch then count fun s => { s with acceptedCount := s.acceptedCount + 1 }
  return (i.accepted, queued)

/-- `_run_stateful_quality_guards`; `duckdb_store.py:8705-8831`. The decision, and what is queued for
the write at the end of a batch. -/
def runStatefulQualityGuards (i : GateInput) :
    GateM cap (FindingQualityDecision × List (String × String)) := do
  match ← g1HotCacheCheck i with
  | some decision => return (decision, [])
  | none =>
  match ← g2PersistentDedupCheck i with
  | some decision => return (decision, [])
  | none =>
  if i.urlFp ≠ "" then acceptFinding i
  else
  let minEntropyLen : ℤ ← unboundGlobal "_QUALITY_MIN_ENTROPY_LEN"
  if (i.fp.length : ℤ) < minEntropyLen then checkGuard4ShortFingerprint i
  else
  match ← g5EntropyCheck i with
  | some decision => return (decision, [])
  | none =>
  match ← g6SemanticCheck i with
  | some decision => return (decision, [])
  | none => acceptFinding i

/-! ### One finding -/

/-- The decision that stands for an exception. -/
def qualityCheckError : FindingQualityDecision where
  accepted := true
  reason := some "quality_check_error"
  entropy := 0
  normalizedHash := some ""
  duplicate := false

/-- `_assess_finding_quality`; `duckdb_store.py:9134-9232`. -/
def assessFindingQuality (q : QualityFunctions) (f : CanonicalFinding) :
    GateM cap FindingQualityDecision :=
  tryCatch (do
    let url := extractUrlFromProvenance f.provenance
    let urlFp := if url ≠ "" then q.computeUrlFingerprint url else ""
    let normalized := q.normalizeForQuality f.qualityText
    let (fp, entropy) := if urlFp ≠ "" then (urlFp, 0)
      else (q.computeDedupFingerprint normalized, q.computeEntropy normalized)
    return (← runStatefulQualityGuards { fp, entropy, urlFp, finding := f, batch := false }).1)
    fun _ => pure qualityCheckError

/-! ### A batch -/

/-- `_dedup_fp_fallback_python`; `duckdb_store.py:9258-9267`. The Rust function is `None`, and the
Python one is not bound in the module. -/
def dedupFpFallbackPython (normalizedBatch : List String) : Except StoreError (List String) :=
  if normalizedBatch = [] then .ok [] else .error (.nameError "_compute_dedup_fingerprint")

/-- Scatter the entropies and fingerprints of the findings without a URL back to their places;
`duckdb_store.py:9380-9383`. An entry is a URL fingerprint, an entropy and a fingerprint. -/
def scatter (q : QualityFunctions) : List CanonicalFinding → List (ℚ × String) →
    List (String × ℚ × String)
  | [], _ => []
  | f :: fs, rows =>
    let url := extractUrlFromProvenance f.provenance
    if url ≠ "" then (q.computeUrlFingerprint url, 0, "") :: scatter q fs rows
    else
      match rows with
      | row :: rows => ("", row) :: scatter q fs rows
      | [] => ("", 0, "") :: scatter q fs []

/-- `_preprocess_findings_batch`; `duckdb_store.py:9293-9385`. -/
def preprocessFindingsBatch (q : QualityFunctions) (findings : List CanonicalFinding) :
    Except StoreError (List (String × ℚ × String)) := do
  let payloadFindings := findings.filter fun f => extractUrlFromProvenance f.provenance == ""
  let normalizedBatch := payloadFindings.map fun f => q.normalizeForQuality f.qualityText
  let fpsBatch ← if payloadFindings = [] then .ok [] else dedupFpFallbackPython normalizedBatch
  return scatter q findings ((normalizedBatch.map q.computeEntropy).zip fpsBatch)

/-- The body of the loop over the findings; `duckdb_store.py:9479-9501`. -/
def assessRow (acc : List FindingQualityDecision × List (String × String))
    (p : CanonicalFinding × String × ℚ × String) :
    GateM cap (List FindingQualityDecision × List (String × String)) := do
  let (decision, queued) ← runStatefulQualityGuards
    { fp := p.2.2.2, entropy := p.2.2.1, urlFp := p.2.1, finding := p.1, batch := true }
  return (acc.1 ++ [decision], acc.2 ++ queued)

/-- The one write at the end of a batch; `duckdb_store.py:9508-9513`. -/
def flushDedupBatch (dedupBatch : List (String × String)) : GateM cap PUnit := do
  match (← get).dedupManager with
  | some m => if dedupBatch ≠ [] then
      modify fun s => { s with dedupManager := some (m.storePersistentDedupBatch dedupBatch) }
  | none => return ⟨⟩

/-- `_assess_finding_quality_batch`; `duckdb_store.py:9421-9516`. -/
def assessFindingQualityBatch (q : QualityFunctions) (findings : List CanonicalFinding) :
    GateM cap (List FindingQualityDecision) := do
  let rows ← Raising.ofExcept (preprocessFindingsBatch q findings)
  let (results, dedupBatch) ← (findings.zip rows).foldlM assessRow ([], [])
  flushDedupBatch dedupBatch
  return results

end QualityGate

end Hledac.Knowledge
