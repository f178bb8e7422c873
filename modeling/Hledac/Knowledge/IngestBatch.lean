import Hledac.Lib.Chunks
import Hledac.Knowledge.Finding
import Hledac.Utils.Parallel

/-!
# Quality-gated batch ingest

`DuckDBShadowStore.async_ingest_findings_batch` and the methods it is made of;
`knowledge/duckdb_store.py:2590-2685, 9521-10206`. The gate and the writers run as tasks: what each
comes to is a parameter. Logging, the metrics, the dead letters, the WAL compaction and the
maintenance after the writes swallow what they raise and are left out.
-/

namespace Hledac.Knowledge

open Hledac.Lib Hledac.Utils
open Raising (foldZip)

/-- An entry of the result list. -/
inductive IngestEntry where
  | decision (d : FindingQualityDecision)
  | activation (r : ActivationResult)
  deriving DecidableEq

/-- `getattr(r, "accepted", None) is True`. -/
def IngestEntry.accepted : IngestEntry → Bool
  | .decision d => d.accepted
  | .activation r => r.accepted

/-- What `__init__` reads from the settings and the environment; lines 2918-2923. -/
structure IngestSettings where
  chunkSize : ℤ := 1024
  minFlush : Nat := 50
  maxFlushInterval : ℚ := 1
  one_le_minFlush : 1 ≤ minFlush := by decide
  maxFlushInterval_pos : 0 < maxFlushInterval := by decide

/-- The attributes that the method reads or writes. `_temporal_anonymizer` and `_graph_attachment` are
slots that may be unset, and `_write_op_counter` is no slot of the class: `temporalAnonymizer` and
`graphAttachment` say whether the attribute is there, `writeOpCounter` also what it holds. -/
structure DuckDBShadowStore where
  temporalAnonymizer : Bool
  graphAttachment : Bool
  writeOpCounter : Option Nat
  qualityState : QualityAssessmentState := {}

/-- What lies outside the method. A task of the gate, and one of the writers, is told by its number and
by what it is given; `assessed` and `recorded` say which tasks have returned before the first one
raises. -/
structure Surroundings where
  initializeSchema : Except StoreError Unit := .ok ()
  ensureConnected : Except StoreError Unit := .ok ()
  zeroAttribution : Bool := false
  anonymizerImports : Bool := true
  assessFindingQualityBatch : Nat → List CanonicalFinding →
    Except StoreError (List FindingQualityDecision)
  assessed : Nat → Bool := fun _ => false
  assessFindingQuality : CanonicalFinding → Except StoreError FindingQualityDecision
  recordCanonicalFindingsBatchArrow : Nat → List CanonicalFinding →
    Except StoreError (List ActivationResult)
  recorded : Nat → Bool := fun _ => false
  recordFailOpenBatch : List CanonicalFinding → Except StoreError (List ActivationResult)
  truthWriteGraph : Except StoreError Unit := .ok ()

/-- A method of the store. -/
abbrev StoreM := Raising StoreError DuckDBShadowStore

/-- `zip(…, strict=True)` over a second list that is shorter than the first. -/
def zipTooShort : StoreError := .valueError "zip() argument 2 is shorter than argument 1"

/-! ### The flush buffer -/

/-- `FlushBatch`; lines 2606-2612. -/
structure FlushBatch where
  findings : List CanonicalFinding
  indices : List Nat
  isFinal : Bool := false

/-- `FlushController`; lines 2615-2685. Its two time stamps are always `0.0`. -/
structure FlushController where
  pendingFindings : List CanonicalFinding := []
  pendingIndices : List Nat := []
  minFlush : Nat
  maxInterval : ℚ

namespace FlushController

/-- `should_flush`; the caller never sets `elapsed`. -/
def shouldFlush (c : FlushController) : Bool :=
  let count := c.pendingFindings.length
  if count = 0 then false else decide (c.minFlush ≤ count) || decide (c.maxInterval ≤ 0)

/-- `extend`. -/
def extend (c : FlushController) (findings : List CanonicalFinding) (indices : List Nat) :
    FlushController :=
  { c with
    pendingFindings := c.pendingFindings ++ findings
    pendingIndices := c.pendingIndices ++ indices }

/-- `check_invariant`. -/
def checkInvariant (c : FlushController) : Bool :=
  c.pendingFindings.length == c.pendingIndices.length

/-- `yield_flush`. -/
def yieldFlush (c : FlushController) (isFinal : Bool) : Option FlushBatch × FlushController :=
  if c.pendingFindings.length = 0 then (none, c)
  else
    (some { findings := c.pendingFindings
            indices := c.pendingIndices
            isFinal := isFinal || !c.checkInvariant },
      { c with pendingFindings := [], pendingIndices := [] })

end FlushController

/-! ### One chunk -/

/-- `IngestChunkResult`; lines 2591-2603. -/
structure IngestChunkResult where
  chunkStart : Nat
  chunkEnd : Nat
  decisions : List FindingQualityDecision := []
  acceptedFindings : List CanonicalFinding := []
  acceptedIndices : List Nat := []
  failOpenFindings : List CanonicalFinding := []
  failOpenIndices : List Nat := []
  batchRustOk : Bool := true
  exception : Option StoreError := none

/-- The decision given to a finding that the gate returned none for. -/
def batchIncomplete : FindingQualityDecision where
  accepted := false
  reason := some "batch_incomplete"
  entropy := 0
  normalizedHash := none
  duplicate := false

/-- The decision of a list for its entry number `iOffset`. -/
def decisionAt (decisions : List FindingQualityDecision) (iOffset : Nat) : FindingQualityDecision :=
  decisions[iOffset]?.getD batchIncomplete

/-- `_get_finding_decision`; lines 9521-9547. -/
def getFindingDecision (out : Surroundings) (finding : CanonicalFinding) (iOffset : Nat)
    (decisions : List FindingQualityDecision) (batchRustOk : Bool) :
    Option FindingQualityDecision :=
  if batchRustOk then some (decisionAt decisions iOffset)
  else (out.assessFindingQuality finding).toOption

/-- `_record_quality_rejection`; lines 8524-8530. -/
def recordQualityRejection (finding : CanonicalFinding) (decision : FindingQualityDecision) :
    StoreM PUnit :=
  modify fun s => { s with qualityState := s.qualityState.recordRejection finding decision }

/-- `_apply_zero_attribution`; lines 9549-9555. A `CanonicalFinding` has no `timestamp`:
what that raises is swallowed, and the finding is returned as it is. -/
def applyZeroAttribution (finding : CanonicalFinding) : CanonicalFinding := finding

/-- The body of the loop of `_process_chunk`; lines 9807-9830. -/
def processFinding (out : Surroundings) (chunkStart : Nat) (decisions : List FindingQualityDecision)
    (doZeroAttribution : Bool) (result : IngestChunkResult) (p : CanonicalFinding × Nat) :
    StoreM IngestChunkResult :=
  match getFindingDecision out p.1 p.2 decisions result.batchRustOk with
  | none =>
    pure { result with
      failOpenFindings := result.failOpenFindings ++ [p.1]
      failOpenIndices := result.failOpenIndices ++ [chunkStart + p.2] }
  | some decision =>
    if !decision.accepted then do
      recordQualityRejection p.1 decision
      pure result
    else
      let f := if doZeroAttribution then applyZeroAttribution p.1 else p.1
      pure { result with
        acceptedFindings := result.acceptedFindings ++ [f]
        acceptedIndices := result.acceptedIndices ++ [chunkStart + p.2] }

/-- `_process_chunk`; lines 9770-9832. -/
def processChunk (out : Surroundings) (chunkStart chunkEnd : Nat)
    (chunkFindings : List CanonicalFinding)
    (qualityResult : Except StoreError (List FindingQualityDecision)) (doZeroAttribution : Bool) :
    StoreM IngestChunkResult :=
  match qualityResult with
  | .error e => do
    modify fun s => { s with
      qualityState := { s.qualityState with
        qualityFailOpenCount := s.qualityState.qualityFailOpenCount + chunkFindings.length } }
    pure { chunkStart, chunkEnd, batchRustOk := false, exception := some e }
  | .ok decisions =>
    chunkFindings.zipIdx.foldlM (processFinding out chunkStart decisions doZeroAttribution)
      { chunkStart, chunkEnd, decisions }

/-- `results[idx] = entry`. -/
def setEntries (results : List (Option IngestEntry)) (entries : List (Nat × ActivationResult)) :
    List (Option IngestEntry) :=
  entries.foldl (fun rs p => rs.set p.1 (some (.activation p.2))) results

/-- `_handle_fail_open_batch`; lines 9834-9847. -/
def handleFailOpenBatch (out : Surroundings) (findings : List CanonicalFinding)
    (results : List (Option IngestEntry)) (indices : List Nat) :
    StoreM (List (Option IngestEntry)) := do
  if findings = [] then return results
  return setEntries results (indices.zip (← Raising.ofExcept (out.recordFailOpenBatch findings)))

/-! ### The writers -/

/-- The results of `_handle_storage_failure`; lines 9942-10004. -/
def handleStorageFailure (chunkIndices : List Nat) (error : StoreError)
    (findings : List CanonicalFinding) : List (Nat × ActivationResult) :=
  chunkIndices.filterMap fun idx => findings[idx]?.map fun finding => (idx,
    { findingId := finding.findingId
      lmdbSuccess := false
      duckdbSuccess := none
      lmdbKey := "finding:" ++ finding.findingId
      desync := false
      error := some ("pipeline_storage_failed: " ++ error.message)
      accepted := false })

/-- The loop over the results of a flush; lines 9894-9897. -/
def takeResult (findings : List CanonicalFinding)
    (acc : List (Nat × ActivationResult) × List CanonicalFinding) (p : Nat × ActivationResult) :
    StoreM (List (Nat × ActivationResult) × List CanonicalFinding) :=
  if p.2.accepted then
    match findings[p.1]? with
    | some f => pure (acc.1 ++ [p], acc.2 ++ [f])
    | none => throw (.indexError "list index out of range")
  else pure (acc.1 ++ [p], acc.2)

/-- The loop over the flushes; lines 9884-9897. The first component is
`index_to_result`: the indices of all flushes are distinct, so no entry is overwritten. -/
def takeFlush (findings : List CanonicalFinding)
    (acc : List (Nat × ActivationResult) × List CanonicalFinding) (flushBatch : FlushBatch)
    (taskResult : Except StoreError (List ActivationResult)) :
    StoreM (List (Nat × ActivationResult) × List CanonicalFinding) :=
  match taskResult with
  | .error e => pure (acc.1 ++ handleStorageFailure flushBatch.indices e findings, acc.2)
  | .ok results => (flushBatch.indices.zip results).foldlM (takeResult findings) acc

/-- `_execute_storage_pipeline`; lines 9849-9899. -/
def executeStoragePipeline (out : Surroundings) (findings : List CanonicalFinding)
    (pendingFlushes : List FlushBatch) :
    StoreM (List (Nat × ActivationResult) × List CanonicalFinding) :=
  if pendingFlushes = [] then pure ([], findings)
  else
    let tasks := pendingFlushes.zipIdx.map fun p =>
      out.recordCanonicalFindingsBatchArrow p.2 p.1.findings
    foldZip zipTooShort (takeFlush findings) ([], []) pendingFlushes
      (parallelOk out.recorded tasks)

/-! ### The batch -/

/-- A chunk as the first loop leaves it. -/
structure ChunkBoundary where
  chunkStart : Nat
  chunkEnd : Nat
  findings : List CanonicalFinding

/-- The chunks; lines 10062-10067. `range` refuses a step of zero and gives nothing for
a negative one. -/
def chunkBoundaries (chunkSize : ℤ) (findings : List CanonicalFinding) :
    Except StoreError (List ChunkBoundary) :=
  if chunkSize = 0 then .error (.valueError "range() arg 3 must not be zero")
  else if chunkSize < 0 then .ok []
  else
    let k := chunkSize.toNat
    .ok ((List.range (chunkCount k findings.length)).map fun c =>
      { chunkStart := c * k
        chunkEnd := min (c * k + k) findings.length
        findings := chunk k findings c })

/-- What the tasks of the gate leave in `gathered.ok`; lines 10069-10083. -/
def gatherDecisions (out : Surroundings) (boundaries : List ChunkBoundary) :
    List (Except StoreError (List FindingQualityDecision)) :=
  parallelOk out.assessed (boundaries.zipIdx.map fun p =>
    out.assessFindingQualityBatch p.2 p.1.findings)

/-- The set-up of zero attribution; lines 10087-10095. -/
def hoistZeroAttribution (out : Surroundings) : StoreM Bool := do
  if out.zeroAttribution && !(← get).temporalAnonymizer then
    if out.anonymizerImports then
      modify fun s => { s with temporalAnonymizer := true }
      return true
    else return false
  else return out.zeroAttribution

/-- `self._temporal_anonymizer`. -/
def readTemporalAnonymizer : StoreM PUnit := do
  if !(← get).temporalAnonymizer then throw (.attributeError "_temporal_anonymizer")

/-- The local variables of the loop over the chunks. -/
structure Assembly where
  results : List (Option IngestEntry)
  flushCtrl : FlushController
  pendingFlushes : List FlushBatch := []
  allAcceptedFindings : List CanonicalFinding := []

/-- The body of the loop over the chunks; lines 10101-10138. -/
def ingestChunk (out : Surroundings) (doZeroAttribution : Bool) (a : Assembly) (b : ChunkBoundary)
    (qualityResult : Except StoreError (List FindingQualityDecision)) : StoreM Assembly := do
  readTemporalAnonymizer
  let chunkResult ← processChunk out b.chunkStart b.chunkEnd b.findings qualityResult
    doZeroAttribution
  let results ← handleFailOpenBatch out chunkResult.failOpenFindings a.results
    chunkResult.failOpenIndices
  let flushCtrl := a.flushCtrl.extend chunkResult.acceptedFindings chunkResult.acceptedIndices
  let (flushBatch, flushCtrl) :=
    if flushCtrl.shouldFlush then flushCtrl.yieldFlush false else (none, flushCtrl)
  return { results
           flushCtrl
           pendingFlushes := a.pendingFlushes ++ flushBatch.toList
           allAcceptedFindings := a.allAcceptedFindings ++ chunkResult.acceptedFindings }

/-- The final flush, the writers and the merge of their results; lines 10140-10152. -/
def storeAssembled (out : Surroundings) (findings : List CanonicalFinding) (a : Assembly) :
    StoreM (List (Option IngestEntry) × List CanonicalFinding) := do
  let pendingFlushes := a.pendingFlushes ++ (a.flushCtrl.yieldFlush true).1.toList
  if pendingFlushes = [] then return (a.results, a.allAcceptedFindings)
  let (indexToResult, accepted) ← executeStoragePipeline out findings pendingFlushes
  return (setEntries a.results indexToResult, accepted)

/-- The update of the truth graph; lines 10154-10158. Buffering and scheduling swallow what
they raise. -/
def updateTruthGraph (out : Surroundings) (accepted : List CanonicalFinding) : StoreM PUnit := do
  if accepted ≠ [] then
    if !(← get).graphAttachment then throw (.attributeError "_graph_attachment")
    Raising.ofExcept out.truthWriteGraph

/-- `self._write_op_counter += n`. -/
def addWriteOps (n : Nat) : StoreM PUnit := do
  match (← get).writeOpCounter with
  | some count => modify fun s => { s with writeOpCounter := some (count + n) }
  | none => throw (.attributeError "_write_op_counter")

/-- The end of the method; lines 10154-10206. -/
def finishBatch (out : Surroundings) (results : List (Option IngestEntry))
    (accepted : List CanonicalFinding) : StoreM (List IngestEntry) := do
  updateTruthGraph out accepted
  match results.mapM id with
  | none => throw (.assertionError "Internal error: 1:1 invariant violated")
  | some entries =>
    addWriteOps (entries.countP IngestEntry.accepted)
    return entries

/-- `async_ingest_findings_batch`; lines 10006-10206. -/
def ingestFindingsBatch (cfg : IngestSettings) (out : Surroundings)
    (findings : List CanonicalFinding) : StoreM (List IngestEntry) := do
  if findings = [] then
    Raising.ofExcept out.initializeSchema
    return []
  Raising.ofExcept out.ensureConnected
  let boundaries ← Raising.ofExcept (chunkBoundaries cfg.chunkSize findings)
  let doZeroAttribution ← hoistZeroAttribution out
  let a ← foldZip zipTooShort (ingestChunk out doZeroAttribution)
    { results := List.replicate findings.length none
      flushCtrl := { minFlush := cfg.minFlush, maxInterval := cfg.maxFlushInterval } }
    boundaries (gatherDecisions out boundaries)
  let (results, accepted) ← storeAssembled out findings a
  finishBatch out results accepted

end Hledac.Knowledge
