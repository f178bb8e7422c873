import Hledac.Knowledge.RecordPaths
import Hledac.Lib.Dict

/-!
# The write coordinator

`DuckDBWriteCoordinator` of `knowledge/duckdb_write_coordinator.py` writes a batch to its log and to DuckDB through
Arrow, and falls back to the batch path of the store where that is not to be done or does not succeed. What it hands to
the graph and to the semantic buffer is kept as lists, since both swallow what is raised in them.
-/

namespace Hledac.Knowledge

open Hledac.Lib

namespace DuckDBWriteCoordinator

/-- `CBState`; `duckdb_write_coordinator.py:37-42`. -/
inductive CBState where
  | closed
  | open
  | halfOpen
  deriving DecidableEq, Repr

/-- `ArrowIngestStatus`; `duckdb_write_coordinator.py:45-54`. -/
inductive ArrowIngestStatus where
  | success
  | fallbackLegacy
  | fallbackPyarrow
  | fallbackInit
  | fallbackCircuit
  | fallbackWal
  | fallbackBatch
  deriving DecidableEq, Repr

/-- A dictionary of the store or of the pipeline, which may be without `finding_id`. -/
structure IngestRecord extends RecordResult where
  findingId : Option String := none
  deriving DecidableEq

/-- `ArrowIngestResult`; `duckdb_write_coordinator.py:57-80`. -/
structure ArrowIngestResult where
  status : ArrowIngestStatus
  results : List IngestRecord := []
  duckdbAllOk : Bool := false
  duckdbCount : Nat := 0
  duckdbErr : Option String
  lmdbOkCount : Nat := 0
  duckdbOkCount : Nat := 0

/-- `should_fallback`. -/
def ArrowIngestResult.shouldFallback (r : ArrowIngestResult) : Bool := r.status ≠ .success

/-- What the coordinator raises. -/
inductive CoordinatorError where
  | keyError (key : String)
  | nameError (name : String)
  deriving DecidableEq, Repr

/-! ### The counters -/

/-- The keys of `_arrow_metrics`; `duckdb_write_coordinator.py:197-222`. -/
def metricKeys : List String := [
  "arrow_selected",
  "arrow_fallback_env",
  "arrow_fallback_batch",
  "arrow_fallback_pyarrow",
  "arrow_fallback_init",
  "arrow_fallback_executor",
  "batches_total",
  "batches_arrow_path",
  "batches_fallback_path",
  "items_total",
  "avg_batch_size",
  "wal_operations",
  "wal_items_total",
  "arrow_fallback_empty",
  "arrow_fallback_all_fail",
  "arrow_success_count",
  "arrow_success_lmdb_count",
  "arrow_success_duckdb_count",
  "arrow_error_table_build",
  "arrow_error_duckdb_insert",
  "arrow_error_partial",
  "arrow_partial_duplicates"]

/-- The counters, which have the keys that they are made with. -/
structure ArrowMetrics where
  counts : Dict String Nat
  keys_eq : counts.keys = metricKeys

namespace ArrowMetrics

/-- The counters as `__init__` makes them. -/
def zero : ArrowMetrics where
  counts := ⟨metricKeys.map fun key => (key, 0), by decide⟩
  keys_eq := rfl

/-- `self._arrow_metrics[key] += n`. -/
def add (key : String) (n : Nat) (m : ArrowMetrics) : Except CoordinatorError ArrowMetrics :=
  match h : m.counts.get? key with
  | none => .error (.keyError key)
  | some v => .ok {
      counts := m.counts.insert key (v + n)
      keys_eq := by rw [Dict.keys_insert, if_pos (Dict.mem_keys_of_get? h), m.keys_eq] }

variable {key : String} {n : Nat} {m : ArrowMetrics}

theorem add_of_mem (h : key ∈ metricKeys) : ∃ m', m.add key n = .ok m' := by
  rw [← m.keys_eq] at h
  rw [add]
  split
  · next hnone => exact absurd h (Dict.notMem_keys_iff.2 hnone)
  · exact ⟨_, rfl⟩

theorem add_of_notMem (h : key ∉ metricKeys) : m.add key n = .error (.keyError key) := by
  rw [← m.keys_eq] at h
  rw [add]
  split
  · rfl
  · next v hsome => exact absurd (Dict.mem_keys_of_get? hsome) h

end ArrowMetrics

end DuckDBWriteCoordinator

/-! ### The coordinator -/

open DuckDBWriteCoordinator

/-- `DuckDBWriteCoordinator`. Of its own WAL manager there is the environment that it writes to: one on
`shadow_wal.lmdb` is never open, since `LMDBKVStore.init` always raises. `acceptedCount` is that of its quality state,
if it has one, and `semanticBuffer` and `graph` are what it has handed over. -/
structure DuckDBWriteCoordinator where
  duckdb : WalStore := {}
  walRoot : Bool := true
  walManager : Option Backend := none
  breakerState : CBState := .closed
  breakerFailures : Nat := 0
  breakerLastFailure : ℚ := 0
  breakerCooldown : ℚ := 30
  breakerThreshold : Nat := 5
  writeOpCounter : Nat := 0
  arrowMetrics : ArrowMetrics := .zero
  acceptedCount : Option Nat := none
  semanticBuffer : Option (List ScoredFinding) := none
  graph : List ScoredFinding := []

namespace DuckDBWriteCoordinator

/-- How what the coordinator calls comes out: the variable `HLEDAC_ARROW_INGEST`, whether `pyarrow` can be imported,
whether the store is started within thirty seconds, the clock, whether the executors run what they are given, the log
operations of the coordinator and of the store, the bulk insert, and whether the graph buffers its writes. -/
structure Calls where
  arrowIngest : Option String := none
  pyarrow : Bool := true
  startup : Bool := true
  now : ℚ := 0
  walExecutor : Bool := true
  arrowExecutor : Except String Unit := .ok ()
  own : Outcomes := {}
  stores : Outcomes := {}
  scrub : String → String := id
  arrow : List ScoredFinding → ArrowOutcome := fun findings => .ok (findings.length, none)
  graphBuffers : Bool := false

/-- A method of the coordinator. -/
abbrev CoordinatorM := Raising CoordinatorError DuckDBWriteCoordinator

variable (k : Calls) (findings : List ScoredFinding)

/-- `self._arrow_metrics[key] += n`. -/
def count (key : String) (n : Nat) : CoordinatorM PUnit := do
  let c ← get
  let m ← Raising.ofExcept (c.arrowMetrics.add key n)
  set { c with arrowMetrics := m }

/-- `_check_circuit_breaker`; `duckdb_write_coordinator.py:227-237`. -/
def checkCircuitBreaker : CoordinatorM Bool := do
  let c ← get
  if c.breakerState = .open then
    if c.breakerCooldown ≤ k.now - c.breakerLastFailure then
      set { c with breakerState := .halfOpen }
      return true
    else return false
  else return true

/-- `_record_failure`; `duckdb_write_coordinator.py:239-248`. -/
def recordFailure : CoordinatorM PUnit :=
  modify fun c => { c with
    breakerFailures := c.breakerFailures + 1
    breakerLastFailure := k.now
    breakerState := if c.breakerThreshold ≤ c.breakerFailures + 1 then .open else c.breakerState }

/-- `_record_success`; `duckdb_write_coordinator.py:250-253`. -/
def recordSuccess : CoordinatorM PUnit :=
  modify fun c => { c with
    breakerFailures := 0
    breakerState := .closed }

/-! ### The log of the coordinator -/

/-- `_ensure_wal_manager`; `duckdb_write_coordinator.py:255-271`. The manager is kept although it does not open. -/
def ensureWalManager : CoordinatorM Bool := do
  let c ← get
  match c.walManager with
  | some _ => return true
  | none =>
    if c.walRoot then
      set { c with walManager := some .shadow }
      match LMDBKVStore.init k.own.opens with
      | .error _ => return false
      | .ok () => return true
    else return false

/-- The items that the coordinator puts, with their payload texts as they are. -/
def walItems : List (String × WalRecord) := findings.map fun f => f.walItem f.payloadText

/-- `_wal_put_many_sync`; `duckdb_write_coordinator.py:595-633`, `wal.py:673-682`. -/
def walPutManySync : CoordinatorM Bool := do
  let c ← get
  match c.walManager with
  | none => return false
  | some .shadow => return findings.isEmpty
  | some .unified =>
    let p := Backend.unified.putMany k.own.chunk (walItems findings) c.duckdb.unified
    set { c with duckdb := { c.duckdb with unified := p.2 } }
    return p.1.all id

/-- `_wal_put_many`; `duckdb_write_coordinator.py:577-593`. -/
def walPutMany : CoordinatorM Bool := do
  if findings = [] then return true
  else if !(← ensureWalManager k) then return false
  else if k.walExecutor then walPutManySync k findings
  else return false

/-! ### The Arrow path -/

/-- `_ARROW_MIN_BATCH`; `duckdb_write_coordinator.py:324`. -/
def arrowMinBatch : Nat := 5

/-- `_check_arrow_conditions`, as the reason not to take the path; `duckdb_write_coordinator.py:319-332`. -/
def checkArrowConditions : Option String :=
  if findings = [] then some "empty_findings"
  else if k.arrowIngest.getD "1" = "0" then some "env_disabled"
  else if findings.length < arrowMinBatch then some "batch_too_small"
  else none

/-- `_try_duckdb_basic`; `duckdb_write_coordinator.py:306-317`. -/
def tryDuckdbBasic : Nat × Option String :=
  match k.arrowExecutor, k.arrow findings with
  | .ok (), .ok r => r
  | .ok (), .error e => (0, some e)
  | .error e, _ => (0, some e)

/-- `_build_arrow_results`; `duckdb_write_coordinator.py:334-346`. -/
def buildArrowResults (walOk duckdbAllOk : Bool) (duckdbErr : Option String) : List IngestRecord :=
  findings.map fun f => {
    findingId := some f.findingId
    lmdbSuccess := walOk
    duckdbSuccess := some duckdbAllOk
    error := duckdbErr }

/-- The records of findings that are in the log. -/
def lmdbOk (records : List IngestRecord) : Nat := records.countP fun r => r.lmdbSuccess

/-- The records of findings that are in DuckDB. -/
def duckdbOk (records : List IngestRecord) : Nat := records.countP fun r => r.duckdbSuccess = some true

/-- Findings of which some are in the log go to the graph and to the semantic buffer, and the quality state counts
them; `duckdb_write_coordinator.py:350-360`, `532-542`. -/
def handOver (records : List IngestRecord) : CoordinatorM PUnit :=
  modify fun c =>
    let accepted := 0 < lmdbOk records
    { c with
      graph := if accepted ∧ k.graphBuffers then c.graph ++ findings else c.graph
      semanticBuffer := if accepted then c.semanticBuffer.map (· ++ findings) else c.semanticBuffer
      acceptedCount := c.acceptedCount.map (· + lmdbOk records) }

/-- `_handle_arrow_post_process`; `duckdb_write_coordinator.py:348-370`. The module imports `time as _time` in other
methods and not in this one, so that the maintenance of the store is never reached. -/
def handleArrowPostProcess (results : List IngestRecord) : CoordinatorM PUnit := do
  handOver k findings results
  modify fun c => { c with writeOpCounter := c.writeOpCounter + findings.length }
  throw (.nameError "_time")

/-- `_update_arrow_metrics`; `duckdb_write_coordinator.py:372-385`. -/
def updateArrowMetrics (results : List IngestRecord) (duckdbAllOk : Bool) : CoordinatorM PUnit := do
  count "arrow_selected" results.length
  count "arrow_success_count" results.length
  count "arrow_success_lmdb_count" (lmdbOk results)
  count "arrow_success_duckdb_count" (duckdbOk results)
  if duckdbAllOk then recordSuccess else recordFailure k

/-- `_wait_startup_barrier`; `duckdb_write_coordinator.py:387-397`. -/
def waitStartupBarrier (batchSize : Nat) : CoordinatorM Bool := do
  if k.startup then return true
  else
    count "arrow_fallback_init" batchSize
    return false

/-- The last phase of `_execute_arrow_pipeline`, once the batch is in the log; `duckdb_write_coordinator.py:444-463`. -/
def executeDuckdbPhase : CoordinatorM ArrowIngestResult := do
  let (duckdbCount, duckdbErr) := tryDuckdbBasic k findings
  let duckdbAllOk : Bool := duckdbErr = none ∨ findings.length ≤ duckdbCount
  if duckdbCount < findings.length then count "arrow_partial_duplicates" 1
  let results := buildArrowResults findings true duckdbAllOk duckdbErr
  return {
    status := .success
    results
    duckdbAllOk
    duckdbCount
    duckdbErr
    lmdbOkCount := lmdbOk results
    duckdbOkCount := duckdbOk results }

/-- `_execute_arrow_pipeline`; `duckdb_write_coordinator.py:399-463`. -/
def executeArrowPipeline : CoordinatorM ArrowIngestResult := do
  if !k.pyarrow then
    count "arrow_fallback_pyarrow" findings.length
    return { status := .fallbackPyarrow, duckdbErr := some "pyarrow_unavailable" }
  else if !(← waitStartupBarrier k findings.length) then
    return { status := .fallbackInit, duckdbErr := some "startup_timeout" }
  else if !(← checkCircuitBreaker k) then
    return { status := .fallbackCircuit, duckdbErr := some "circuit_breaker_open" }
  else if !(← walPutMany k findings) then
    return { status := .fallbackWal, duckdbErr := some "wal_failed" }
  else executeDuckdbPhase k findings

/-! ### The batch paths -/

/-- `_build_activation_results`; `duckdb_write_coordinator.py:546-562`. -/
def buildActivationResults (records : List IngestRecord) : List ActivationResult :=
  records.map fun r => {
    findingId := r.findingId.getD ""
    lmdbSuccess := r.lmdbSuccess
    duckdbSuccess := r.duckdbSuccess
    lmdbKey := "finding:" ++ r.findingId.getD ""
    desync := r.desync
    error := r.error
    accepted := r.lmdbSuccess }

/-- `_build_activation_results_from_findings`; `duckdb_write_coordinator.py:564-582`. -/
def buildActivationResultsFromFindings (error : String) : List ActivationResult :=
  findings.map fun f => {
    findingId := f.findingId
    lmdbSuccess := false
    duckdbSuccess := none
    lmdbKey := "finding:" ++ f.findingId
    desync := false
    error := some error }

/-- The dictionaries of the store: those of a batch that is not in the log are without `finding_id`;
`duckdb_store.py:11237-11332`. -/
def identified (results : List RecordResult) : List IngestRecord :=
  List.zipWith (fun f r => { r with findingId := if r.lmdbSuccess then some f.findingId else none }) findings results

/-- `ingest_batch_legacy`; `duckdb_write_coordinator.py:514-544`. -/
def ingestBatchLegacy : CoordinatorM (List ActivationResult) := do
  if findings = [] then return []
  else
    match k.arrowExecutor with
    | .error e => return buildActivationResultsFromFindings findings e
    | .ok () =>
      let c ← get
      let course :=
        (syncRecordCanonicalFindingsBatchArrowStandalone k.stores k.scrub (k.arrow findings) findings).course c.duckdb
      set { c with duckdb := course.final }
      match course.value with
      | .error e => return buildActivationResultsFromFindings findings e
      | .ok results =>
        let records := identified findings results
        handOver k findings records
        return buildActivationResults records

/-- `ingest_batch_arrow`; `duckdb_write_coordinator.py:475-512`. -/
def ingestBatchArrow : CoordinatorM (List ActivationResult) := do
  if findings = [] then return []
  else
    match checkArrowConditions k findings with
    | some reason =>
      count ("arrow_fallback_" ++ reason) findings.length
      ingestBatchLegacy k findings
    | none =>
      if !k.pyarrow then
        count "arrow_fallback_batch" findings.length
        ingestBatchLegacy k findings
      else
        let result ← executeArrowPipeline k findings
        if result.shouldFallback then ingestBatchLegacy k findings
        else
          handleArrowPostProcess k findings result.results
          updateArrowMetrics k result.results result.duckdbAllOk
          return buildActivationResults result.results

end DuckDBWriteCoordinator

end Hledac.Knowledge
