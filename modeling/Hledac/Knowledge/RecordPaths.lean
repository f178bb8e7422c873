import Hledac.Knowledge.WalMethods

/-!
# The four ways a finding is recorded

Each writes the log first and DuckDB second. When DuckDB fails, `_activation_record_finding` leaves a
marker for a later replay, if it can; the batch paths leave none.
-/

namespace Hledac.Knowledge

open Hledac.Lib

/-- A `CanonicalFinding` with the rest of what goes into the log. -/
structure ScoredFinding extends CanonicalFinding where
  confidence : ℚ
  ts : ℚ

/-- The dictionary that a record path returns. -/
structure RecordResult where
  lmdbSuccess : Bool := false
  duckdbSuccess : Option Bool := none
  error : Option String := none
  deriving DecidableEq, Repr

/-- Recorded in the log and not in DuckDB. -/
def RecordResult.desync (r : RecordResult) : Bool := r.lmdbSuccess && r.duckdbSuccess == some false

/-- What the bulk insert through Arrow comes to: the rows inserted and an error, or an exception. -/
abbrev ArrowOutcome := Except String (Nat × Option String)

/-- Whether it inserted that many rows, without an error. -/
def ArrowOutcome.inserts (arrow : ArrowOutcome) (n : Nat) : Bool :=
  match arrow with
  | .ok (count, none) => n ≤ count
  | _ => false

/-! ### The paths -/

/-- What follows a failed insert: a marker, then the prewrite record away; `duckdb_store.py:12378-12392`. -/
def walMarkPending (out : Outcomes) (id query sourceType : String) (confidence : ℚ) : WalM PUnit := do
  let _ ← walWritePendingSyncMarker out id query sourceType confidence
  let _ ← walClearPrewrite out id

/-- `_activation_record_finding`; `knowledge/duckdb_store.py:12338-12393`. -/
def activationRecordFinding (out : Outcomes) (id query sourceType : String) (confidence : ℚ) :
    WalM (Except StoreError RecordResult) := do
  match ← walWriteFinding out id query sourceType confidence with
  | .error e => return .error e
  | .ok false => return .ok {}
  | .ok true =>
    let _ ← walWritePrewrite out id
    match ← syncInsertFinding out id query sourceType confidence with
    | .inserted =>
      walCommit out id
      return .ok { lmdbSuccess := true, duckdbSuccess := some true }
    | _ =>
      walMarkPending out id query sourceType confidence
      return .ok { lmdbSuccess := true, duckdbSuccess := some false }

/-- `DuckDBWALManager.wal_put` takes one argument; `knowledge/duckdb_wal_manager.py:153-155`. -/
def walPut (_key : String) (_payload : WalRecord) : Except StoreError Bool :=
  .error (.typeError "DuckDBWALManager.wal_put() takes 2 positional arguments but 3 were given")

/-- `_canonical_finding_to_activation_result`; `duckdb_store.py:7519-7589`. What follows a `wal_put` that
returns is never reached. -/
def canonicalFindingToActivationResult (out : Outcomes) (f : ScoredFinding) : WalM RecordResult := do
  match ← ensureWalManager out with
  | .error e => return { error := some e.message }
  | .ok false => return { error := some "no wal root" }
  | .ok true =>
    match walPut (WalKind.finding.head ++ f.findingId)
        { query := some f.query
          sourceType := some f.sourceType
          confidence := some f.confidence
          ts := f.ts
          provenance := some f.provenance
          payloadText := f.payloadText } with
    | .error e => return { error := some e.message }
    | .ok lmdbOk => return { lmdbSuccess := lmdbOk }

/-- A finding as an item of `wal_put_many`. -/
def ScoredFinding.walItem (f : ScoredFinding) (payloadText : Option String) : String × WalRecord :=
  (f.findingId,
    { query := some f.query
      sourceType := some f.sourceType
      confidence := some f.confidence
      ts := f.ts
      provenance := some f.provenance
      payloadText := payloadText })

/-- The payload text without its secrets. -/
def ScoredFinding.scrubbed (scrub : String → String) (f : ScoredFinding) : Option String :=
  f.payloadText.map fun text => if text = "" then text else scrub text

/-- `wal_put_many` and `all` of its answers; `wal.py:673-682`, `duckdb_store.py:7661-7666`. -/
def walPutAll (out : Outcomes) (items : List (String × WalRecord)) : WalM Bool := do
  match (← Steps.read).handle with
  | none => return items.isEmpty
  | some b => Steps.op .putMany fun s =>
      let p := b.putMany out.chunk items (s.env b)
      (p.1.all id, s.setEnv p.2 b)

/-- The log part of the two batch paths: nothing, or the error of every finding. -/
def walRecordBatch (out : Outcomes) (items : List (String × WalRecord)) : WalM (Except String Unit) := do
  match ← ensureWalManager out with
  | .error e => return .error e.message
  | .ok false => return .error "no wal root"
  | .ok true => return if ← walPutAll out items then .ok () else .error "lmdb batch failed"

/-- `_record_fail_open_batch`; `duckdb_store.py:7591-7738`. An insert of fewer rows than findings is a
failure. What it adds to the counter of accepted findings is left out. -/
def recordFailOpenBatch (out : Outcomes) (arrow : ArrowOutcome) (findings : List ScoredFinding) :
    WalM (List RecordResult) := do
  if findings = [] then return []
  else
    match ← walRecordBatch out (findings.map fun f => f.walItem f.payloadText) with
    | .error e => return findings.map fun _ => { error := some e }
    | .ok () => return findings.map fun _ =>
        { lmdbSuccess := true
          duckdbSuccess := some (arrow.inserts findings.length) }

/-- `_sync_record_canonical_findings_batch_arrow_standalone`; `duckdb_store.py:11217-11334`. `scrub` is
`scrub_secrets`, or the text itself where that raises. Fewer rows than findings are taken for
duplicates. -/
def syncRecordCanonicalFindingsBatchArrowStandalone (out : Outcomes) (scrub : String → String)
    (arrow : ArrowOutcome) (findings : List ScoredFinding) :
    WalM (Except String (List RecordResult)) := do
  if findings = [] then return .ok []
  else
    match ← walRecordBatch out (findings.map fun f => f.walItem (f.scrubbed scrub)) with
    | .error e => return .ok (findings.map fun _ => { error := some e })
    | .ok () => return arrow.map fun r => findings.map fun _ =>
        { lmdbSuccess := true
          duckdbSuccess := some r.2.isNone
          error := r.2 }

/-! ### Trails -/

/-- A call of a record path. -/
inductive RecordCall where
  | activation (id query sourceType : String) (confidence : ℚ)
  | canonical (f : ScoredFinding)
  | failOpen (arrow : ArrowOutcome) (findings : List ScoredFinding)
  | standalone (scrub : String → String) (arrow : ArrowOutcome) (findings : List ScoredFinding)

/-- What the call says of each finding. A call that raises says nothing. -/
def RecordCall.run (out : Outcomes) : RecordCall → WalM (List (String × RecordResult))
  | activation id query sourceType confidence => do
    return ((← activationRecordFinding out id query sourceType confidence).toOption.map
      fun r => (id, r)).toList
  | canonical f => return [(f.findingId, ← canonicalFindingToActivationResult out f)]
  | failOpen arrow findings => do
    return (findings.map (·.findingId)).zip (← recordFailOpenBatch out arrow findings)
  | standalone scrub arrow findings => do
    return (findings.map (·.findingId)).zip
      ((← syncRecordCanonicalFindingsBatchArrowStandalone out scrub arrow findings).toOption.getD [])

/-- The log holds the finding, and a replay would find it: by its pending marker, or by a prewrite record
without checkpoint. -/
def WalStore.HasTrail (s : WalStore) (id : String) : Prop :=
  (s.log.get .finding id).isSome = true ∧
    ((s.log.get .pendingSync id).isSome = true ∨
      (s.log.get .prewrite id).isSome = true ∧ s.log.get .checkpoint id = none)

/-- Every finding that the call recorded in the log and not in DuckDB has left a trail. -/
def LeavesTrails (s : WalStore) (out : Outcomes) (call : RecordCall) : Prop :=
  ∀ p ∈ ((call.run out).course s).value, p.2.desync = true → ((call.run out).course s).final.HasTrail p.1

end Hledac.Knowledge
