import Hledac.Lib.Chunks
import Hledac.Knowledge.Finding

/-!
# The Arrow builders

`_sync_record_canonical_findings_batch_arrow` of `knowledge/duckdb_store.py` builds an Arrow batch of findings by one of
five builders and hands it to DuckDB. Large lists are cut and built in the threads of a pool by the builders that only
build. Of the columns of a batch `payload_text` is kept; the others are copied from the findings.
-/

namespace Hledac.Knowledge

open Hledac.Lib

/-- `pyarrow.RecordBatch` and `pyarrow.Table`. -/
inductive ArrowKind where
  | recordBatch
  | table
  deriving DecidableEq, Repr

/-- What is handed to DuckDB. -/
structure ArrowBatch where
  kind : ArrowKind
  payloadText : List String
  deriving DecidableEq, Repr

/-- A dictionary of `_enrich_canonical_findings_for_arrow`. -/
structure EnrichedDict where
  payloadText : Option String
  claimsJson : Option String

/-- `d.get("claims_json") or "[]"`. -/
def EnrichedDict.claimsOrNone (d : EnrichedDict) : String :=
  match d.claimsJson with
  | some text => if text = "" then "[]" else text
  | none => "[]"

/-- `bool(d.get("claims_json"))`. -/
def EnrichedDict.hasClaims (d : EnrichedDict) : Bool := d.claimsJson.any (· ≠ "")

/-- The three ways of `_qe_insert_batch` into DuckDB. -/
inductive InsertTier where
  | copyArrow
  | parquet
  | mergeArrow
  deriving DecidableEq, Repr

/-- The count and the error type that the insert paths return. -/
abbrev InsertResult := Int × Option String

/-- The bytes of an IPC stream, as the payload column they hold. There are none for no rows, and more than eight for
any. -/
abbrev IpcBytes := List String

/-- What a sub-batch comes to in its thread. -/
abbrev BuildOutcome := Except StoreError (Option ArrowBatch)

/-- The store and the libraries, as far as the Arrow builders read them. -/
structure ArrowPaths where
  /-- `_check_pyarrow_available`. -/
  pyarrow : Bool
  /-- `_claims_enabled`. -/
  claimsEnabled : Bool
  /-- `_PARALLEL_ARROW_MIN_BATCH`. -/
  parallelArrowMinBatch : Int := 2048
  /-- `_PARQUET_MIN_BATCH`. -/
  parquetMinBatch : Int := 5000
  /-- The `chunk_size` of the settings. -/
  chunkSize : Nat := 1024
  /-- `_RUST_RECORD_BATCH_FINDINGS_AVAILABLE`. -/
  rustFindings : Bool
  /-- `_RUST_RECORD_BATCH_COLS_AVAILABLE`. -/
  rustCols : Bool
  /-- `_RUST_ARROW_AVAILABLE`. -/
  rustDict : Bool
  /-- `scrub_secrets`. -/
  scrub : String → String
  /-- Whether `RecordBatch::try_new` takes columns of these lengths. -/
  tryNew : List Nat → Bool
  tryNew_replicate : ∀ columns n, tryNew (List.replicate columns n) = true
  /-- Whether a stream reader of `pyarrow` has the method `read_record_batch`. -/
  readRecordBatch : Bool
  /-- What `pa.array` makes of a tuple in a column of strings, `none` where it raises. -/
  tupleText : List String → Option String
  /-- Whether `pa.concat_tables` takes objects of these kinds. -/
  concatTables : List ArrowKind → Bool
  /-- The order of `as_completed`. -/
  asCompleted : List (BuildOutcome × Nat) → List (BuildOutcome × Nat)
  asCompleted_perm : ∀ futures, (asCompleted futures).Perm futures
  /-- How DuckDB answers, after all that was handed to it. -/
  answer : InsertTier → List ArrowBatch → Except StoreError InsertResult

/-- `StopIteration`. -/
def stopIteration : StoreError := .other "StopIteration"

/-- The module imports `logging`, and its functions call `_logging`; `duckdb_store.py:69`. -/
def moduleLogging : Except StoreError Unit := .error (.nameError "_logging")

/-- `_PARALLEL_ARROW_SUB_BATCH`; `duckdb_store.py:10479`. -/
def parallelArrowSubBatch : Nat := 1024

/-- `MAX_FINDINGS_PER_CALL`; `arrow_batch_builder.rs:60`. -/
def maxFindingsPerCall : Nat := 50000

/-- `f.payload_text or ""`. -/
def CanonicalFinding.rawPayload (f : CanonicalFinding) : String := f.payloadText.getD ""

namespace ArrowPaths

/-- `_scrub_payload`, and the same lines in the loops of the other builders; `duckdb_store.py:11044-11050`. -/
def scrubPayload (k : ArrowPaths) : Option String → String
  | some raw => if raw = "" then "" else k.scrub raw
  | none => ""

/-- The store has no method `_enrich_canonical_findings_for_arrow`; `duckdb_store.py:10421`, `10583`. -/
def findingsDicts (k : ArrowPaths) : Except StoreError (Option (List EnrichedDict)) :=
  if k.claimsEnabled then .error (.attributeError "_enrich_canonical_findings_for_arrow") else .ok none

/-! ### The extension -/

/-- `build_ipc_bytes`, with the number of rows and the lengths of the five WARC columns;
`arrow_batch_builder.rs:171-258`. -/
def buildIpcBytes (k : ArrowPaths) (payloadTexts : List String) (warc : Nat) : Option IpcBytes :=
  if k.tryNew (List.replicate 8 payloadTexts.length ++ List.replicate 5 warc) then some payloadTexts else none

/-- `build_record_batch_from_findings`, to which `claims_jsons` may not be given; `arrow_batch_builder.rs:794-936`. -/
def buildRecordBatchFromFindings (k : ArrowPaths) (findings : List CanonicalFinding)
    (payloadTexts : List String) (claimsJsons : Option (List String)) : Except StoreError (Option IpcBytes) :=
  match claimsJsons with
  | none => .error (.typeError
      "build_record_batch_from_findings() missing 1 required positional argument: 'claims_jsons'")
  | some claims =>
    let n := findings.length
    if n = 0 then .ok (some [])
    else if maxFindingsPerCall < n then .ok none
    else if n ≠ payloadTexts.length ∨ n ≠ claims.length then .ok none
    else .ok (k.buildIpcBytes payloadTexts 0)

/-- `build_record_batch_from_structs`, to which `claims_jsons` may not be given; `arrow_batch_builder.rs:622-763`. -/
def buildRecordBatchFromStructs (k : ArrowPaths) (ids payloadTexts : List String)
    (claimsJsons : Option (List String)) : Except StoreError (Option IpcBytes) :=
  match claimsJsons with
  | none => .error (.typeError
      "build_record_batch_from_structs() missing 1 required positional argument: 'claims_jsons'")
  | some claims =>
    let n := ids.length
    if n ≠ payloadTexts.length ∨ n ≠ claims.length then .ok none
    else if n = 0 then .ok (some [])
    else if maxFindingsPerCall < n then .ok none
    else .ok (k.buildIpcBytes payloadTexts 0)

/-- What `build_arrow_batch_from_findings` is given. -/
inductive RustItem where
  | struct (f : CanonicalFinding)
  | dict (d : EnrichedDict)

/-- `payload_text` of `FindingsRow::from_dict`: a struct has no items, and the text of `None` is a text;
`arrow_batch_builder.rs:126-130`. -/
def RustItem.payloadText : RustItem → String
  | .struct _ => ""
  | .dict d => d.payloadText.getD "None"

/-- `build_arrow_batch_from_findings`; `arrow_batch_builder.rs:458-513`. -/
def buildArrowBatchFromFindings (k : ArrowPaths) (items : List RustItem) : Option IpcBytes :=
  if items.length = 0 then some []
  else if maxFindingsPerCall < items.length then none
  else k.buildIpcBytes (items.map (·.payloadText)) items.length

/-- `arrow_ipc_to_record_batch`; `duckdb_store.py:314-372`. Every way to `None` goes through `_logging`. -/
def arrowIpcToRecordBatch (k : ArrowPaths) (ipcBytes : IpcBytes) : BuildOutcome :=
  if ipcBytes = [] then do
    moduleLogging
    return none
  else if k.readRecordBatch then return some ⟨.recordBatch, ipcBytes⟩
  else do
    moduleLogging
    return none

/-! ### The builders that only build -/

/-- `_arrow_build_rust_findings`, which gives the extension three arguments; `duckdb_store.py:10608-10645`. -/
def arrowBuildRustFindings (k : ArrowPaths) (findings : List CanonicalFinding)
    (_findingsDicts : Option (List EnrichedDict)) : BuildOutcome :=
  if findings = [] then .ok none
  else
    match k.buildRecordBatchFromFindings findings (findings.map fun f => k.scrubPayload f.payloadText) none with
    | .error _ => .ok none
    | .ok none => .ok none
    | .ok (some ipcBytes) => if ipcBytes = [] then .ok none else k.arrowIpcToRecordBatch ipcBytes

/-- `_arrow_build_rust_cols`, which gives the extension seven arguments; `duckdb_store.py:10647-10679`. -/
def arrowBuildRustCols (k : ArrowPaths) (findings : List CanonicalFinding)
    (_findingsDicts : Option (List EnrichedDict)) : BuildOutcome :=
  if findings = [] then .ok none
  else
    match k.buildRecordBatchFromStructs (findings.map (·.findingId)) (findings.map (·.rawPayload)) none with
    | .error _ => .ok none
    | .ok none => .ok none
    | .ok (some ipcBytes) => if ipcBytes = [] then .ok none else k.arrowIpcToRecordBatch ipcBytes

/-- `_arrow_build_rust_dict`, which gives the extension the findings themselves; `duckdb_store.py:10681-10700`. -/
def arrowBuildRustDict (k : ArrowPaths) (findings : List CanonicalFinding)
    (_findingsDicts : Option (List EnrichedDict)) : BuildOutcome :=
  if findings = [] then .ok none
  else
    match k.buildArrowBatchFromFindings (findings.map .struct) with
    | none => .ok none
    | some ipcBytes => if ipcBytes = [] then .ok none else k.arrowIpcToRecordBatch ipcBytes

/-- `ArrowBuildStatus`; `duckdb_arrow_builder.py:32-39`. -/
inductive ArrowBuildStatus where
  | success
  | fallbackLegacy
  | fallbackPyarrow
  deriving DecidableEq, Repr

/-- `_try_pyarrow_batch`; `duckdb_arrow_builder.py:192-227`. The counters are those of the store, which have no
`arrow_error_count`. -/
def tryPyarrowBatch (k : ArrowPaths) (findings : List CanonicalFinding) : Except StoreError ArrowBatch :=
  if findings.all fun f => f.provenance = [] || (k.tupleText f.provenance).isSome then
    .ok ⟨.table, findings.map (·.rawPayload)⟩
  else .error (.other "'arrow_error_count'")

/-- `build_arrow_batch`; `duckdb_arrow_builder.py:119-159`. The extension has no `batch_findings_to_arrow_ipc`, so
that its branch is never taken. -/
def buildArrowBatch (k : ArrowPaths) (findings : List CanonicalFinding) :
    Except StoreError (Option ArrowBatch × ArrowBuildStatus) :=
  if findings = [] then .ok (none, .success)
  else if findings.length < 5 then .ok (none, .fallbackLegacy)
  else do
    let table ← k.tryPyarrowBatch (findings.take k.chunkSize)
    return (some table, .fallbackPyarrow)

/-- `_arrow_build_python`, with the unscrubbed texts; `duckdb_store.py:10702-10769`. -/
def arrowBuildPython (k : ArrowPaths) (findings : List CanonicalFinding)
    (_findingsDicts : Option (List EnrichedDict)) : BuildOutcome :=
  match k.buildArrowBatch findings with
  | .ok (some table, _) => .ok (some table)
  | _ => if findings = [] then .ok none else .ok (some ⟨.recordBatch, findings.map (·.rawPayload)⟩)

/-- A builder that is tried where it is available, and the next where it builds nothing. -/
def tryBuild (available : Bool) (build next : BuildOutcome) : BuildOutcome :=
  if available then do
    match ← build with
    | some table => return some table
    | none => next
  else next

/-- `any(d.get("claims_json") for d in findings_dicts)`, where there are any. -/
def hasClaims (findingsDicts : Option (List EnrichedDict)) : Bool := findingsDicts.any (·.any (·.hasClaims))

/-- `_build_arrow_table_only`; `duckdb_store.py:10565-10605`. -/
def buildArrowTableOnly (k : ArrowPaths) (findings : List CanonicalFinding) : BuildOutcome :=
  if findings = [] then .ok none
  else if !k.pyarrow then .ok none
  else do
    let findingsDicts ← k.findingsDicts
    tryBuild (!hasClaims findingsDicts && k.rustFindings) (k.arrowBuildRustFindings findings findingsDicts) <|
      tryBuild (!hasClaims findingsDicts && k.rustCols) (k.arrowBuildRustCols findings findingsDicts) <|
        tryBuild k.rustDict (k.arrowBuildRustDict findings findingsDicts) <|
          k.arrowBuildPython findings findingsDicts

/-- The table of a future, with its place; a future that raised or has no table has failed. -/
def built (future : BuildOutcome × Nat) : Option (ArrowBatch × Nat) :=
  match future with
  | (.ok (some table), idx) => some (table, idx)
  | _ => none

/-- `_build_arrow_batch_parallel`; `duckdb_store.py:10481-10563`. -/
def buildArrowBatchParallel (k : ArrowPaths) (findings : List CanonicalFinding) : Option (ArrowBatch × Nat) :=
  if (findings.length : Int) < k.parallelArrowMinBatch then none
  else
    let subBatches := chunks parallelArrowSubBatch findings
    if subBatches.length ≤ 1 then none
    else
      let futures := k.asCompleted (subBatches.zipIdx.map fun sub => (k.buildArrowTableOnly sub.1, sub.2))
      if futures.any fun future => (built future).isNone then none
      else
        let tables := (futures.filterMap built).mergeSort fun a b => decide (a.2 ≤ b.2)
        if k.concatTables (tables.map (·.1.kind)) then
          some (⟨.table, (tables.map (·.1.payloadText)).flatten⟩, (tables.map (·.1.payloadText.length)).sum)
        else none

/-! ### The insert paths -/

/-- Computations that hand batches to DuckDB, the newest last. -/
abbrev ArrowM := Raising StoreError (List ArrowBatch)

/-- A batch is handed to DuckDB. -/
def hand (k : ArrowPaths) (tier : InsertTier) (batch : ArrowBatch) : ArrowM InsertResult := do
  modify (· ++ [batch])
  let handed ← get
  Raising.ofExcept (k.answer tier handed)

/-- `_result[0] > 0 or _result[1] is None`. -/
def settles (result : InsertResult) : Bool := 0 < result.1 || result.2.isNone

/-- What is tried next where the result does not settle it. -/
def orNext (path next : ArrowM InsertResult) : ArrowM InsertResult := do
  let result ← path
  if settles result then return result else next

/-- `_qe_insert_batch`; `duckdb_store.py:10771-10796`. -/
def qeInsertBatch (k : ArrowPaths) (batch : ArrowBatch) (n : Nat) : ArrowM InsertResult :=
  orNext (k.hand .copyArrow batch) <|
    if k.parquetMinBatch ≤ n then orNext (k.hand .parquet batch) (k.hand .mergeArrow batch)
    else k.hand .mergeArrow batch

/-- The count, or `duckdb_insert_failed`. -/
def insertOutcome (result : InsertResult) : InsertResult :=
  match result.2 with
  | some _ => (0, some "duckdb_insert_failed")
  | none => (result.1, none)

/-- `_qe_insert_batch` and what its callers make of its result. -/
def insertBatch (k : ArrowPaths) (batch : ArrowBatch) (n : Nat) : ArrowM InsertResult := do
  return insertOutcome (← k.qeInsertBatch batch n)

/-- `except StopIteration: return (0, None)`. -/
def exceptStopIteration (x : ArrowM InsertResult) : ArrowM InsertResult :=
  tryCatch x fun e => if e = stopIteration then return (0, none) else throw e

/-- `claims_jsons_list` of the dictionaries, where there are any. -/
def claimsJsonsList : Option (List EnrichedDict) → Option (List String)
  | some (d :: ds) => some ((d :: ds).map (·.claimsOrNone))
  | _ => none

/-- `_arrow_insert_rust_findings`; `duckdb_store.py:10798-10885`. -/
def arrowInsertRustFindings (k : ArrowPaths) (findings : List CanonicalFinding)
    (findingsDicts : Option (List EnrichedDict)) : ArrowM InsertResult :=
  if findings = [] then return (0, none)
  else
    match k.buildRecordBatchFromFindings findings (findings.map fun f => k.scrubPayload f.payloadText)
        (some ((claimsJsonsList findingsDicts).getD (List.replicate findings.length "[]"))) with
    | .error _ => return (0, some "rust_failed")
    | .ok none => return (0, some "rust_failed")
    | .ok (some ipcBytes) => do
      if ipcBytes = [] then return (0, some "rust_failed")
      else
        match ← Raising.ofExcept (k.arrowIpcToRecordBatch ipcBytes) with
        | none => do
          Raising.ofExcept moduleLogging
          return (0, none)
        | some batch => exceptStopIteration (k.insertBatch batch findings.length)

/-- `_arrow_insert_rust_cols`, where `n` is not bound; `duckdb_store.py:10887-10955`. -/
def arrowInsertRustCols (k : ArrowPaths) (findings : List CanonicalFinding)
    (findingsDicts : Option (List EnrichedDict)) : ArrowM InsertResult :=
  match claimsJsonsList findingsDicts with
  | none => throw (.nameError "n")
  | some claims =>
    match k.buildRecordBatchFromStructs (findings.map (·.findingId))
        (findings.map fun f => k.scrubPayload f.payloadText) (some claims) with
    | .error _ => return (0, some "rust_cols_failed")
    | .ok none => return (0, some "rust_cols_failed")
    | .ok (some ipcBytes) => do
      if ipcBytes = [] then return (0, some "rust_cols_failed")
      else
        match ← Raising.ofExcept (k.arrowIpcToRecordBatch ipcBytes) with
        | none => return (0, none)
        | some batch => k.insertBatch batch findings.length

/-- The dictionaries of `_arrow_insert_rust_dict`; `duckdb_store.py:10968-10999`. -/
def rustDicts (k : ArrowPaths) (findings : List CanonicalFinding) :
    Option (List EnrichedDict) → List EnrichedDict
  | some dicts => dicts
  | none => findings.map fun f => { payloadText := some (k.scrubPayload f.payloadText), claimsJson := none }

/-- `_arrow_insert_rust_dict`; `duckdb_store.py:10957-11018`. -/
def arrowInsertRustDict (k : ArrowPaths) (findings : List CanonicalFinding)
    (findingsDicts : Option (List EnrichedDict)) : ArrowM InsertResult :=
  match k.buildArrowBatchFromFindings ((k.rustDicts findings findingsDicts).map .dict) with
  | none => return (0, none)
  | some ipcBytes => do
    if ipcBytes = [] then return (0, none)
    else
      match ← Raising.ofExcept (k.arrowIpcToRecordBatch ipcBytes) with
      | none => return (0, none)
      | some batch => k.insertBatch batch findings.length

/-- `_arrow_insert_python`; `duckdb_store.py:11020-11137`. The columns are of the types of the findings, so that
`table_build_failed` is never returned. -/
def arrowInsertPython (k : ArrowPaths) (findings : List CanonicalFinding)
    (findingsDicts : Option (List EnrichedDict)) : ArrowM InsertResult :=
  let payloads := match findingsDicts with
    | some dicts => dicts.map fun d => k.scrubPayload d.payloadText
    | none => findings.map fun f => k.scrubPayload f.payloadText
  k.insertBatch ⟨.recordBatch, payloads⟩ findings.length

/-- A path that is tried where it is available. -/
def tryInsert (available : Bool) (path next : ArrowM InsertResult) : ArrowM InsertResult :=
  if available then orNext path next else next

/-- `_sync_record_canonical_findings_batch_arrow`; `duckdb_store.py:10391-10462`. -/
def syncRecordCanonicalFindingsBatchArrow (k : ArrowPaths) (findings : List CanonicalFinding) :
    ArrowM InsertResult :=
  if findings = [] then return (0, none)
  else if !k.pyarrow then return (0, some "pyarrow_not_installed")
  else do
    let findingsDicts ← Raising.ofExcept k.findingsDicts
    match k.buildArrowBatchParallel findings with
    | some (combined, totalRows) => exceptStopIteration (k.insertBatch combined totalRows)
    | none =>
      tryInsert (!hasClaims findingsDicts && k.rustFindings) (k.arrowInsertRustFindings findings findingsDicts) <|
        tryInsert (!hasClaims findingsDicts && k.rustCols) (k.arrowInsertRustCols findings findingsDicts) <|
          tryInsert k.rustDict (k.arrowInsertRustDict findings findingsDicts) <|
            k.arrowInsertPython findings findingsDicts

/-- The batches that are handed to DuckDB for the findings. -/
def handed (k : ArrowPaths) (findings : List CanonicalFinding) : List ArrowBatch :=
  (Raising.exec (k.syncRecordCanonicalFindingsBatchArrow findings) []).2

end ArrowPaths

end Hledac.Knowledge
