import Hledac.Lib.Machine
import Hledac.Knowledge.WalMethods

/-!
# Replay of a pending marker

An attempt inserts the finding again and verifies its row. A failed insert is counted in the marker, and
the third one moves the finding to the dead letters. An attempt that fails elsewhere is not counted.
-/

namespace Hledac.Knowledge

open Hledac.Lib

/-- How the query of `_sync_verify_duckdb_record` comes out: it answers, or fails and is taken for a no,
or cannot be handed to the executor. -/
inductive VerifyOutcome where
  | answers
  | fails
  | raised (message : String)
  deriving DecidableEq, Repr

/-- How the operations of an attempt come out. `submits` is the error of handing the insert to the
executor, and `rereads` says that the marker can be read once more when its count is bumped. -/
structure ReplayOutcomes extends Outcomes where
  submits : Option String := none
  rereads : Bool := true
  verify : VerifyOutcome := .answers

/-- `ReplayResult`. -/
structure ReplayResult where
  findingId : String
  markerFound : Bool := false
  walTruthFound : Bool := false
  duckdbWritten : Bool := false
  markerCleared : Bool := false
  readBackVerified : Bool := false
  deadlettered : Bool := false
  retryCount : Nat := 0
  error : Option String := none
  deriving DecidableEq, Repr

/-- `MAX_RETRY_COUNT`; `knowledge/duckdb_store.py:3505`. -/
def maxRetryCount : Nat := 3

/-- `marker.get("_retry_count", 0)`. -/
def WalRecord.retries (marker : WalRecord) : Nat := marker.retryCount.getD 0

/-- The marker with one more failure. -/
def WalRecord.bumped (marker : WalRecord) : WalRecord :=
  { marker with retryCount := some (marker.retries + 1) }

/-! ### The attempt -/

/-- `_sync_replay_single_marker`, handed to the executor; lines 12590-12607. -/
def syncReplaySingleMarker (out : ReplayOutcomes) (id : String) (marker : WalRecord) :
    WalM (Except String Bool) := do
  match out.submits with
  | some message => return .error message
  | none =>
    match ← syncInsertFinding out.toOutcomes id (marker.query.getD "") (marker.sourceType.getD "unknown")
      (marker.confidence.getD 1) with
    | .inserted => return .ok true
    | _ => return .ok false

/-- `_sync_verify_duckdb_record`, handed to the executor; lines 12609-12634. -/
def syncVerifyDuckdbRecord (out : ReplayOutcomes) (id : String) : WalM (Except String Bool) := do
  let s ← Steps.read
  return match out.verify with
    | .answers => .ok (s.rows.contains id)
    | .fails => .ok false
    | .raised message => .error message

/-- `_get_and_bump_retry_count`; lines 12636-12654. It does not look whether the put was
accepted. -/
def getAndBumpRetryCount (out : ReplayOutcomes) (id : String) : WalM Nat := do
  match ← walGetPendingMarker out.rereads id with
  | none => return 0
  | some marker =>
    let _ ← walLmdbOp (.put .pendingSync id)
      (LMDBKVStore.put (out.lmdb (.put .pendingSync id)) .pendingSync id marker.bumped)
    return marker.bumped.retries

/-- What follows a failed insert; lines 11716-11732. -/
def replayFailed (out : ReplayOutcomes) (id : String) (marker : WalRecord) (result : ReplayResult) :
    WalM ReplayResult := do
  let retries ← getAndBumpRetryCount out id
  if retries < maxRetryCount then return { result with retryCount := retries }
  else
    if ← walWriteDeadletterMarker out.toOutcomes id (marker.query.getD "")
        (marker.sourceType.getD "unknown") (marker.confidence.getD 1)
        (result.error.getD "max retries exceeded") retries then
      let _ ← walClearPendingSyncMarker out.toOutcomes id
      return { result with
        retryCount := retries
        deadlettered := true
        markerCleared := true }
    else return { result with retryCount := retries }

/-- What follows an insert that says it went through; lines 11733-11743. -/
def replayWritten (out : ReplayOutcomes) (id : String) (result : ReplayResult) : WalM ReplayResult := do
  match ← syncVerifyDuckdbRecord out id with
  | .error message => return { result with error := some ("read-back failed: " ++ message) }
  | .ok false => return result
  | .ok true =>
    let cleared ← walClearPendingSyncMarker out.toOutcomes id
    return { result with
      readBackVerified := true
      markerCleared := cleared }

/-- What follows the lookups; lines 11707-11743. -/
def replayMarker (out : ReplayOutcomes) (id : String) (marker : WalRecord) : WalM ReplayResult := do
  let result : ReplayResult :=
    { findingId := id
      markerFound := true
      walTruthFound := true
      retryCount := marker.retries }
  match ← syncReplaySingleMarker out id marker with
  | .ok true => replayWritten out id { result with duckdbWritten := true }
  | .ok false => replayFailed out id marker result
  | .error message =>
    replayFailed out id marker { result with error := some ("DuckDB write exception: " ++ message) }

/-- `async_replay_single_pending_marker`; lines 11638-11743. -/
def asyncReplaySinglePendingMarker (out : ReplayOutcomes) (id : String) : WalM ReplayResult := do
  let s ← Steps.read
  if s.closed then
    return { findingId := id
             error := some "store closed" }
  else
    match ← walGetPendingMarker (out.lmdb (.get .pendingSync id)) id with
    | none =>
      match ← syncVerifyDuckdbRecord out id with
      | .ok true =>
        return { findingId := id
                 duckdbWritten := true
                 readBackVerified := true }
      | _ =>
        return { findingId := id
                 error := some ("no pending marker found for " ++ id) }
    | some marker =>
      if s.walLmdb then
        match if out.lmdb (.get .finding id) then s.shadow.get .finding id else none with
        | none =>
          return { findingId := id
                   markerFound := true
                   error := some ("WAL truth missing for " ++ id) }
        | some _ => replayMarker out id marker
      else
        return { findingId := id
                 markerFound := true
                 error := some "WAL not initialized" }

/-! ### Runs -/

/-- An attempt of a run. -/
structure ReplayAttempt where
  id : String
  out : ReplayOutcomes := {}

/-- What the attempt returns. -/
def ReplayAttempt.result (a : ReplayAttempt) (s : WalStore) : ReplayResult :=
  ((asyncReplaySinglePendingMarker a.out a.id).course s).value

/-- The store after the attempt. -/
def replayStep (s : WalStore) (a : ReplayAttempt) : WalStore :=
  ((asyncReplaySinglePendingMarker a.out a.id).course s).final

namespace WalStore

/-- The finding has a pending marker. -/
def Pending (s : WalStore) (id : String) : Prop := (s.shadow.get .pendingSync id).isSome = true

/-- The finding has its row, or is a dead letter. -/
def Settled (s : WalStore) (id : String) : Prop :=
  s.rows.contains id = true ∨ (s.shadow.get .deadletter id).isSome = true

/-- The finding is a dead letter and is not pending. -/
def GivenUp (s : WalStore) (id : String) : Prop :=
  (s.shadow.get .deadletter id).isSome = true ∧ s.shadow.get .pendingSync id = none

end WalStore

/-- No marker is dropped in a run: each step that takes one away leaves its finding settled, and wherever
the run is, a finding that was pending and of which every attempt failed is given up once there were enough
of them. -/
structure NeverDropped (s : WalStore) (as : List ReplayAttempt) : Prop where
  settled : StepsMeet replayStep
    (fun s a => ∀ id, s.Pending id → ¬ (replayStep s a).Pending id → (replayStep s a).Settled id) s as
  givenUp : ∀ pre, pre <+: as → ∀ id, s.Pending id → maxRetryCount ≤ pre.countP (·.id = id) →
    (∀ p ∈ trace replayStep s pre, p.2.id = id → (p.2.result p.1).readBackVerified = false) →
      (pre.foldl replayStep s).GivenUp id

end Hledac.Knowledge
