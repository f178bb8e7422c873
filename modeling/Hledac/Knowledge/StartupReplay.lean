import Hledac.Knowledge.RecordPaths
import Hledac.Knowledge.Replay

/-!
# Crashes and the replay at startup

A run records findings, in one session after another. A crash may cut any call before any of its
operations; what is in memory is lost, and the environments and DuckDB keep what they have. A session whose
manager writes to the unified environment starts with a replay.
-/

namespace Hledac.Knowledge

open Hledac.Lib

/-! ### The replay -/

/-- `_recover_single_orphaned_prewrite`; `knowledge/duckdb_store.py:11532-11566`. What it raises is
swallowed. -/
def recoverSingleOrphanedPrewrite (out : Outcomes) (id : String) : WalM PUnit := do
  match ← walGetFinding out id with
  | .ok (some record) =>
    match ← syncInsertFinding out id (record.query.getD "") (record.sourceType.getD "unknown")
      (record.confidence.getD 1) with
    | .inserted => walCommit out id
    | _ => return
  | _ => return

/-- `_recover_orphaned_prewrites_batch`; lines 11508-11530. The deadline passes after `inTime`
findings. -/
def recoverOrphanedPrewritesBatch (out : Outcomes) :
    (inTime : Nat) → List (String × WalRecord) → WalM PUnit
  | _, [] => return
  | inTime, (id, _) :: rest =>
    if id = "" then recoverOrphanedPrewritesBatch out inTime rest
    else
      match inTime with
      | 0 => return
      | n + 1 => do
        recoverSingleOrphanedPrewrite out id
        recoverOrphanedPrewritesBatch out n rest

/-- `_deduplicate_and_limit_markers`; lines 11568-11590. Every marker that has an id is kept. -/
def deduplicateAndLimitMarkers (markers : List (String × WalRecord)) (limit : Nat) :
    List (String × WalRecord) :=
  (markers.filter fun m => m.1 ≠ "").take limit

@[simp] theorem deduplicateAndLimitMarkers_nil (limit : Nat) : deduplicateAndLimitMarkers [] limit = [] :=
  List.take_nil

/-- `_execute_replay_loop`; lines 11592-11630. The deadline passes after so many attempts. -/
def executeReplayLoop (out : ReplayOutcomes) :
    (inTime : Nat) → List (String × WalRecord) → WalM PUnit
  | 0, _ => return
  | _, [] => return
  | n + 1, (id, _) :: rest => do
    let _ ← asyncReplaySinglePendingMarker out id
    executeReplayLoop out n rest

/-- `_bounded_startup_replay`; lines 11424-11466. It is `true` when there is nothing to
replay. `inTime` and `attempts` say how many prewrite records and markers it comes to in its time. -/
def boundedStartupReplay (out : ReplayOutcomes) (limit inTime attempts : Nat) :
    WalM (Except StoreError Bool) := do
  let markers ← walScanPendingSyncMarkers
  match ← walScanPrewritesWithoutCheckpoint out.toOutcomes with
  | .error e => return .error e
  | .ok prewrites =>
    recoverOrphanedPrewritesBatch out.toOutcomes inTime prewrites
    if markers.isEmpty && prewrites.isEmpty then return .ok true
    else
      executeReplayLoop out attempts (deduplicateAndLimitMarkers markers limit)
      return .ok false

/-! ### Runs -/

/-- The store in a new session. `async_initialize` makes the manager on the unified environment, or, where
that is switched off, on one that does not open; a lazy store has none. -/
def WalStore.restart (s : WalStore) (backend : Option Backend) : WalStore :=
  { s with
    manager := backend.map fun b => ⟨b, b == .unified⟩
    walLmdb := false
    closed := false }

/-- A replay with the outcomes of its operations. -/
structure StartupReplay where
  out : ReplayOutcomes := {}
  limit : Nat := 100
  inTime : Nat := 1
  attempts : Nat := 0

/-- What it does. -/
def StartupReplay.method (r : StartupReplay) : WalM (Except StoreError Bool) :=
  boundedStartupReplay r.out r.limit r.inTime r.attempts

/-- The store after the replay. -/
def StartupReplay.step (s : WalStore) (r : StartupReplay) : WalStore := (r.method.course s).final

/-- An event of a run: a record call or a replay, which may be cut short before the first `crash`, or a new
session. -/
inductive StoreEvent where
  | record (out : Outcomes) (id query sourceType : String) (confidence : ℚ) (crash : Option WalOp)
  | replay (r : StartupReplay) (crash : Option WalOp)
  | restart (backend : Option Backend)

/-- A crash takes the memory away. -/
def WalStore.crashed (s : WalStore) (crash : Option WalOp) : WalStore :=
  if crash.isSome then s.restart none else s

/-- The store after the event. -/
def StoreEvent.step (s : WalStore) : StoreEvent → WalStore
  | record out id query sourceType confidence crash =>
    WalStore.crashed ((activationRecordFinding out id query sourceType confidence).cut s crash) crash
  | replay r crash => WalStore.crashed (r.method.cut s crash) crash
  | restart backend => s.restart backend

/-- The finding record is in one of the environments. -/
def WalStore.Logged (s : WalStore) (id : String) : Prop :=
  ∃ b, ((s.env b).get .finding id).isSome = true

/-- The replay has time for a finding, DuckDB takes every insert and LMDB carries every operation out. -/
structure StartupReplay.Succeeds (r : StartupReplay) : Prop where
  inTime : 0 < r.inTime
  insert : ∀ id, r.out.insert id = .inserted
  lmdb : ∀ x, r.out.lmdb x = true

/-- What recovery is for. After a restart on the unified environment, once a replay reports that there is
nothing left, every finding in the log has its row; and replays that succeed come to that, in as many as
there are prewrite records at most. -/
structure WalStore.Recovers (s : WalStore) : Prop where
  rows : ∀ (rs : List StartupReplay) (r : StartupReplay),
    (r.method.course (rs.foldl StartupReplay.step (s.restart (some .unified)))).value = .ok true →
      ∀ id, (rs.foldl StartupReplay.step (s.restart (some .unified))).Logged id →
        (rs.foldl StartupReplay.step (s.restart (some .unified))).rows.contains id = true
  ends : ∀ (rs : List StartupReplay) (r : StartupReplay), (∀ r ∈ rs, r.Succeeds) →
    (s.unified.scan .prewrite).length ≤ rs.length →
      (r.method.course (rs.foldl StartupReplay.step (s.restart (some .unified)))).value = .ok true

end Hledac.Knowledge
