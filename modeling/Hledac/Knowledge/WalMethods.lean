import Hledac.Knowledge.WalStore

/-!
# The methods of the store on its log

The WAL manager is made on first use, on `shadow_wal.lmdb`, which it cannot open; `async_initialize` makes
it on the unified environment. The markers of pending and of given-up findings go through `_wal_lmdb`,
which only the batch path tries to open.
-/

namespace Hledac.Knowledge

open Hledac.Lib

/-- The operations on the log and on DuckDB. -/
inductive WalOp where
  | get (k : WalKind) (id : String)
  | put (k : WalKind) (id : String)
  | delete (k : WalKind) (id : String)
  | putMany
  | insert (id : String)
  | insertMany (ids : List String)
  deriving DecidableEq, Repr

/-- How an insert into DuckDB comes out. -/
inductive InsertOutcome where
  | inserted
  | refused
  | raised (message : String)
  deriving DecidableEq, Repr

/-- How the operations of a call come out: whether an environment opens, whether LMDB carries out the
operation, and what DuckDB does with an insert. `now` is the clock. -/
structure Outcomes where
  opens : Bool := true
  lmdb : WalOp → Bool := fun _ => true
  chunk : Nat → ChunkOutcome := fun _ => {}
  insert : String → InsertOutcome := fun _ => .inserted
  now : ℚ := 0

/-- `DuckDBWALManager`: its environment, and whether that is opened. -/
structure WalManager where
  backend : Backend
  initialized : Bool
  deriving DecidableEq, Repr

/-- The environment the manager can reach. The unified one is opened on demand. -/
def WalManager.handle (m : WalManager) : Option Backend :=
  match m.backend with
  | .unified => some .unified
  | .shadow => if m.initialized then some .shadow else none

theorem WalManager.handle_of_isSome {m : WalManager} (h : m.handle.isSome = true) :
    m.handle = some m.backend := by
  rcases m with ⟨_ | _, _ | _⟩
  · cases h
  · rfl
  · rfl
  · rfl

/-- A row of `canonical_findings`. -/
structure FindingRow where
  query : String
  sourceType : String
  confidence : ℚ

/-- What the store keeps of findings: the two environments and the rows by finding id on disk, and the
handles in memory. `walRoot` says that the store has a directory, `walLmdb` that `_wal_lmdb` is open. -/
structure WalStore where
  walRoot : Bool := true
  shadow : WalEnv := {}
  unified : WalEnv := {}
  rows : Std.ExtTreeMap String FindingRow := ∅
  manager : Option WalManager := none
  walLmdb : Bool := false
  closed : Bool := false

/-- A method of the store. -/
abbrev WalM := Steps WalOp WalStore

namespace WalStore

def env (s : WalStore) : Backend → WalEnv
  | .shadow => s.shadow
  | .unified => s.unified

def setEnv (s : WalStore) (e : WalEnv) : Backend → WalStore
  | .shadow => { s with shadow := e }
  | .unified => { s with unified := e }

/-- The environment of the manager. -/
def handle (s : WalStore) : Option Backend := s.manager.bind WalManager.handle

variable {s : WalStore} {e : WalEnv} {b b' : Backend}

@[simp] theorem env_setEnv_self : (s.setEnv e b).env b = e := by
  cases b <;> rfl

@[simp] theorem manager_setEnv : (s.setEnv e b).manager = s.manager := by
  cases b <;> rfl

@[simp] theorem walLmdb_setEnv : (s.setEnv e b).walLmdb = s.walLmdb := by
  cases b <;> rfl

end WalStore

/-! ### The WAL manager -/

/-- `initialize`; `knowledge/wal.py:115-129`. -/
def initializeWalManager (out : Outcomes) : WalM (Except StoreError Unit) := do
  let s ← Steps.read
  match s.manager with
  | none => return .ok ()
  | some m =>
    if m.initialized then return .ok ()
    else
      match if m.backend = .unified then .ok () else LMDBKVStore.init out.opens with
      | .error e => return .error e
      | .ok () =>
        Steps.note fun s => { s with manager := some { m with initialized := true } }
        return .ok ()

/-- `_ensure_wal_manager`; `knowledge/duckdb_store.py:12286-12294`. Without a directory there is none. -/
def ensureWalManager (out : Outcomes) : WalM (Except StoreError Bool) := do
  let s ← Steps.read
  match s.manager with
  | some _ => return .ok true
  | none =>
    if s.walRoot then
      Steps.note fun s => { s with manager := some { backend := .shadow, initialized := false } }
      return (← initializeWalManager out).map fun _ => true
    else return .ok false

/-- A put through the manager. -/
def managerPut (out : Outcomes) (k : WalKind) (id : String) (r : WalRecord) : WalM Bool := do
  match (← Steps.read).handle with
  | none => return false
  | some b => Steps.op (.put k id) fun s =>
      let p := b.put (out.lmdb (.put k id)) k id r (s.env b)
      (p.1, s.setEnv p.2 b)

/-- A deletion through the manager. -/
def managerDelete (out : Outcomes) (k : WalKind) (id : String) : WalM Bool := do
  match (← Steps.read).handle with
  | none => return false
  | some b => Steps.op (.delete k id) fun s =>
      let p := b.delete (out.lmdb (.delete k id)) k id (s.env b)
      (p.1, s.setEnv p.2 b)

/-- What the methods that write a record have in common: the manager is made and opened, then it puts. -/
def walWrite (out : Outcomes) (k : WalKind) (id : String) (r : WalRecord) :
    WalM (Except StoreError Bool) := do
  match ← ensureWalManager out with
  | .error e => return .error e
  | .ok false => return .ok false
  | .ok true =>
    match ← initializeWalManager out with
    | .error e => return .error e
    | .ok () => return .ok (← managerPut out k id r)

/-- The value of a finding record, and of a marker. -/
def Outcomes.findingRecord (out : Outcomes) (query sourceType : String) (confidence : ℚ) :
    WalRecord where
  query := some query
  sourceType := some sourceType
  confidence := some confidence
  ts := out.now

/-- `_wal_write_finding`; `duckdb_store.py:12264-12284`, `wal.py:182-210`. -/
def walWriteFinding (out : Outcomes) (id query sourceType : String) (confidence : ℚ) :
    WalM (Except StoreError Bool) :=
  walWrite out .finding id (out.findingRecord query sourceType confidence)

/-- `_wal_write_prewrite`; `duckdb_store.py:12296-12301`, `wal.py:317-340`. -/
def walWritePrewrite (out : Outcomes) (id : String) : WalM (Except StoreError Bool) :=
  walWrite out .prewrite id { ts := out.now }

/-- `_wal_write_checkpoint`; `duckdb_store.py:12303-12308`, `wal.py:342-365`. -/
def walWriteCheckpoint (out : Outcomes) (id : String) : WalM (Except StoreError Bool) :=
  walWrite out .checkpoint id { ts := out.now }

/-- `_wal_clear_prewrite`; `duckdb_store.py:12310-12315`, `wal.py:367-383`. -/
def walClearPrewrite (out : Outcomes) (id : String) : WalM (Except StoreError Bool) := do
  match ← ensureWalManager out with
  | .error e => return .error e
  | .ok false => return .ok false
  | .ok true => return .ok (← managerDelete out .prewrite id)

/-- The third phase of a write: the checkpoint, then the prewrite record away. What it raises is
swallowed; `duckdb_store.py:12373-12377`, `11557-11559`. -/
def walCommit (out : Outcomes) (id : String) : WalM PUnit := do
  match ← walWriteCheckpoint out id with
  | .error _ => return
  | .ok _ =>
    let _ ← walClearPrewrite out id

/-- `_wal_get_finding`; `duckdb_store.py:12331-12336`, `wal.py:212-221`. A read that fails finds
nothing. -/
def walGetFinding (out : Outcomes) (id : String) : WalM (Except StoreError (Option WalRecord)) := do
  match ← ensureWalManager out with
  | .error e => return .error e
  | .ok false => return .ok none
  | .ok true =>
    let s ← Steps.read
    return .ok <| s.handle.bind fun b =>
      if out.lmdb (.get .finding id) then (s.env b).get .finding id else none

/-- `_wal_scan_prewrites_without_checkpoint`; `duckdb_store.py:12324-12329`. -/
def walScanPrewritesWithoutCheckpoint (out : Outcomes) :
    WalM (Except StoreError (List (String × WalRecord))) := do
  match ← ensureWalManager out with
  | .error e => return .error e
  | .ok false => return .ok []
  | .ok true =>
    let s ← Steps.read
    return .ok <| (s.handle.map fun b => b.orphans (s.env b)).getD []

/-! ### Markers -/

/-- `MAX_PENDING_SYNC_MARKERS`; `duckdb_store.py:3507`. -/
def maxPendingSyncMarkers : Nat := 10000

/-- An operation of `_wal_lmdb`. -/
def walLmdbOp {α : Type} (x : WalOp) (f : WalEnv → α × WalEnv) : WalM α :=
  Steps.op x fun s =>
    let p := f s.shadow
    (p.1, { s with shadow := p.2 })

@[simp] theorem final_walLmdbOp {α : Type} (x : WalOp) (f : WalEnv → α × WalEnv) (s : WalStore) :
    ((walLmdbOp x f).course s).final = { s with shadow := (f s.shadow).2 } := rfl

/-- The pending markers but for the `keep` youngest; `duckdb_store.py:12405-12436`. -/
def oldestPendingMarkers (e : WalEnv) (keep : Nat) : List String :=
  let markers := e.scan .pendingSync
  ((markers.mergeSort fun p q => p.2.ts ≤ q.2.ts).take (markers.length - keep)).map (·.1)

/-- `_wal_evict_oldest_pending_markers`; `duckdb_store.py:12395-12444`. The count is only logged. -/
def walEvictOldestPendingMarkers (out : Outcomes) (keep : Nat) : WalM PUnit := do
  let s ← Steps.read
  if s.walLmdb then
    (oldestPendingMarkers s.shadow keep).forM fun id => do
      let _ ← walLmdbOp (.delete .pendingSync id)
        (LMDBKVStore.delete (out.lmdb (.delete .pendingSync id)) .pendingSync id)

/-- `_wal_write_pending_sync_marker`; `duckdb_store.py:12446-12483`. While `_wal_lmdb` is not open the
attribute is `None`, and what that raises is swallowed. -/
def walWritePendingSyncMarker (out : Outcomes) (id query sourceType : String) (confidence : ℚ) :
    WalM Bool := do
  if (← Steps.read).walLmdb then
    walEvictOldestPendingMarkers out (maxPendingSyncMarkers - 1)
    walLmdbOp (.put .pendingSync id)
      (LMDBKVStore.put (out.lmdb (.put .pendingSync id)) .pendingSync id
        (out.findingRecord query sourceType confidence))
  else return false

/-- `_wal_scan_pending_sync_markers`; `duckdb_store.py:12485-12520`. -/
def walScanPendingSyncMarkers : WalM (List (String × WalRecord)) := do
  let s ← Steps.read
  return if s.walLmdb then s.shadow.scan .pendingSync else []

/-- `_wal_clear_pending_sync_marker`; `duckdb_store.py:12522-12534`. -/
def walClearPendingSyncMarker (out : Outcomes) (id : String) : WalM Bool := do
  if (← Steps.read).walLmdb then
    walLmdbOp (.delete .pendingSync id)
      (LMDBKVStore.delete (out.lmdb (.delete .pendingSync id)) .pendingSync id)
  else return false

/-- `_wal_write_deadletter_marker`; `duckdb_store.py:12536-12562`. -/
def walWriteDeadletterMarker (out : Outcomes) (id query sourceType : String) (confidence : ℚ)
    (error : String) (retryCount : Nat) : WalM Bool := do
  if (← Steps.read).walLmdb then
    walLmdbOp (.put .deadletter id)
      (LMDBKVStore.put (out.lmdb (.put .deadletter id)) .deadletter id
        { out.findingRecord query sourceType confidence with
          error := some error
          retryCount := some retryCount })
  else return false

/-- `_wal_get_pending_marker`; `duckdb_store.py:12564-12576`. -/
def walGetPendingMarker (ok : Bool) (id : String) : WalM (Option WalRecord) := do
  let s ← Steps.read
  return if s.walLmdb && ok then s.shadow.get .pendingSync id else none

/-! ### DuckDB -/

/-- `_sync_insert_finding`; `duckdb_store.py:4327-4359`. It hands thirteen arguments to the
`insert_finding` of the query executor, which takes six, so that the call raises; here it comes out as
`out` says. An id that has a row keeps it: `ON CONFLICT (id) DO NOTHING`. -/
def syncInsertFinding (out : Outcomes) (id query sourceType : String) (confidence : ℚ) :
    WalM InsertOutcome :=
  Steps.op (.insert id) fun s =>
    match out.insert id with
    | .inserted => (.inserted, { s with
        rows := s.rows.insertIfNew id
          { query := query
            sourceType := sourceType
            confidence := confidence } })
    | other => (other, s)

/-! ### What they do -/

namespace WalStore

/-- The environment that the manager of the store writes to, once it is made. -/
def backend (s : WalStore) : Backend := (s.manager.map WalManager.backend).getD .shadow

/-- Whether there is a manager that can reach its environment. -/
def canOpen (s : WalStore) : Bool := s.handle.isSome

/-- The store with its manager opened. -/
def opened (s : WalStore) : WalStore :=
  { s with manager := some { backend := s.backend, initialized := true } }

/-- The records where the manager writes. -/
def log (s : WalStore) : WalEnv := s.env s.backend

/-- The store with other records where the manager writes. -/
def setLog (s : WalStore) (e : WalEnv) : WalStore := s.setEnv e s.backend

variable {s : WalStore} {e e' : WalEnv}

@[simp] theorem backend_opened : s.opened.backend = s.backend := rfl

@[simp] theorem log_opened : s.opened.log = s.log := by
  rw [log, backend_opened, log]
  cases s.backend <;> rfl

@[simp] theorem opened_opened : s.opened.opened = s.opened := rfl

@[simp] theorem handle_opened : s.opened.handle = some s.backend := by
  show (WalManager.handle { backend := s.backend, initialized := true }) = _
  cases s.backend <;> rfl

@[simp] theorem canOpen_opened : s.opened.canOpen = true := by
  rw [canOpen, handle_opened]
  rfl

@[simp] theorem backend_setLog : (s.setLog e).backend = s.backend := by
  rw [backend, setLog, manager_setEnv, backend]

@[simp] theorem log_setLog : (s.setLog e).log = e := by
  rw [log, backend_setLog, setLog, env_setEnv_self]

@[simp] theorem setLog_setLog : (s.setLog e).setLog e' = s.setLog e' := by
  rw [setLog, backend_setLog, setLog, setLog]
  cases s.backend <;> rfl

@[simp] theorem setLog_log : s.setLog s.log = s := by
  rw [setLog, log]
  cases s.backend <;> rfl

@[simp] theorem opened_setLog_opened : (s.opened.setLog e).opened = s.opened.setLog e := by
  rw [opened, backend_setLog, setLog, backend_opened]
  cases hb : s.backend <;> rw [setEnv, opened, hb]

theorem handle_of_canOpen (h : s.canOpen = true) : s.handle = some s.backend := by
  rw [canOpen, handle] at h
  rw [handle, backend]
  cases hm : s.manager with
  | none =>
    rw [hm] at h
    cases h
  | some m =>
    rw [hm] at h
    exact WalManager.handle_of_isSome h

end WalStore

section Spec

variable {s : WalStore} {out : Outcomes} {k : WalKind} {id : String} {r : WalRecord}

theorem course_ensureWalManager_of_some {m : WalManager} (hm : s.manager = some m) :
    (ensureWalManager out).course s = ⟨.ok true, s, []⟩ := by
  rw [ensureWalManager, Steps.course_read_bind, hm]
  rfl

theorem course_ensureWalManager_of_canOpen (h : s.canOpen = true) :
    (ensureWalManager out).course s = ⟨.ok true, s, []⟩ := by
  cases hm : s.manager with
  | some m => exact course_ensureWalManager_of_some hm
  | none =>
    rw [WalStore.canOpen, WalStore.handle, hm] at h
    cases h

private theorem course_initializeWalManager (h : s.canOpen = true) :
    (initializeWalManager out).course s = ⟨.ok (), s.opened, []⟩ := by
  rw [WalStore.canOpen, WalStore.handle] at h
  rw [initializeWalManager, Steps.course_read_bind]
  cases hm : s.manager with
  | none =>
    rw [hm] at h
    cases h
  | some m =>
    rw [hm] at h
    have hopened : s.opened = { s with manager := some { m with initialized := true } } := by
      rw [WalStore.opened, WalStore.backend, hm]
      rfl
    rw [hopened]
    obtain ⟨b, _ | _⟩ := m
    · cases b with
      | shadow => cases h
      | unified => rfl
    · show (⟨.ok (), s, []⟩ : Course WalOp WalStore (Except StoreError Unit)) = _
      rw [← hm]

private theorem course_initializeWalManager_of_not_canOpen {m : WalManager} (hm : s.manager = some m)
    (h : s.canOpen = false) :
    ∃ e, (initializeWalManager out).course s = ⟨.error e, s, []⟩ := by
  rw [WalStore.canOpen, WalStore.handle, hm] at h
  rw [initializeWalManager, Steps.course_read_bind, hm]
  obtain ⟨_ | _, _ | _⟩ := m
  · cases out.opens <;> exact ⟨_, rfl⟩
  all_goals cases h

theorem course_ensureWalManager_of_none (hm : s.manager = none) :
    ∃ v m, (ensureWalManager out).course s = ⟨v, { s with manager := m }, []⟩ ∧ v ≠ .ok true ∧
      m.bind WalManager.handle = none := by
  rw [ensureWalManager, Steps.course_read_bind, hm]
  show ∃ v m, (if s.walRoot then _ else _ : WalM _).course s = _ ∧ _
  by_cases hroot : s.walRoot = true
  · obtain ⟨e, hinit⟩ : ∃ e, (initializeWalManager out).course _ = _ :=
      course_initializeWalManager_of_not_canOpen (s := { s with manager := some ⟨.shadow, false⟩ }) rfl rfl
    rw [if_pos hroot, Steps.course_note_bind, Steps.course_bind_of_nil hinit]
    exact ⟨_, _, rfl, nofun, rfl⟩
  · rw [if_neg hroot]
    refine ⟨.ok false, none, ?_, nofun, rfl⟩
    rw [← hm]
    rfl

theorem course_walWrite_of_not_canOpen (h : s.canOpen = false) :
    ∃ v m, (walWrite out k id r).course s = ⟨v, { s with manager := m }, []⟩ ∧ v ≠ .ok true ∧
      m.bind WalManager.handle = none := by
  rw [walWrite]
  cases hm : s.manager with
  | none =>
    obtain ⟨v, m, hensure, hv, hhandle⟩ : ∃ v m, (ensureWalManager out).course s = _ ∧ _ ∧ _ :=
      course_ensureWalManager_of_none hm
    rw [Steps.course_bind_of_nil hensure]
    cases v with
    | error e => exact ⟨_, m, rfl, nofun, hhandle⟩
    | ok b =>
      cases b with
      | false => exact ⟨_, m, rfl, nofun, hhandle⟩
      | true => exact absurd rfl hv
  | some m =>
    obtain ⟨e, hinit⟩ : ∃ e, (initializeWalManager out).course s = _ :=
      course_initializeWalManager_of_not_canOpen hm h
    rw [Steps.course_bind_of_nil (course_ensureWalManager_of_some hm)]
    show ∃ v m', (initializeWalManager out >>= _).course s = _ ∧ _
    rw [Steps.course_bind_of_nil hinit]
    refine ⟨.error e, some m, ?_, nofun, ?_⟩
    · rw [← hm]
      rfl
    · rw [WalStore.canOpen, Option.isSome_eq_false_iff, Option.isNone_iff_eq_none, WalStore.handle, hm]
        at h
      exact h

theorem course_walWrite (h : s.canOpen = true) :
    (walWrite out k id r).course s =
      ⟨.ok (s.backend.accepts (out.lmdb (.put k id)) s.log),
        if s.backend.accepts (out.lmdb (.put k id)) s.log then s.opened.setLog (s.log.put k id r)
          else s.opened,
        [(.put k id, s.opened)]⟩ := by
  have hput : (managerPut out k id r).course s.opened =
      ⟨s.backend.accepts (out.lmdb (.put k id)) s.log,
        if s.backend.accepts (out.lmdb (.put k id)) s.log then s.opened.setLog (s.log.put k id r)
          else s.opened,
        [(.put k id, s.opened)]⟩ := by
    have hlog : s.opened.env s.backend = s.log := WalStore.log_opened
    have hset : s.opened.setEnv s.log s.backend = s.opened := by
      rw [← WalStore.log_opened]
      exact WalStore.setLog_log
    rw [managerPut, Steps.course_read_bind, WalStore.handle_opened, Steps.course_op]
    simp only [Backend.put_eq, hlog]
    split
    · next h =>
      rw [h]
      rfl
    · next h =>
      rw [Bool.not_eq_true] at h
      rw [hset, h]
  rw [walWrite, Steps.course_bind_of_nil (course_ensureWalManager_of_canOpen h)]
  show (initializeWalManager out >>= _).course s = _
  rw [Steps.course_bind_of_nil (course_initializeWalManager h)]
  show (managerPut out k id r >>= _).course s.opened = _
  rw [Steps.course_bind_of hput]
  rfl

theorem course_walClearPrewrite (hs : s.opened = s) :
    (walClearPrewrite out id).course s =
      ⟨.ok (s.backend.delete (out.lmdb (.delete .prewrite id)) .prewrite id s.log).1,
        if out.lmdb (.delete .prewrite id) then s.setLog (s.log.erase .prewrite id) else s,
        [(.delete .prewrite id, s)]⟩ := by
  have hm : s.manager = some ⟨s.backend, true⟩ := by
    rw [← hs]
    rfl
  have hensure : (ensureWalManager out).course s = _ := course_ensureWalManager_of_some hm
  have hhandle : s.handle = some s.backend := by
    rw [← hs]
    exact WalStore.handle_opened
  have hdelete : (managerDelete out .prewrite id).course s =
      ⟨(s.backend.delete (out.lmdb (.delete .prewrite id)) .prewrite id s.log).1,
        s.setLog (s.backend.delete (out.lmdb (.delete .prewrite id)) .prewrite id s.log).2,
        [(.delete .prewrite id, s)]⟩ := by
    rw [managerDelete, Steps.course_read_bind, hhandle]
    rfl
  rw [walClearPrewrite, Steps.course_bind_of_nil hensure]
  show (managerDelete out .prewrite id >>= _).course s = _
  rw [Steps.course_bind_of hdelete, Backend.snd_delete]
  split
  · rfl
  · rw [WalStore.setLog_log]
    rfl

theorem course_syncInsertFinding_of_inserted (h : out.insert id = .inserted) (s : WalStore)
    (query sourceType : String) (confidence : ℚ) :
    ∃ row, (syncInsertFinding out id query sourceType confidence).course s =
      ⟨.inserted, { s with rows := s.rows.insertIfNew id row }, [(.insert id, s)]⟩ := by
  rw [syncInsertFinding, Steps.course_op, h]
  exact ⟨_, rfl⟩

theorem course_syncInsertFinding_of_ne (h : out.insert id ≠ .inserted) (s : WalStore)
    (query sourceType : String) (confidence : ℚ) :
    (syncInsertFinding out id query sourceType confidence).course s =
      ⟨out.insert id, s, [(.insert id, s)]⟩ := by
  rw [syncInsertFinding, Steps.course_op]
  cases hi : out.insert id with
  | inserted => exact absurd hi h
  | refused => rfl
  | raised message => rfl

end Spec

end Hledac.Knowledge
