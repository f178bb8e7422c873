import Mathlib.Algebra.Order.Ring.Int
import Std.Data.ExtTreeMap
import Hledac.Lib.Digest
import Hledac.Lib.Raising

/-!
# The unified key-value store

`UnifiedLMDB` keeps its sub-databases in one environment, which it opens on first use. An event is set
while no reopening is in progress, and the first use waits for it. Every operation on LMDB succeeds here
but those that a method is told to fail; the counter of full maps is left out with the failure it counts.
-/

namespace Hledac.Core

open Hledac.Lib

/-! ### Environments -/

/-- A sub-database: its pairs in the order of their keys. -/
abbrev SubTable := Std.ExtTreeMap Bytes Bytes

/-- What a `data.mdb` file holds: the sub-databases by name. -/
abbrev DataFile := String → SubTable

/-- `SubDB._NAMES`; `_core/lmdb_unified.py:95-112`. -/
def SubDB.names : List String :=
  ["session_meta", "exposure_data", "source_registry", "bandit_stats", "federated_dht", "hot_edges",
    "sprint_seeds", "sketches", "query_cache", "ioc_dedup", "domain_rl", "persistent_kv", "task_cache",
    "prefetch_cache", "secrets_vault", "reserved"]

/-- `SubDB.name`; lines 114-116. -/
def SubDB.name (idx : Nat) : String :=
  SubDB.names.getD idx ("unknown(" ++ toString idx ++ ")")

/-- The pairs from a cursor at the first key that is not below `head`, while the keys begin with it. A
cursor that finds no such key has the empty key and the empty value. -/
def SubTable.scan (t : SubTable) (head : Bytes) : List (Bytes × Bytes) :=
  match t.toList.dropWhile fun p => compare p.1 head = .lt with
  | [] => if head = [] then [([], [])] else []
  | pairs => pairs.takeWhile fun p => head.isPrefixOf p.1

/-- What the methods raise. -/
inductive UnifiedError where
  | runtimeError (message : String)
  | valueError (message : String)
  | typeError (message : String)
  | attributeError (name : String)
  | lmdb (operation : String)
  deriving DecidableEq, Repr

/-- The attribute `_env`, which `__init__` does not set. -/
inductive EnvHandle where
  | unset
  | none
  | opened
  deriving DecidableEq, Repr

/-- `UnifiedLMDB` and the file it keeps; lines 177-227. `subDbs` says which handles are in
`_sub_dbs`. -/
structure UnifiedLMDB (maxDbs : Nat) where
  mapSizeDefault : Nat
  mapSizeCurrent : Nat
  closed : Bool := false
  initialized : Bool := false
  subDbs : Fin maxDbs → Bool := fun _ => false
  pressureState : String := "NORMAL"
  shrinkCount : Nat := 0
  shrinkFailures : Nat := 0
  reopenEvent : Bool := false
  env : EnvHandle := .unset
  disk : DataFile

/-- A method of the store. -/
abbrev UnifiedM (maxDbs : Nat) := Raising UnifiedError (UnifiedLMDB maxDbs)

namespace UnifiedLMDB

variable {maxDbs : Nat}

/-- The sub-database of an index. -/
def table (s : UnifiedLMDB maxDbs) (i : Fin maxDbs) : SubTable := s.disk (SubDB.name i)

/-- The store with another sub-database at an index. -/
def setTable (s : UnifiedLMDB maxDbs) (i : Fin maxDbs) (t : SubTable) : UnifiedLMDB maxDbs :=
  { s with disk := Function.update s.disk (SubDB.name i) t }

/-! ### Opening -/

/-- `_UNIFIED_MAP_SIZE_CEILING`; line 125. -/
def mapSizeCeiling : Nat := 256 * 1024 * 1024

/-- `_UNIFIED_MAP_SIZE_LOW`; line 127. -/
def mapSizeLow : Nat := 128 * 1024 * 1024

/-- `_get_default_map_size`, `configured` being what `paths.lmdb_map_size` gives, if anything;
lines 130-147. -/
def getDefaultMapSize (configured : Option Nat) : Nat :=
  min (configured.getD mapSizeCeiling) mapSizeCeiling

/-- The use of `self._env` as an environment. -/
def useEnv (method : String) : UnifiedM maxDbs PUnit := do
  match (← MonadState.get).env with
  | .opened => return
  | .none => throw (.attributeError ("'NoneType' object has no attribute '" ++ method ++ "'"))
  | .unset => throw (.attributeError "'UnifiedLMDB' object has no attribute '_env'")

/-- `_ensure_init`; lines 235-283. In a sequence of calls nothing sets the event while one of
them waits for it. -/
def ensureInit : UnifiedM maxDbs PUnit := do
  let s ← MonadState.get
  if s.closed then throw (.runtimeError "UnifiedLMDB is closed (emergency shrink previously failed)")
  else if s.initialized && s.reopenEvent then return
  else if s.reopenEvent = false then throw (.runtimeError "UnifiedLMDB reopen timed out")
  else
    modify fun s => { s with
      env := .opened
      subDbs := fun _ => true
      initialized := true }

/-- `__init__`. A finalizer needs instances that can be referred to weakly: `UnifiedLMDB` has slots and
none for weak references, so that only the instances of a subclass may be `weakrefable`;
lines 196-230. -/
def init (weakrefable : Bool) (configured mapSize : Option Nat) (isLazy : Bool) (disk : DataFile) :
    Except UnifiedError (UnifiedLMDB maxDbs) :=
  let effective := (mapSize.filter (· ≠ 0)).getD (getDefaultMapSize configured)
  let s : UnifiedLMDB maxDbs :=
    { mapSizeDefault := min effective mapSizeCeiling
      mapSizeCurrent := min effective mapSizeCeiling
      disk := disk }
  if weakrefable then
    if isLazy then .ok s
    else
      match ensureInit.exec s with
      | (.ok (), s) => .ok s
      | (.error e, _) => .error e
  else .error (.typeError "cannot create weak reference to 'UnifiedLMDB' object")

/-- `open_db`, `opens` saying whether LMDB opens the sub-database; lines 322-335. -/
def openDb (opens : Bool) (idx : ℤ) : UnifiedM maxDbs (Fin maxDbs) := do
  ensureInit
  if h : 0 ≤ idx ∧ idx < maxDbs then
    let i : Fin maxDbs := ⟨idx.toNat, by omega⟩
    if (← MonadState.get).subDbs i then return i
    else
      useEnv "open_db"
      if opens then
        modify fun s => { s with subDbs := Function.update s.subDbs i true }
        return i
      else throw (.lmdb "open_db")
  else
    throw (.valueError
      ("sub_idx " ++ toString idx ++ " out of range [0, " ++ toString maxDbs ++ ")"))

/-- `env_begin`; lines 337-357. -/
def envBegin (idx : ℤ) : UnifiedM maxDbs (Fin maxDbs) := do
  let i ← openDb true idx
  useEnv "begin"
  return i

/-! ### Reading and writing -/

/-- What the writing methods have in common: a transaction on the sub-database, and `False` for what it
raises. -/
def write (idx : ℤ) (f : SubTable → SubTable) : UnifiedM maxDbs Bool :=
  tryCatch (do
      let i ← envBegin idx
      modify fun s => s.setTable i (f (s.table i))
      return true)
    fun _ => return false

/-- `put`; lines 362-387. -/
def put (idx : ℤ) (key value : Bytes) : UnifiedM maxDbs Bool :=
  write idx fun t => t.insert key value

/-- `delete`; lines 397-405. -/
def delete (idx : ℤ) (key : Bytes) : UnifiedM maxDbs Bool :=
  write idx fun t => t.erase key

/-- `put_batch`; lines 410-447. -/
def putBatch (idx : ℤ) (items : List (Bytes × Bytes)) : UnifiedM maxDbs Bool :=
  write idx fun t => items.foldl (fun t p => t.insert p.1 p.2) t

/-- `get`; lines 389-395. -/
def get (idx : ℤ) (key : Bytes) : UnifiedM maxDbs (Option Bytes) :=
  tryCatch (do
      let i ← envBegin idx
      return ((← MonadState.get).table i)[key]?)
    fun _ => return none

/-- `scan_prefix`; lines 449-474. -/
def scanPrefix (idx : ℤ) (head : Bytes) : UnifiedM maxDbs (List (Bytes × Bytes)) :=
  tryCatch (do
      let i ← envBegin idx
      return ((← MonadState.get).table i).scan head)
    fun _ => return []

/-! ### What opening comes to -/

section Spec

variable {s : UnifiedLMDB maxDbs} {idx : ℤ} {i : Fin maxDbs}

theorem exec_useEnv_of_opened (method : String) (h : s.env = .opened) :
    (useEnv method).exec s = (.ok ⟨⟩, s) := by
  rw [useEnv, Raising.exec_bind_ok (Raising.exec_get s), h]
  rfl

theorem exec_useEnv_of_unset (method : String) (h : s.env = .unset) :
    (useEnv method).exec s =
      (.error (.attributeError "'UnifiedLMDB' object has no attribute '_env'"), s) := by
  rw [useEnv, Raising.exec_bind_ok (Raising.exec_get s), h]
  rfl

theorem exec_useEnv_of_ne (method : String) (h : s.env ≠ .opened) :
    ∃ e, (useEnv method).exec s = (.error e, s) := by
  cases henv : s.env with
  | opened => exact absurd henv h
  | unset => exact ⟨_, exec_useEnv_of_unset method henv⟩
  | none =>
    rw [useEnv, Raising.exec_bind_ok (Raising.exec_get s), henv]
    exact ⟨_, rfl⟩

theorem exec_ensureInit_of_initialized (hclosed : s.closed = false) (hinit : s.initialized = true)
    (hevent : s.reopenEvent = true) : ensureInit.exec s = (.ok ⟨⟩, s) := by
  rw [ensureInit, Raising.exec_bind_ok (Raising.exec_get s), hclosed, hinit, hevent]
  rfl

theorem exec_ensureInit_of_fresh (hclosed : s.closed = false) (hinit : s.initialized = false)
    (hevent : s.reopenEvent = true) :
    ensureInit.exec s = (.ok ⟨⟩, { s with
      env := .opened
      subDbs := fun _ => true
      initialized := true }) := by
  have hopen : ¬ (s.initialized && s.reopenEvent) = true := by simp [hinit]
  have hwait : ¬ s.reopenEvent = false := by simp [hevent]
  rw [ensureInit, Raising.exec_bind_ok (Raising.exec_get s), if_neg (Bool.eq_false_iff.1 hclosed),
    if_neg hopen, if_neg hwait]
  rfl

theorem exec_ensureInit_of_not (h : s.closed = true ∨ s.reopenEvent = false) :
    ∃ e, ensureInit.exec s = (.error e, s) := by
  rw [ensureInit, Raising.exec_bind_ok (Raising.exec_get s)]
  cases hclosed : s.closed with
  | true => exact ⟨_, rfl⟩
  | false =>
    rw [hclosed] at h
    rw [h.resolve_left nofun, Bool.and_false]
    exact ⟨_, rfl⟩

end Spec

/-! ### Pressure -/

/-- Whether the environment opens with its new size, and else with its old one. -/
structure Reopening where
  reopens : Bool := true
  restores : Bool := true

/-- The body of `_emergency_shrink` between the clearing and the setting of the event;
lines 627-694. -/
def shrinkBody (out : Reopening) (targetSize : Nat) : UnifiedM maxDbs PUnit := do
  if (← MonadState.get).env = .unset then
    throw (.attributeError "'UnifiedLMDB' object has no attribute '_env'")
  else
    modify fun s => { s with
      env := .none
      subDbs := fun _ => false }
    if out.reopens then
      modify fun s => { s with
        env := .opened
        mapSizeCurrent := targetSize
        shrinkCount := s.shrinkCount + 1
        subDbs := fun _ => true }
    else if out.restores then
      modify fun s => { s with
        env := .opened
        shrinkFailures := s.shrinkFailures + 1
        subDbs := fun _ => true }
    else
      modify fun s => { s with
        shrinkFailures := s.shrinkFailures + 1
        closed := true }

/-- `_emergency_shrink`; lines 584-696. -/
def emergencyShrink (out : Reopening) (targetSize : Nat) : UnifiedM maxDbs PUnit := do
  let s ← MonadState.get
  if s.closed then return
  else if s.reopenEvent = false then return
  else
    modify fun s => { s with reopenEvent := false }
    tryCatch (shrinkBody out targetSize) fun e => do
      modify fun s => { s with reopenEvent := true }
      throw e
    modify fun s => { s with reopenEvent := true }

/-- The size for a state of pressure; lines 503-508. -/
def targetSize (mapSizeDefault : Nat) (state : String) : Nat :=
  if state = "NORMAL" then mapSizeDefault
  else if state = "ELEVATED" then max (256 * 1024 * 1024) (mapSizeDefault / 2)
  else mapSizeLow

/-- `set_pressure`; lines 479-539. Growing may raise, which is logged. -/
def setPressure (out : Reopening) (state : String) : UnifiedM maxDbs PUnit := do
  let s ← MonadState.get
  if state = s.pressureState then return
  else
    modify fun s => { s with pressureState := state }
    let target := targetSize s.mapSizeDefault state
    if target = s.mapSizeCurrent then return
    else if s.mapSizeCurrent < target then
      Raising.swallow do
        useEnv "set_mapsize"
        modify fun s => { s with mapSizeCurrent := target }
    else if state = "CRITICAL" then emergencyShrink out target
    else return

end UnifiedLMDB

end Hledac.Core
