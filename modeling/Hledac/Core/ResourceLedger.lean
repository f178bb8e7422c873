import Mathlib.Algebra.Order.Ring.Rat
import Hledac.Lib.Dict

/-!
# The resource ledger

`ResourceLedger` records each allocation twice, under its type and handle and in the list of its owner;
`_core/resource_ledger.py`. What a call reads of the operating system and of Metal comes in as
`Readings`. The locks are left out, each method holds one throughout.
-/

namespace Hledac.Core

open Hledac.Lib

/-- `ResourceType`; lines 73-83. -/
inductive ResourceType where
  | fileDescriptor
  | machPort
  | childProcess
  | mmapRegion
  | metalCache
  | thread
  | tmpVolume
  deriving DecidableEq, Repr

/-- The members in the order of the class. -/
def ResourceType.all : List ResourceType :=
  [fileDescriptor, machPort, childProcess, mmapRegion, metalCache, thread, tmpVolume]

/-- `resource_type.name`. -/
def ResourceType.name : ResourceType → String
  | fileDescriptor => "FILE_DESCRIPTOR"
  | machPort => "MACH_PORT"
  | childProcess => "CHILD_PROCESS"
  | mmapRegion => "MMAP_REGION"
  | metalCache => "METAL_CACHE"
  | thread => "THREAD"
  | tmpVolume => "TMP_VOLUME"

theorem ResourceType.mem_all (t : ResourceType) : t ∈ all := by
  cases t <;> decide

theorem ResourceType.nodup_all : all.Nodup := by decide

/-- `int | str`. -/
inductive Handle where
  | num (n : ℤ)
  | name (s : String)
  deriving DecidableEq, Repr

/-- `ResourceAllocation`; lines 86-104. What the metadata hold stands for itself. -/
structure ResourceAllocation where
  type : ResourceType
  handle : Handle
  owner : String
  allocatedAt : ℚ
  sizeBytes : Option ℤ := none
  metadata : List (String × Nat) := []
  deriving DecidableEq

/-- `ResourceLimits`, without the thresholds of the log messages; lines 107-136. -/
structure ResourceLimits where
  maxFds : Nat := 256
  maxMachPorts : Nat := 16384
  maxChildProcesses : Nat := 8
  maxMmapRegions : Nat := 128
  maxMetalCacheBytes : Nat := 1610612736
  maxThreads : Nat := 32
  maxTmpVolumeBytes : Nat := 536870912

/-! ### The records by type and handle -/

/-- `_allocations`. A record stands under its own type and handle. -/
structure Records where
  table : ResourceType → Dict Handle ResourceAllocation
  keyed : ∀ t h a, (table t).get? h = some a → a.type = t ∧ a.handle = h

namespace Records

/-- No records. -/
def empty : Records := ⟨fun _ => .empty, fun _ _ _ h => by cases h⟩

/-- `self._allocations[type].get(handle)`. -/
def get? (r : Records) (t : ResourceType) (h : Handle) : Option ResourceAllocation := (r.table t).get? h

/-- `self._allocations[type][handle] = allocation`. -/
def put (r : Records) (a : ResourceAllocation) : Records where
  table := Function.update r.table a.type ((r.table a.type).insert a.handle a)
  keyed t h b hb := by
    by_cases ht : t = a.type
    · subst ht
      rw [Function.update_self, Dict.get?_insert] at hb
      split at hb
      · next hh =>
        cases hb
        exact ⟨rfl, hh⟩
      · exact r.keyed _ h b hb
    · rw [Function.update_of_ne ht] at hb
      exact r.keyed t h b hb

/-- `self._allocations[type].pop(handle, None)`. -/
def erase (r : Records) (t : ResourceType) (h : Handle) : Records where
  table := Function.update r.table t ((r.table t).erase h)
  keyed u j b hb := by
    by_cases ht : u = t
    · subst ht
      rw [Function.update_self, Dict.get?_erase] at hb
      split at hb
      · cases hb
      · exact r.keyed _ j b hb
    · rw [Function.update_of_ne ht] at hb
      exact r.keyed u j b hb

/-- `len(self._allocations[type])`. -/
def count (r : Records) (t : ResourceType) : Nat := (r.table t).size

/-- All records. -/
def toList (r : Records) : List ResourceAllocation :=
  ResourceType.all.flatMap fun t => (r.table t).entries.map Prod.snd

variable {r : Records} {a b : ResourceAllocation} {t u : ResourceType} {h j : Handle}

@[simp] theorem get?_empty : empty.get? t h = none := rfl

theorem get?_put : (r.put a).get? t h = if a.type = t ∧ a.handle = h then some a else r.get? t h := by
  show (Function.update r.table a.type ((r.table a.type).insert a.handle a) t).get? h = _
  by_cases ht : t = a.type
  · subst ht
    rw [Function.update_self, Dict.get?_insert]
    simp only [true_and]
    rfl
  · rw [Function.update_of_ne ht, if_neg fun hc => ht hc.1.symm]
    rfl

theorem get?_erase : (r.erase t h).get? u j = if t = u ∧ h = j then none else r.get? u j := by
  show (Function.update r.table t ((r.table t).erase h) u).get? j = _
  by_cases ht : u = t
  · subst ht
    rw [Function.update_self, Dict.get?_erase]
    simp only [true_and]
    rfl
  · rw [Function.update_of_ne ht, if_neg fun hc => ht hc.1.symm]
    rfl

theorem count_put : (r.put a).count t =
    if a.type = t ∧ r.get? a.type a.handle = none then r.count t + 1 else r.count t := by
  show (Function.update r.table a.type ((r.table a.type).insert a.handle a) t).size = _
  by_cases ht : t = a.type
  · subst ht
    rw [Function.update_self, Dict.size_insert]
    by_cases hk : a.handle ∈ (r.table a.type).keys
    · rw [if_pos hk, if_neg fun hc => Dict.notMem_keys_iff.2 hc.2 hk]
      rfl
    · rw [if_neg hk, if_pos ⟨rfl, Dict.notMem_keys_iff.1 hk⟩]
      rfl
  · rw [Function.update_of_ne ht, if_neg fun hc => ht hc.1.symm]
    rfl

theorem mem_toList : a ∈ r.toList ↔ r.get? a.type a.handle = some a := by
  rw [toList, List.mem_flatMap]
  constructor
  · intro ha
    obtain ⟨t, _, ht⟩ := ha
    obtain ⟨e, he, rfl⟩ := List.mem_map.1 ht
    have hget : (r.table t).get? e.1 = some e.2 := Dict.get?_eq_some_iff.2 he
    obtain ⟨htype, hhandle⟩ := r.keyed t e.1 e.2 hget
    rw [get?, htype, hhandle]
    exact hget
  · intro ha
    exact ⟨a.type, ResourceType.mem_all _, List.mem_map.2 ⟨_, Dict.get?_eq_some_iff.1 ha, rfl⟩⟩

theorem nodup_toList : r.toList.Nodup := by
  have hvalues (t : ResourceType) : ((r.table t).entries.map Prod.snd).Nodup := by
    apply List.Nodup.map_on _ ((r.table t).nodup_keys.of_map _)
    intro e he e' he' heq
    have h1 := (r.keyed t e.1 e.2 (Dict.get?_eq_some_iff.2 he)).2
    have h2 := (r.keyed t e'.1 e'.2 (Dict.get?_eq_some_iff.2 he')).2
    exact Prod.ext (by rw [← h1, ← h2, heq]) heq
  rw [toList, List.nodup_flatMap]
  refine ⟨fun t _ => hvalues t, ?_⟩
  apply ResourceType.nodup_all.imp
  intro t u htu a ha hb
  obtain ⟨e, he, rfl⟩ := List.mem_map.1 ha
  obtain ⟨e', he', heq⟩ := List.mem_map.1 hb
  have h1 := (r.keyed t e.1 e.2 (Dict.get?_eq_some_iff.2 he)).1
  have h2 := (r.keyed u e'.1 e'.2 (Dict.get?_eq_some_iff.2 he')).1
  exact htu (by rw [← h1, ← h2, heq])

end Records

/-! ### The ledger -/

/-- `ResourceLedger`; lines 139-191. Whether it runs on macOS is `sys.platform`. -/
structure ResourceLedger where
  limits : ResourceLimits := {}
  allocations : Records := .empty
  ownerAllocations : Dict String (List ResourceAllocation) := .empty
  peakUsage : ResourceType → Nat := fun _ => 0
  allocationCount : Nat := 0
  releaseCount : Nat := 0
  admissionDeniedCount : Nat := 0
  systemFdCount : ℤ := 0
  lastFdCheck : ℚ := 0
  darwin : Bool := true

/-- How the file descriptors are counted: by a listing, by the limit of the process, where its reading
may fail, or not at all. -/
inductive FdReading where
  | listed (n : Nat)
  | rlimit (n : Option ℤ)
  | failed

/-- What a call reads around it. -/
structure Readings where
  now : ℚ
  fds : FdReading := .listed 0
  metalBytes : Option ℤ := some 0

namespace ResourceLedger

/-- The allocations of an owner. -/
def owned (s : ResourceLedger) (owner : String) : List ResourceAllocation :=
  (s.ownerAllocations.get? owner).getD []

/-- `_get_limit`; lines 303-319. -/
def getLimit (s : ResourceLedger) : ResourceType → Nat
  | .fileDescriptor => s.limits.maxFds
  | .machPort => s.limits.maxMachPorts
  | .childProcess => s.limits.maxChildProcesses
  | .mmapRegion => s.limits.maxMmapRegions
  | .metalCache => s.limits.maxMetalCacheBytes
  | .thread => s.limits.maxThreads
  | .tmpVolume => s.limits.maxTmpVolumeBytes

/-- `_count_by_type`; lines 343-345. -/
def countByType (s : ResourceLedger) (t : ResourceType) : Nat := s.allocations.count t

/-- `_count_fds`: a count is used again for a second; lines 347-381. -/
def countFds (r : Readings) (s : ResourceLedger) : ℤ × ResourceLedger :=
  if r.now - s.lastFdCheck < 1 ∧ 0 < s.systemFdCount then (s.systemFdCount, s)
  else
    let own : ℤ := s.countByType .fileDescriptor
    match r.fds with
    | .listed n => (n, { s with systemFdCount := n, lastFdCheck := r.now })
    | .rlimit n => (n.getD own, { s with systemFdCount := n.getD own, lastFdCheck := r.now })
    | .failed => (own, { s with systemFdCount := own })

/-- `_count_mach_ports`. On macOS it asks `ctypes` for a name that `ctypes` has not, so that the handler
answers with the number of records; lines 383-420. -/
def countMachPorts (s : ResourceLedger) : ℤ := s.countByType .machPort

/-- `_get_metal_cache_bytes`; lines 422-429. -/
def getMetalCacheBytes (r : Readings) : ℤ := r.metalBytes.getD 0

/-- `_get_tmp_volume_bytes`; lines 431-437. -/
def getTmpVolumeBytes (s : ResourceLedger) : ℤ :=
  ((s.allocations.table .tmpVolume).entries.map fun e => e.2.sizeBytes.getD 0).sum

/-- `_get_current`; lines 321-335. -/
def getCurrent (r : Readings) (s : ResourceLedger) : ResourceType → ℤ × ResourceLedger
  | .fileDescriptor => s.countFds r
  | .machPort => (if s.darwin then s.countMachPorts else 0, s)
  | .metalCache => (getMetalCacheBytes r, s)
  | .tmpVolume => (s.getTmpVolumeBytes, s)
  | t => (s.countByType t, s)

/-- `_check_limit`, with the increment it has in every call; lines 337-341. -/
def checkLimit (r : Readings) (s : ResourceLedger) (t : ResourceType) : Bool × ResourceLedger :=
  let current := s.getCurrent r t
  (decide (current.1 + 1 ≤ s.getLimit t), current.2)

/-- The ledger with one allocation more. -/
def record (s : ResourceLedger) (a : ResourceAllocation) : ResourceLedger :=
  let allocations := s.allocations.put a
  { s with
    allocations := allocations
    ownerAllocations := s.ownerAllocations.insert a.owner (s.owned a.owner ++ [a])
    allocationCount := s.allocationCount + 1
    peakUsage := Function.update s.peakUsage a.type
      (max (s.peakUsage a.type) (allocations.count a.type)) }

/-- `allocate`; lines 206-251. -/
def allocate (r : Readings) (s : ResourceLedger) (t : ResourceType) (handle : Handle) (owner : String)
    (sizeBytes : Option ℤ := none) (metadata : List (String × Nat) := []) : Bool × ResourceLedger :=
  let check := s.checkLimit r t
  if check.1 then
    (true, check.2.record
      { type := t
        handle := handle
        owner := owner
        allocatedAt := r.now
        sizeBytes := sizeBytes
        metadata := metadata })
  else (false, { check.2 with admissionDeniedCount := s.admissionDeniedCount + 1 })

/-- The allocation out of the list of its owner. -/
def disown (s : ResourceLedger) (a : ResourceAllocation) : ResourceLedger :=
  match s.ownerAllocations.get? a.owner with
  | none => s
  | some allocs => { s with ownerAllocations := s.ownerAllocations.insert a.owner (allocs.erase a) }

/-- `release`; lines 253-280. -/
def release (s : ResourceLedger) (t : ResourceType) (handle : Handle) (force : Bool := false) :
    Bool × ResourceLedger :=
  match s.allocations.get? t handle with
  | none => (force, s)
  | some a =>
    (true, { { s with allocations := s.allocations.erase t handle }.disown a with
      releaseCount := s.releaseCount + 1 })

/-- `release_all`; lines 282-301. -/
def releaseAll (s : ResourceLedger) (owner : String) : Nat × ResourceLedger :=
  let allocs := s.owned owner
  (allocs.length,
    { s with
      ownerAllocations := s.ownerAllocations.erase owner
      allocations := allocs.foldl (fun r a => r.erase a.type a.handle) s.allocations
      releaseCount := s.releaseCount + allocs.length })

/-- `register_child_process`; lines 607-621. -/
def registerChildProcess (r : Readings) (s : ResourceLedger) (pid : ℤ) (owner : String)
    (process : Option Nat) : Bool × ResourceLedger :=
  s.allocate r .childProcess (.num pid) owner none (process.toList.map ("process", ·))

/-- `unregister_child_process`; lines 623-633. -/
def unregisterChildProcess (s : ResourceLedger) (pid : ℤ) : Bool × ResourceLedger :=
  s.release .childProcess (.num pid)

/-! ### Admission of a bundle -/

/-- The amounts of a request. -/
structure Bundle where
  fds : ℤ := 0
  machPorts : ℤ := 0
  childProcesses : ℤ := 0
  mmapRegions : ℤ := 0
  metalCacheBytes : ℤ := 0
  threads : ℤ := 0
  tmpVolumeBytes : ℤ := 0

namespace Bundle

/-- The amount of a type. -/
def amount (b : Bundle) : ResourceType → ℤ
  | .fileDescriptor => b.fds
  | .machPort => b.machPorts
  | .childProcess => b.childProcesses
  | .mmapRegion => b.mmapRegions
  | .metalCache => b.metalCacheBytes
  | .thread => b.threads
  | .tmpVolume => b.tmpVolumeBytes

end Bundle

/-- Why a type refuses the bundle. -/
def refusal (t : ResourceType) (current requested : ℤ) (limit : Nat) : String :=
  t.name ++ " limit exceeded: current=" ++ toString current ++ ", requested=" ++ toString requested ++
    ", limit=" ++ toString limit

/-- The checks of `can_admit` in their order: the first refusal, and the ledger after the readings. -/
def canAdmitFrom (r : Readings) (b : Bundle) :
    ResourceLedger → List ResourceType → Option String × ResourceLedger
  | s, [] => (none, s)
  | s, t :: rest =>
    if b.amount t ≤ 0 then s.canAdmitFrom r b rest
    else
      let current := s.getCurrent r t
      if s.getLimit t < current.1 + b.amount t then
        (some (refusal t current.1 (b.amount t) (s.getLimit t)), current.2)
      else current.2.canAdmitFrom r b rest

/-- `can_admit`; lines 450-515. -/
def canAdmit (r : Readings) (s : ResourceLedger) (b : Bundle) : (Bool × String) × ResourceLedger :=
  let checked := s.canAdmitFrom r b ResourceType.all
  match checked.1 with
  | some reason => ((false, reason), checked.2)
  | none => ((true, "admission granted"), checked.2)

end ResourceLedger

/-! ### Runs -/

/-- The calls of the ledger. -/
inductive LedgerCall where
  | allocate (r : Readings) (t : ResourceType) (handle : Handle) (owner : String) (sizeBytes : Option ℤ)
    (metadata : List (String × Nat))
  | release (t : ResourceType) (handle : Handle) (force : Bool)
  | releaseAll (owner : String)
  | registerChildProcess (r : Readings) (pid : ℤ) (owner : String) (process : Option Nat)
  | unregisterChildProcess (pid : ℤ)

namespace ResourceLedger

/-- One call. -/
def step (s : ResourceLedger) : LedgerCall → ResourceLedger
  | .allocate r t handle owner sizeBytes metadata => (s.allocate r t handle owner sizeBytes metadata).2
  | .release t handle force => (s.release t handle force).2
  | .releaseAll owner => (s.releaseAll owner).2
  | .registerChildProcess r pid owner process => (s.registerChildProcess r pid owner process).2
  | .unregisterChildProcess pid => (s.unregisterChildProcess pid).2

/-- The ledger after a run of calls. -/
def run (s : ResourceLedger) (calls : List LedgerCall) : ResourceLedger := calls.foldl step s

end ResourceLedger

end Hledac.Core
