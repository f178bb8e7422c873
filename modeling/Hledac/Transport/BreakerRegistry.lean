import Hledac.Lib.Raising
import Hledac.Transport.RustBreaker
import Hledac.Utils.CacheDict

/-!
# The registry of domain breakers

The module state of `transport/circuit_breaker.py`: the cache `_BREAKERS` from domain to breaker
object, its lock, and the functions over them. Breaker objects have an identity. Each finds its
Python half through the registry the first time it needs it, so an object that has left the cache
may hand out another one.

`clock` gives the successive readings of `time.monotonic()`. Acquiring `_breakers_lock` while it
is held blocks for ever.
-/

namespace Hledac.Transport

open Hledac.Lib Hledac.Utils

/-- Constants of the registry; `circuit_breaker.py:102-131`, with the bounds that
`config/__init__.py:563-569` clamps them to. -/
structure RegistryConfig extends CircuitConfig where
  maxTrackedDomains : Nat
  bootRecoveryTimeoutS : ℚ
  bootPhaseDurationS : ℚ
  circuitFailureThreshold : Nat
  fifty_le_maxTrackedDomains : 50 ≤ maxTrackedDomains
  one_le_circuitFailureThreshold : 1 ≤ circuitFailureThreshold

/-- The values used when no environment variable is set; `config/__init__.py:563-577`. -/
def RegistryConfig.default : RegistryConfig where
  toCircuitConfig := .default
  maxTrackedDomains := 500
  bootRecoveryTimeoutS := 5
  bootPhaseDurationS := 60
  circuitFailureThreshold := 5
  fifty_le_maxTrackedDomains := by decide
  one_le_circuitFailureThreshold := by decide

/-- `_CIRCUIT_BREAKER_TTL_S`; `circuit_breaker.py:133`. -/
def circuitBreakerTtlS : List (String × ℚ) := [("crt.sh", 120), ("certstream", 120)]

/-- A breaker object: its own fields, and the `_python_cb` of its `_domain_cb`, once resolved. -/
structure BreakerObject where
  fields : CircuitBreaker
  pythonCb : Option Nat := none

/-- How a call ends other than by returning. -/
inductive Raised where
  | keyError (domain : String)
  | deadlock
  deriving DecidableEq

/-- The module state. Objects are numbered; those from `nextObject` on are not built yet. -/
structure World where
  breakers : PyCacheDict String Nat
  objects : Nat → BreakerObject
  nextObject : Nat := 0
  bootStartedAt : ℚ := 0
  lockHeld : Bool := false
  ticks : Nat := 0
  rust : Option RustBackend

/-- The state after import, with or without the Rust functions. -/
def World.initial (cfg : RegistryConfig) (rust : Option RustBackend) : World where
  breakers := .new cfg.maxTrackedDomains 300
  objects := fun _ => { fields := .fresh "" 0 0 0 }
  rust := rust

namespace Registry

/-- A function of the module. -/
abbrev M := Raising Raised World

/-- `with _breakers_lock:`. A raised `KeyError` releases the lock; `deadlock` never returns. -/
def withLock {α : Type} (body : M α) : M α := do
  if (← get).lockHeld then throw .deadlock
  modify fun w => { w with lockHeld := true }
  let a ← tryCatch body fun
    | .keyError d => do
      modify fun w => { w with lockHeld := false }
      throw (.keyError d)
    | .deadlock => throw .deadlock
  modify fun w => { w with lockHeld := false }
  pure a

/-- `try: … except Exception: pass`. A blocked thread raises nothing. -/
def exceptPass (x : M PUnit) : M PUnit :=
  tryCatch x fun
    | .keyError _ => pure ⟨⟩
    | .deadlock => throw .deadlock

/-- A call whose result is thrown away. -/
def ignore {α : Type} (x : M α) : M PUnit := do
  let _ ← x

section Functions

variable (cfg : RegistryConfig) (clock : Nat → ℚ)

/-- `time.monotonic()`. -/
def monotonic : M ℚ := do
  let w ← get
  set { w with ticks := w.ticks + 1 }
  pure (clock w.ticks)

/-- An operation on `_BREAKERS`, at the next reading of the clock. -/
def onBreakers {α : Type} (f : ℚ → PyCacheDict String Nat → α × PyCacheDict String Nat) : M α := do
  let now ← monotonic clock
  let w ← get
  set { w with breakers := (f now w.breakers).2 }
  pure (f now w.breakers).1

/-- `_BREAKERS[domain]`. -/
def getItem (domain : String) : M Nat := do
  match ← onBreakers clock fun now c => c.get now domain with
  | some o => pure o
  | none => throw (.keyError domain)

/-- `_get_effective_ttl`; `circuit_breaker.py:747-762`. -/
def getEffectiveTtl (domain : String) : M ℚ := do
  match circuitBreakerTtlS.lookup domain with
  | some ttl => pure ttl
  | none =>
    if (← get).bootStartedAt = 0 then
      let now ← monotonic clock
      modify fun w => { w with bootStartedAt := now }
    let elapsed := (← monotonic clock) - (← get).bootStartedAt
    pure (if elapsed < cfg.bootPhaseDurationS then cfg.bootRecoveryTimeoutS
      else cfg.baseRecoveryTimeoutS)

/-- `CircuitBreaker(domain=…, recovery_timeout=…)`. -/
def newBreaker (domain : String) (recoveryTimeout : ℚ) : M Nat := do
  let now ← monotonic clock
  let w ← get
  let fields := CircuitBreaker.fresh domain cfg.circuitFailureThreshold recoveryTimeout now
  set { w with
    objects := Function.update w.objects w.nextObject { fields }
    nextObject := w.nextObject + 1 }
  pure w.nextObject

/-- `get_breaker`; `circuit_breaker.py:765-776`. -/
def getBreaker (domain : String) : M Nat := withLock do
  if ← onBreakers clock fun now c => c.contains now domain then getItem clock domain
  else
    let ttl ← getEffectiveTtl cfg clock domain
    let o ← newBreaker cfg clock domain ttl
    onBreakers clock fun now c => ((), c.set now domain o)
    getItem clock domain

/-- The object numbered `o`. -/
def objectAt (o : Nat) : M BreakerObject := do
  pure ((← get).objects o)

/-- A change of the fields of one object. -/
def modifyFields (o : Nat) (f : CircuitBreaker → CircuitBreaker) : M PUnit :=
  modify fun w => { w with
    objects := Function.update w.objects o
      { w.objects o with fields := f (w.objects o).fields } }

/-- `DomainCircuitBreaker._get_python_cb`; `circuit_breaker.py:223-233`. -/
def getPythonCb (o : Nat) : M Nat := do
  let b ← objectAt o
  match b.pythonCb with
  | some p => pure p
  | none =>
    let p ← getBreaker cfg clock b.fields.domain
    modify fun w => { w with
      objects := Function.update w.objects o { w.objects o with pythonCb := some p } }
    pure p

/-- An outcome handed to the Rust function, where Rust is present. -/
def rustReceive (domain : String) (outcome : Outcome) : M PUnit :=
  modify fun w => { w with rust := w.rust.map fun r => r.receive domain outcome }

/-- `DomainCircuitBreaker.record_success`; `circuit_breaker.py:263-288`. -/
def recordSuccess (o : Nat) : M PUnit := do
  let b ← objectAt o
  rustReceive b.fields.domain .success
  let p ← getPythonCb cfg clock o
  let now ← monotonic clock
  modifyFields p fun c => c.recordSuccess cfg.toCircuitConfig now

/-- `DomainCircuitBreaker.record_failure`; `circuit_breaker.py:290-345`. -/
def recordFailure (o : Nat) (f : CircuitBreaker.Failure) : M PUnit := do
  let b ← objectAt o
  unless f.isWarmup do
    rustReceive b.fields.domain (.failure f.isTimeout)
  let p ← getPythonCb cfg clock o
  let now ← monotonic clock
  modifyFields p fun c => c.recordFailure cfg.toCircuitConfig now f

/-- `DomainCircuitBreaker.check_circuit`; `circuit_breaker.py:401-452`. -/
def checkCircuit (draw : ℚ) (o : Nat) : M CircuitDecision := do
  let p ← getPythonCb cfg clock o
  let now ← monotonic clock
  let c := (← objectAt p).fields
  modifyFields p fun c => (c.checkCircuit cfg.toCircuitConfig now draw).2
  pure (c.checkCircuit cfg.toCircuitConfig now draw).1

/-- `DomainCircuitBreaker.get_state`; `circuit_breaker.py:454-458`. -/
def getState (o : Nat) : M String := do
  let p ← getPythonCb cfg clock o
  pure (← objectAt p).fields.state.value

/-- `CircuitBreakerSnapshot`; `circuit_breaker.py:485-494`. -/
structure CircuitBreakerSnapshot where
  domain : String
  state : String
  failureCount : Nat
  recoveryTimeoutS : ℚ
  openedAtMonotonic : ℚ
  lastFailureKind : String
  warmupFailureCount : Nat

/-- `DomainCircuitBreaker.get_snapshot`; `circuit_breaker.py:460-472`. -/
def snapshotOf (o : Nat) : M CircuitBreakerSnapshot := do
  let b ← objectAt o
  let p ← getPythonCb cfg clock o
  let c := (← objectAt p).fields
  pure {
    domain := b.fields.domain
    state := c.state.value
    failureCount := c.failureCount
    warmupFailureCount := c.warmupFailureCount
    recoveryTimeoutS := c.recoveryTimeout
    openedAtMonotonic := c.openedAtMonotonic
    lastFailureKind := c.lastFailureKind }

/-- The states of the listed domains that are still in the cache; `circuit_breaker.py:793`. -/
def statesOf : List String → M (List (String × String))
  | [] => pure []
  | d :: rest => do
    if ← onBreakers clock fun now c => c.contains now d then
      let o ← getItem clock d
      let state ← getState cfg clock o
      pure ((d, state) :: (← statesOf rest))
    else statesOf rest

/-- `_sync_snapshot_breakers`, which `get_all_breaker_states` returns;
`circuit_breaker.py:779-802`. -/
def getAllBreakerStates : M (List (String × String)) := do
  let domains ← withLock (onBreakers clock fun now c => c.keys now)
  statesOf cfg clock domains

/-- `get_all_breaker_snapshots`; `circuit_breaker.py:817-819`. -/
def getAllBreakerSnapshots : M (List CircuitBreakerSnapshot) := withLock do
  let objects ← onBreakers clock fun now c => c.values now
  objects.mapM (snapshotOf cfg clock)

/-- One entry of `per_domain_stats`. -/
structure DomainStats where
  state : String
  failureCount : Nat
  warmupFailureCount : Nat
  lastFailureTime : ℚ
  openedAtMonotonic : ℚ
  lastFailureKind : String
  recoveryTimeoutS : ℚ

/-- The state comes from the Python half, the rest from the object itself;
`circuit_breaker.py:825-833`. -/
def statsOf (o : Nat) : M DomainStats := do
  let state ← getState cfg clock o
  let b := (← objectAt o).fields
  pure {
    state
    failureCount := b.failureCount
    warmupFailureCount := b.warmupFailureCount
    lastFailureTime := b.lastFailureTime
    openedAtMonotonic := b.openedAtMonotonic
    lastFailureKind := b.lastFailureKind
    recoveryTimeoutS := b.recoveryTimeout }

/-- `per_domain_stats`; `circuit_breaker.py:822-835`. -/
def perDomainStats : M (List (String × DomainStats)) := withLock do
  let items ← onBreakers clock fun now c => c.items now
  items.mapM fun e => do pure (e.1, ← statsOf cfg clock e.2)

/-- `get_snapshot`; `circuit_breaker.py:838-843`. -/
def getSnapshot (domain : String) : M (Option CircuitBreakerSnapshot) := withLock do
  match ← onBreakers clock fun now c => c.get now domain with
  | none => pure none
  | some o => do pure (some (← snapshotOf cfg clock o))

/-- `clear_all_breakers`; `circuit_breaker.py:846-862`. -/
def clearAllBreakers : M PUnit := do
  withLock (modify fun w => { w with breakers := w.breakers.clear, bootStartedAt := 0 })
  modify fun w => { w with rust := w.rust.map RustBackend.clearAll }

/-- `rust_circuit_is_open`: `none` without Rust, and where the function raises;
`circuit_breaker.py:691-705`. -/
def rustCircuitIsOpen (answer : Option Bool) : M (Option Bool) := do
  pure (if (← get).rust.isSome then answer else none)

/-- `domain_breaker_check`; `circuit_breaker.py:1236-1283`. `answer` is what the Rust function gives
when it is asked. -/
def domainBreakerCheck (domain : String) (answer : Option Bool) (draw : ℚ) :
    M CircuitDecision := do
  if domain = "" then pure ⟨true, domain, "unknown", 0, "empty_domain_skip"⟩
  else
    match ← rustCircuitIsOpen answer with
    | some true => pure ⟨false, domain, "open", cfg.baseRecoveryTimeoutS, "circuit_open_rust"⟩
    | some false =>
      let o ← getBreaker cfg clock domain
      let b := (← objectAt o).fields
      if b.state = .halfOpen then
        pure ⟨true, domain, "half_open", b.jitteredRetryAfter cfg.toCircuitConfig draw,
          "circuit_half_open_recovery_probe"⟩
      else pure ⟨true, domain, "closed", 0, "circuit_closed_rust"⟩
    | none =>
      let o ← getBreaker cfg clock domain
      checkCircuit cfg clock draw o

/-- `rust_circuit_record_success` and `rust_circuit_record_failure`;
`circuit_breaker.py:708-739`. -/
def rustCircuitRecord (domain : String) (outcome : Outcome) : M PUnit :=
  if domain = "" then pure ⟨⟩ else rustReceive domain outcome

/-- `domain_breaker_record_success`; `circuit_breaker.py:1286-1301`. -/
def domainBreakerRecordSuccess (domain : String) : M PUnit := do
  unless domain = "" do
    exceptPass do
      let o ← getBreaker cfg clock domain
      recordSuccess cfg clock o
    rustCircuitRecord domain .success

/-- `domain_breaker_record_failure`; `circuit_breaker.py:1304-1319`. -/
def domainBreakerRecordFailure (domain : String) (isTimeout : Bool) (failureKind : String) :
    M PUnit := do
  unless domain = "" do
    exceptPass do
      let o ← getBreaker cfg clock domain
      recordFailure cfg clock o
        { isTimeout, failureKind := if failureKind = "" then "fetch_error" else failureKind }
    rustCircuitRecord domain (.failure isTimeout)

/-- The public calls. -/
inductive Call where
  | getBreaker (domain : String)
  | domainBreakerCheck (domain : String) (answer : Option Bool) (draw : ℚ)
  | domainBreakerRecordSuccess (domain : String)
  | domainBreakerRecordFailure (domain : String) (isTimeout : Bool) (failureKind : String)
  | getSnapshot (domain : String)
  | getAllBreakerSnapshots
  | perDomainStats
  | getAllBreakerStates
  | clearAllBreakers

/-- What a public call runs. -/
def perform : Call → M PUnit
  | .getBreaker d => ignore (getBreaker cfg clock d)
  | .domainBreakerCheck d answer draw => ignore (domainBreakerCheck cfg clock d answer draw)
  | .domainBreakerRecordSuccess d => domainBreakerRecordSuccess cfg clock d
  | .domainBreakerRecordFailure d isTimeout kind =>
    domainBreakerRecordFailure cfg clock d isTimeout kind
  | .getSnapshot d => ignore (getSnapshot cfg clock d)
  | .getAllBreakerSnapshots => ignore (getAllBreakerSnapshots cfg clock)
  | .perDomainStats => ignore (perDomainStats cfg clock)
  | .getAllBreakerStates => ignore (getAllBreakerStates cfg clock)
  | .clearAllBreakers => clearAllBreakers

/-- The state after a call, however it ends. -/
def step (w : World) (c : Call) : World := (Raising.exec (perform cfg clock c) w).2

end Functions

end Registry

end Hledac.Transport
