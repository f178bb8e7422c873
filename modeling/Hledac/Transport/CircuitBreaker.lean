import Mathlib.Algebra.Order.Ring.Rat
import Hledac.Lib.Machine

/-!
# The domain circuit breaker

`transport/circuit_breaker.py`: the Python state machine behind `DomainCircuitBreaker`,
used when the Rust backend is absent. Clock readings and durations are rationals; each
operation takes the reading of `time.monotonic()` it makes.
-/

namespace Hledac.Transport

/-- Environment-configured constants; `circuit_breaker.py:102-131`, with the bounds that
`config/__init__.py:563-596` clamps the probe count to. -/
structure CircuitConfig where
  maxRecoveryTimeoutS : ℚ
  baseRecoveryTimeoutS : ℚ
  circuitHalfOpenProbes : Nat
  timeoutAccumulatorWeight : ℚ
  consecutiveTimeoutAccumulatorThreshold : Nat
  jitterMinMultiplier : ℚ
  jitterMaxMultiplier : ℚ
  jitterMinFraction : ℚ
  one_le_circuitHalfOpenProbes : 1 ≤ circuitHalfOpenProbes
  circuitHalfOpenProbes_le_five : circuitHalfOpenProbes ≤ 5

/-- The values used when no environment variable is set; `config/__init__.py:563-577`. -/
def CircuitConfig.default : CircuitConfig where
  maxRecoveryTimeoutS := 120
  baseRecoveryTimeoutS := 15
  circuitHalfOpenProbes := 3
  timeoutAccumulatorWeight := 1 / 2
  consecutiveTimeoutAccumulatorThreshold := 4
  jitterMinMultiplier := 1 / 2
  jitterMaxMultiplier := 3 / 2
  jitterMinFraction := 1 / 10
  one_le_circuitHalfOpenProbes := by decide
  circuitHalfOpenProbes_le_five := by decide

/-- `CBState`; `circuit_breaker.py:167-170`. -/
inductive CBState where
  | closed
  | opened
  | halfOpen
  deriving DecidableEq, Repr

/-- `CBState.value`. -/
def CBState.value : CBState → String
  | .closed => "closed"
  | .opened => "open"
  | .halfOpen => "half_open"

/-- Event name for a breaker that opens; `circuit_breaker.py:135`. -/
def transportCircuitOpen : String := "TRANSPORT_CIRCUIT_OPEN"

/-- Event name for a breaker that closes; `circuit_breaker.py:137`. -/
def transportCircuitClose : String := "TRANSPORT_CIRCUIT_CLOSE"

/-- `CircuitBreaker`; `circuit_breaker.py:507-546`, without its lock and back reference.
`emitted` lists the events handed to `_emit_transport_event`, oldest first. -/
structure CircuitBreaker where
  domain : String
  failureThreshold : Nat
  recoveryTimeout : ℚ
  state : CBState := .closed
  failureCount : Nat := 0
  warmupFailureCount : Nat := 0
  warmupLastFailureTime : ℚ := 0
  lastFailureTime : ℚ := 0
  consecutiveTimeouts : ℚ := 0
  openedAtMonotonic : ℚ := 0
  lastFailureKind : String := ""
  halfOpenProbes : Nat := 0
  stateEnteredAtMonotonic : ℚ
  emitted : List (String × String) := []
  deriving DecidableEq

/-- `CircuitDecision`; `circuit_breaker.py:497-504`. -/
structure CircuitDecision where
  allowed : Bool
  domain : String
  state : String
  retryAfterS : ℚ
  reason : String
  deriving DecidableEq

namespace CircuitBreaker

/-- A breaker as the dataclass builds it: closed, all counters at zero. -/
def fresh (domain : String) (failureThreshold : Nat) (recoveryTimeout now : ℚ) : CircuitBreaker :=
  { domain, failureThreshold, recoveryTimeout, stateEnteredAtMonotonic := now }

/-- `_emit_transport_event` for this breaker's domain; `circuit_breaker.py:156-165`. -/
def emitTransportEvent (b : CircuitBreaker) (event : String) : CircuitBreaker :=
  { b with emitted := b.emitted ++ [(event, b.domain)] }

/-- `_jittered_retry_after`; `circuit_breaker.py:570-584`. `draw` in `[0, 1]` is the random
number behind `uniform`. -/
def jitteredRetryAfter (cfg : CircuitConfig) (draw : ℚ) (b : CircuitBreaker) : ℚ :=
  let lo := cfg.jitterMinMultiplier * b.recoveryTimeout
  let hi := cfg.jitterMaxMultiplier * b.recoveryTimeout
  max (lo + (hi - lo) * draw) (cfg.jitterMinFraction * b.recoveryTimeout)

/-- The transition OPEN to HALF_OPEN, written out in `is_open` and in `check_circuit`. -/
def enterHalfOpen (now : ℚ) (b : CircuitBreaker) : CircuitBreaker :=
  { b with state := .halfOpen, halfOpenProbes := 0, stateEnteredAtMonotonic := now }

/-- The transition HALF_OPEN to CLOSED by probe count, written out in `half_open_probe` and in
`check_circuit`. -/
def closeByProbes (now : ℚ) (b : CircuitBreaker) : CircuitBreaker :=
  { b with state := .closed, stateEnteredAtMonotonic := now }.emitTransportEvent
    transportCircuitClose

/-- `DomainCircuitBreaker.is_open`, Python path; `circuit_breaker.py:235-261`. -/
def isOpen (now : ℚ) (b : CircuitBreaker) : Bool × CircuitBreaker :=
  if b.state = .opened then
    if now - b.lastFailureTime > b.recoveryTimeout then (false, b.enterHalfOpen now)
    else (true, b)
  else (false, b)

/-- `DomainCircuitBreaker.record_success`, Python path; `circuit_breaker.py:263-288`. -/
def recordSuccess (cfg : CircuitConfig) (now : ℚ) (b : CircuitBreaker) : CircuitBreaker :=
  let reset : CircuitBreaker :=
    { b with
      failureCount := 0
      consecutiveTimeouts := 0
      halfOpenProbes := 0
      state := .closed
      recoveryTimeout := cfg.baseRecoveryTimeoutS
      lastFailureKind := "" }
  if b.state = .halfOpen then
    { reset with stateEnteredAtMonotonic := now }.emitTransportEvent transportCircuitClose
  else reset

/-- Arguments of `record_failure`; `circuit_breaker.py:290-297`. -/
structure Failure where
  isTimeout : Bool := false
  failureKind : String := ""
  isWarmup : Bool := false
  sprintRemainingS : Option ℚ := none
  deriving DecidableEq

/-- The doubled recovery timeout under its ceiling; `circuit_breaker.py:321-325, 335-340`. -/
def doubledTimeout (cfg : CircuitConfig) (sprintRemainingS : Option ℚ) (b : CircuitBreaker) : ℚ :=
  match sprintRemainingS with
  | some r =>
    if r > 0 then min (b.recoveryTimeout * 2) (min (r / 2) cfg.maxRecoveryTimeoutS)
    else min (b.recoveryTimeout * 2) cfg.maxRecoveryTimeoutS
  | none => min (b.recoveryTimeout * 2) cfg.maxRecoveryTimeoutS

/-- The accounting half of `record_failure`; `circuit_breaker.py:315-329`. -/
def countFailure (cfg : CircuitConfig) (now : ℚ) (f : Failure) (b : CircuitBreaker) :
    CircuitBreaker :=
  let kind := if f.failureKind = "" then (if f.isTimeout then "timeout" else "error")
    else f.failureKind
  let b := { b with lastFailureTime := now, lastFailureKind := kind }
  if f.isTimeout then
    let b := { b with consecutiveTimeouts := b.consecutiveTimeouts + cfg.timeoutAccumulatorWeight }
    if b.consecutiveTimeouts ≥ (cfg.consecutiveTimeoutAccumulatorThreshold : ℚ) then
      { b with recoveryTimeout := b.doubledTimeout cfg f.sprintRemainingS, consecutiveTimeouts := 0 }
    else b
  else { b with failureCount := b.failureCount + 1, consecutiveTimeouts := 0 }

/-- The tripping half of `record_failure`; `circuit_breaker.py:330-345`. -/
def tripOnThreshold (cfg : CircuitConfig) (now : ℚ) (f : Failure) (b : CircuitBreaker) :
    CircuitBreaker :=
  if b.failureCount ≥ b.failureThreshold then
    let prev := b.state
    let b := { b with state := .opened, openedAtMonotonic := now, stateEnteredAtMonotonic := now }
    let b := if prev = .halfOpen then
        { b with recoveryTimeout := b.doubledTimeout cfg f.sprintRemainingS }
      else b
    if prev ≠ .opened then b.emitTransportEvent transportCircuitOpen else b
  else b

/-- `DomainCircuitBreaker.record_failure`, Python path; `circuit_breaker.py:290-345`. A warmup
failure is only counted on its own counter. -/
def recordFailure (cfg : CircuitConfig) (now : ℚ) (f : Failure) (b : CircuitBreaker) :
    CircuitBreaker :=
  if f.isWarmup then
    let kind := if f.failureKind = "" then
        (if f.isTimeout then "warmup_timeout" else "warmup_error")
      else f.failureKind
    { b with
      warmupFailureCount := b.warmupFailureCount + 1
      warmupLastFailureTime := now
      lastFailureKind := kind }
  else (b.countFailure cfg now f).tripOnThreshold cfg now f

/-- `DomainCircuitBreaker.half_open_probe`, Python path; `circuit_breaker.py:347-371`. -/
def halfOpenProbe (cfg : CircuitConfig) (now : ℚ) (b : CircuitBreaker) : Bool × CircuitBreaker :=
  if b.state ≠ .halfOpen then (false, b)
  else
    let b := { b with halfOpenProbes := b.halfOpenProbes + 1 }
    if b.halfOpenProbes ≥ cfg.circuitHalfOpenProbes then (true, b.closeByProbes now)
    else (false, b)

/-- `DomainCircuitBreaker.check_circuit`; `circuit_breaker.py:401-452`. -/
def checkCircuit (cfg : CircuitConfig) (now draw : ℚ) (b : CircuitBreaker) :
    CircuitDecision × CircuitBreaker :=
  match b.state with
  | .opened =>
    if now - b.lastFailureTime > b.recoveryTimeout then
      let b := b.enterHalfOpen now
      (⟨true, b.domain, "half_open", b.jitteredRetryAfter cfg draw,
        "circuit_half_open_recovery_probe"⟩, b)
    else
      let remaining := b.recoveryTimeout - (now - b.lastFailureTime)
      (⟨false, b.domain, "open", max 0 remaining, "circuit_open_failure_threshold_exceeded"⟩, b)
  | .halfOpen =>
    if b.halfOpenProbes ≥ cfg.circuitHalfOpenProbes then
      let b := b.closeByProbes now
      (⟨false, b.domain, "closed", max 0 (b.recoveryTimeout - (now - b.lastFailureTime)),
        "circuit_half_open_max_probes_reached"⟩, b)
    else
      let b := { b with halfOpenProbes := b.halfOpenProbes + 1 }
      (⟨true, b.domain, "half_open", b.jitteredRetryAfter cfg draw,
        "circuit_half_open_probe_allowed"⟩, b)
  | .closed => (⟨true, b.domain, "closed", 0, "circuit_closed"⟩, b)

/-- The operations of the breaker, each with its clock reading. -/
inductive Op where
  | isOpen (now : ℚ)
  | checkCircuit (now draw : ℚ)
  | recordSuccess (now : ℚ)
  | recordFailure (now : ℚ) (f : Failure)
  | halfOpenProbe (now : ℚ)
  deriving DecidableEq

/-- The breaker after one operation. -/
def step (cfg : CircuitConfig) (b : CircuitBreaker) : Op → CircuitBreaker
  | .isOpen now => (b.isOpen now).2
  | .checkCircuit now draw => (b.checkCircuit cfg now draw).2
  | .recordSuccess now => b.recordSuccess cfg now
  | .recordFailure now f => b.recordFailure cfg now f
  | .halfOpenProbe now => (b.halfOpenProbe cfg now).2

/-- The breaker after a run of operations. -/
abbrev run (cfg : CircuitConfig) (b : CircuitBreaker) (ops : List Op) : CircuitBreaker :=
  ops.foldl (step cfg) b

/-! ### What one operation does to the state and the counters -/

/-- The part of a breaker that decides its transitions, other than the clock. -/
structure Core where
  state : CBState
  failureCount : Nat
  halfOpenProbes : Nat
  failureThreshold : Nat

/-- Projection to the deciding fields. -/
def core (b : CircuitBreaker) : Core :=
  ⟨b.state, b.failureCount, b.halfOpenProbes, b.failureThreshold⟩

@[simp] theorem state_core (b : CircuitBreaker) : b.core.state = b.state := rfl

@[simp] theorem failureCount_core (b : CircuitBreaker) :
    b.core.failureCount = b.failureCount := rfl

@[simp] theorem halfOpenProbes_core (b : CircuitBreaker) :
    b.core.halfOpenProbes = b.halfOpenProbes := rfl

@[simp] theorem failureThreshold_core (b : CircuitBreaker) :
    b.core.failureThreshold = b.failureThreshold := rfl

theorem core_isOpen (now : ℚ) (b : CircuitBreaker) :
    (b.isOpen now).2.core = b.core ∨
      b.state = .opened ∧
        (b.isOpen now).2.core = { b.core with state := .halfOpen, halfOpenProbes := 0 } := by
  unfold isOpen
  split
  · next ho =>
    split
    · exact .inr ⟨ho, rfl⟩
    · exact .inl rfl
  · exact .inl rfl

theorem core_recordSuccess (cfg : CircuitConfig) (now : ℚ) (b : CircuitBreaker) :
    (b.recordSuccess cfg now).core =
      { b.core with state := .closed, failureCount := 0, halfOpenProbes := 0 } := by
  unfold recordSuccess
  split <;> rfl

theorem core_countFailure (cfg : CircuitConfig) (now : ℚ) (f : Failure) (b : CircuitBreaker) :
    (b.countFailure cfg now f).core =
      { b.core with failureCount := b.failureCount + if f.isTimeout then 0 else 1 } := by
  unfold countFailure
  cases f.isTimeout
  · rfl
  · simp only [ite_true]
    split <;> rfl

theorem core_tripOnThreshold (cfg : CircuitConfig) (now : ℚ) (f : Failure) (b : CircuitBreaker) :
    (b.tripOnThreshold cfg now f).core =
      { b.core with state := if b.failureThreshold ≤ b.failureCount then .opened else b.state } := by
  unfold tripOnThreshold
  by_cases h : b.failureCount ≥ b.failureThreshold
  · simp only [h, ite_true]
    split <;> split <;> rfl
  · simp only [h, ite_false]
    rfl

theorem core_recordFailure (cfg : CircuitConfig) (now : ℚ) (f : Failure) (b : CircuitBreaker) :
    (b.recordFailure cfg now f).core =
      if f.isWarmup then b.core
      else
        let n := b.failureCount + if f.isTimeout then 0 else 1
        { b.core with
          failureCount := n
          state := if b.failureThreshold ≤ n then .opened else b.state } := by
  unfold recordFailure
  split
  · rfl
  · have hc := core_countFailure cfg now f b
    have ht := core_tripOnThreshold cfg now f (b.countFailure cfg now f)
    simp only [core, Core.mk.injEq] at hc ht ⊢
    obtain ⟨h1, h2, h3, h4⟩ := hc
    rw [h1, h2, h3, h4] at ht
    exact ht

theorem core_halfOpenProbe (cfg : CircuitConfig) (now : ℚ) (b : CircuitBreaker) :
    (b.halfOpenProbe cfg now).2.core =
      if b.state = .halfOpen then
        { b.core with
          halfOpenProbes := b.halfOpenProbes + 1
          state := if cfg.circuitHalfOpenProbes ≤ b.halfOpenProbes + 1 then .closed else .halfOpen }
      else b.core := by
  unfold halfOpenProbe
  by_cases h : b.state = .halfOpen
  · simp only [h, ne_eq, not_true_eq_false, ite_false, ite_true]
    by_cases hp : cfg.circuitHalfOpenProbes ≤ b.halfOpenProbes + 1
    · simp only [ge_iff_le, hp, ite_true]
      rfl
    · simp only [ge_iff_le, hp, ite_false, core, h]
  · simp [h]

theorem core_checkCircuit (cfg : CircuitConfig) (now draw : ℚ) (b : CircuitBreaker) :
    (b.checkCircuit cfg now draw).2.core = b.core ∨
      b.state = .opened ∧ (b.checkCircuit cfg now draw).2.core =
        { b.core with state := .halfOpen, halfOpenProbes := 0 } ∨
      b.state = .halfOpen ∧ (b.checkCircuit cfg now draw).2.core =
        if cfg.circuitHalfOpenProbes ≤ b.halfOpenProbes then { b.core with state := .closed }
        else { b.core with halfOpenProbes := b.halfOpenProbes + 1 } := by
  unfold checkCircuit
  split
  · next ho =>
    split
    · exact .inr (.inl ⟨ho, rfl⟩)
    · exact .inl rfl
  · next hh =>
    refine .inr (.inr ⟨hh, ?_⟩)
    by_cases hp : cfg.circuitHalfOpenProbes ≤ b.halfOpenProbes
    · simp only [ge_iff_le, hp, ite_true]
      rfl
    · simp only [ge_iff_le, hp, ite_false]
      rfl
  · exact .inl rfl

end CircuitBreaker

end Hledac.Transport
