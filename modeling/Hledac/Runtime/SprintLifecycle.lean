import Mathlib.Algebra.Order.Ring.Rat
import Hledac.Lib.Machine

/-!
# The sprint lifecycle

`runtime/sprint_lifecycle.py`: the phase machine of a sprint. Clock readings and durations are
rationals. What the machine asks of the resource governor and of the saturation detector comes
with the call. Exit callbacks are recorded, not run: `moves` lists the pairs of phases they are
called with.
-/

namespace Hledac.Runtime

/-- `SprintPhase`; lines 35-42. -/
inductive SprintPhase where
  | boot
  | warmup
  | active
  | degraded
  | windup
  | exportPhase
  | teardown
  deriving DecidableEq, Repr

namespace SprintPhase

/-- `SprintPhase.name`. -/
def name : SprintPhase → String
  | .boot => "BOOT"
  | .warmup => "WARMUP"
  | .active => "ACTIVE"
  | .degraded => "DEGRADED"
  | .windup => "WINDUP"
  | .exportPhase => "EXPORT"
  | .teardown => "TEARDOWN"

/-- `_PHASE_ORDER`; lines 86-94. -/
def order : List SprintPhase :=
  [.boot, .warmup, .active, .degraded, .windup, .exportPhase, .teardown]

/-- `_PHASE_ORDER.index`. -/
def index (p : SprintPhase) : Nat := order.idxOf p

end SprintPhase

/-- The two exceptions, with their texts; lines 76-81. -/
inductive LifecycleError where
  | sprintLifecycle (message : String)
  | invalidPhaseTransition (message : String)
  deriving DecidableEq

/-- `SprintLifecycleManager`; lines 100-178. Of the detector only its presence is
kept; the seed state and the checkpoint settings are left out, nothing below reads them. -/
structure SprintLifecycleManager where
  sprintDurationS : ℚ
  windupLeadS : ℚ
  startedAt : Option ℚ := none
  currentPhase : SprintPhase := .boot
  enteredPhaseAt : Option ℚ := none
  phaseHistory : SprintPhase → Option ℚ := fun _ => none
  moves : List (SprintPhase × SprintPhase) := []
  exportStarted : Bool := false
  teardownStarted : Bool := false
  governorWindupLowered : Bool := false
  governorDegradedLowered : Bool := false
  abortRequested : Bool := false
  abortReason : String := ""
  preLoopCostS : ℚ := 0
  firstCycleRan : Bool := false
  deadlineExpiredPreCycle : Bool := false
  degraded : Bool := false
  degradedReason : String := ""
  cognitiveSaturationDetector : Bool := false
  activePhaseElapsedS : ℚ := 0

/-- What a tick meets outside: its clock reading; whether the governor reports a critical or
emergency state, `none` where the probe raises; whether the governor object can be told; and the
detector's answer to the elapsed time and the clock, `none` where it raises. -/
structure Surroundings where
  now : ℚ
  critical : Option Bool
  governorUp : Bool
  saturated : ℚ → ℚ → Option Bool

namespace SprintLifecycleManager

/-- A manager as the constructor builds it. -/
def fresh (sprintDurationS windupLeadS : ℚ) : SprintLifecycleManager :=
  { sprintDurationS, windupLeadS }

/-- `_transition_to_unlocked`; lines 936-950. -/
def transitionToUnlocked (phase : SprintPhase) (now : ℚ) (m : SprintLifecycleManager) :
    SprintLifecycleManager :=
  { m with
    currentPhase := phase
    enteredPhaseAt := some now
    phaseHistory := Function.update m.phaseHistory phase (some now)
    moves := m.moves ++ [(m.currentPhase, phase)] }

/-- `_is_valid_transition`; lines 952-958. -/
def isValidTransition (fromPhase toPhase : SprintPhase) : Bool :=
  if toPhase = .teardown then true else toPhase.index == fromPhase.index + 1

/-- `start`; lines 222-228. -/
def start (now : ℚ) (m : SprintLifecycleManager) : Except LifecycleError SprintLifecycleManager :=
  if m.startedAt.isSome then .error (.sprintLifecycle "Sprint has already been started.")
  else .ok ({ m with startedAt := some now }.transitionToUnlocked .warmup now)

/-- `transition_to`; lines 232-245. -/
def transitionTo (phase : SprintPhase) (now : ℚ) (m : SprintLifecycleManager) :
    Except LifecycleError SprintLifecycleManager :=
  if m.startedAt.isNone then
    .error (.sprintLifecycle "Sprint has not been started. Call start() first.")
  else if phase = .teardown ∧ m.abortRequested then .ok (m.transitionToUnlocked phase now)
  else if isValidTransition m.currentPhase phase then .ok (m.transitionToUnlocked phase now)
  else .error (.invalidPhaseTransition
    (s!"Cannot transition from {m.currentPhase.name} to {phase.name}." ++
      " Phases must advance monotonically."))

/-- `_transition_to_degraded_if_critical`; lines 277-288. -/
def transitionToDegradedIfCritical (s : Surroundings) (m : SprintLifecycleManager) :
    SprintLifecycleManager :=
  if s.critical = some true then
    { m with
      degraded := true
      degradedReason := "governor_critical_or_emergency" }.transitionToUnlocked .degraded s.now
  else m

/-- `_check_governor_recovery`; lines 290-304. A probe that raises counts as not
recovered. -/
def checkGovernorRecovery (s : Surroundings) (m : SprintLifecycleManager) :
    SprintLifecycleManager :=
  if s.critical = some false then
    { m with degraded := false, degradedReason := "" }.transitionToUnlocked .active s.now
  else m

/-- `_check_governor_degraded_transition`; lines 270-275. -/
def checkGovernorDegradedTransition (s : Surroundings) (m : SprintLifecycleManager) :
    SprintLifecycleManager :=
  if m.currentPhase = .active ∧ m.degraded = false then m.transitionToDegradedIfCritical s
  else if m.currentPhase = .degraded then m.checkGovernorRecovery s
  else m

/-- `_track_active_phase_time`; lines 316-322. -/
def trackActivePhaseTime (now : ℚ) (m : SprintLifecycleManager) : SprintLifecycleManager :=
  if m.currentPhase = .active then
    match m.enteredPhaseAt with
    | some t => { m with activePhaseElapsedS := now - t }
    | none => m
  else if m.currentPhase = .warmup ∨ m.currentPhase = .boot then
    { m with activePhaseElapsedS := 0 }
  else m

/-- `_remaining_time_unlocked`; lines 391-394. -/
def remainingTime (now : ℚ) (m : SprintLifecycleManager) : ℚ :=
  match m.startedAt with
  | none => m.sprintDurationS
  | some t => max 0 (t + m.sprintDurationS - now)

/-- `_check_cognitive_saturation`; lines 335-355. -/
def checkCognitiveSaturation (s : Surroundings) (m : SprintLifecycleManager) : Bool :=
  m.cognitiveSaturationDetector && s.saturated m.activePhaseElapsedS s.now == some true

/-- `_execute_windup_transition`; lines 357-371. -/
def executeWindupTransition (s : Surroundings) (m : SprintLifecycleManager) :
    SprintLifecycleManager :=
  let m := m.transitionToUnlocked .windup s.now
  { m with
    governorDegradedLowered := m.governorDegradedLowered || s.governorUp
    degraded := false
    degradedReason := "" }

/-- `_check_windup_transition`; lines 324-333. -/
def checkWindupTransition (s : Surroundings) (m : SprintLifecycleManager) :
    SprintLifecycleManager :=
  if m.currentPhase ≠ .active ∧ m.currentPhase ≠ .degraded then m
  else if m.remainingTime s.now ≤ m.windupLeadS ∨ m.checkCognitiveSaturation s then
    m.executeWindupTransition s
  else m

/-- `_lower_governor_windup_if_export`; lines 373-382. -/
def lowerGovernorWindupIfExport (s : Surroundings) (m : SprintLifecycleManager) :
    SprintLifecycleManager :=
  if m.currentPhase = .exportPhase ∧ m.governorWindupLowered = false ∧ s.governorUp then
    { m with governorWindupLowered := true }
  else m

/-- `tick`; lines 249-268. -/
def tick (s : Surroundings) (m : SprintLifecycleManager) : SprintLifecycleManager :=
  let m := m.checkGovernorDegradedTransition s
  let m := m.trackActivePhaseTime s.now
  let m := m.checkWindupTransition s
  m.lowerGovernorWindupIfExport s

/-- `should_enter_windup`; lines 398-456. -/
def shouldEnterWindup (now : ℚ) (m : SprintLifecycleManager) : Bool :=
  let remaining := m.remainingTime now
  let minActiveWindowS := 30
  let maxWindupTrigger := min m.windupLeadS (m.sprintDurationS - minActiveWindowS)
  let preLoopBonus := if m.preLoopCostS > m.windupLeadS then m.preLoopCostS else 0
  let effectiveTrigger := min (m.windupLeadS + preLoopBonus) maxWindupTrigger
  if m.firstCycleRan = false ∧ m.deadlineExpiredPreCycle = false then false
  else decide (remaining ≤ effectiveTrigger)

/-- `mark_export_started`; lines 513-518. -/
def markExportStarted (now : ℚ) (m : SprintLifecycleManager) :
    Except LifecycleError SprintLifecycleManager :=
  if m.currentPhase ≠ .windup then
    .error (.invalidPhaseTransition
      s!"EXPORT may only follow WINDUP, not {m.currentPhase.name}.")
  else .ok ({ m with exportStarted := true }.transitionToUnlocked .exportPhase now)

/-- `mark_teardown_started`; lines 520-527. -/
def markTeardownStarted (now : ℚ) (m : SprintLifecycleManager) :
    Except LifecycleError SprintLifecycleManager :=
  if m.currentPhase ≠ .exportPhase ∧ m.currentPhase ≠ .windup then
    .error (.invalidPhaseTransition
      s!"TEARDOWN may only follow EXPORT or WINDUP (abort), not {m.currentPhase.name}.")
  else .ok ({ m with teardownStarted := true }.transitionToUnlocked .teardown now)

/-- `mark_warmup_done`; lines 631-658. The warmup counters of the breakers it
resets are not part of this state. -/
def markWarmupDone (now : ℚ) (m : SprintLifecycleManager) :
    Except LifecycleError SprintLifecycleManager :=
  m.transitionTo .active now

/-- `request_windup`; lines 668-687. -/
def requestWindup (now : ℚ) (m : SprintLifecycleManager) :
    Except LifecycleError SprintLifecycleManager :=
  if m.currentPhase = .windup ∨ m.currentPhase = .exportPhase ∨ m.currentPhase = .teardown then
    .ok m
  else m.transitionTo .windup now

/-- `request_export`; lines 696-710. -/
def requestExport (now : ℚ) (m : SprintLifecycleManager) :
    Except LifecycleError SprintLifecycleManager :=
  if m.currentPhase = .exportPhase ∨ m.currentPhase = .teardown then .ok m
  else m.markExportStarted now

/-- `request_teardown`; lines 719-733. -/
def requestTeardown (now : ℚ) (m : SprintLifecycleManager) :
    Except LifecycleError SprintLifecycleManager :=
  if m.currentPhase = .teardown then .ok m
  else m.markTeardownStarted now

/-- `is_degraded`; lines 834-843. -/
def isDegraded (m : SprintLifecycleManager) : Bool := m.currentPhase == .degraded

/-- The public operations. -/
inductive Op where
  | start (now : ℚ)
  | transitionTo (phase : SprintPhase) (now : ℚ)
  | tick (s : Surroundings)
  | requestWindup (now : ℚ)
  | requestExport (now : ℚ)
  | requestTeardown (now : ℚ)
  | markExportStarted (now : ℚ)
  | markTeardownStarted (now : ℚ)
  | markWarmupDone (now : ℚ)
  | requestAbort (reason : String)
  | setFirstCycleRan
  | setDeadlineExpiredPreCycle
  | setPreLoopCostS (cost : ℚ)
  | setCognitiveSaturationDetector (present : Bool)

/-- One operation: the state it leaves, or what it raises. -/
def apply (m : SprintLifecycleManager) : Op → Except LifecycleError SprintLifecycleManager
  | .start now => m.start now
  | .transitionTo phase now => m.transitionTo phase now
  | .tick s => .ok (m.tick s)
  | .requestWindup now => m.requestWindup now
  | .requestExport now => m.requestExport now
  | .requestTeardown now => m.requestTeardown now
  | .markExportStarted now => m.markExportStarted now
  | .markTeardownStarted now => m.markTeardownStarted now
  | .markWarmupDone now => m.markWarmupDone now
  | .requestAbort reason => .ok { m with abortRequested := true, abortReason := reason }
  | .setFirstCycleRan => .ok { m with firstCycleRan := true }
  | .setDeadlineExpiredPreCycle => .ok { m with deadlineExpiredPreCycle := true }
  | .setPreLoopCostS cost => .ok { m with preLoopCostS := cost }
  | .setCognitiveSaturationDetector present =>
    .ok { m with cognitiveSaturationDetector := present }

/-- The state after one operation. An operation that raises leaves it unchanged. -/
def step (m : SprintLifecycleManager) (op : Op) : SprintLifecycleManager :=
  match m.apply op with
  | .ok m' => m'
  | .error _ => m

/-- The state after a run of operations. -/
abbrev run (m : SprintLifecycleManager) (ops : List Op) : SprintLifecycleManager :=
  ops.foldl step m

/-! ### Fields that no transition writes -/

/-- The fields a tick reads its decision to wind down from, other than the phase and the detector's
answer. -/
structure Schedule where
  startedAt : Option ℚ
  sprintDurationS : ℚ
  windupLeadS : ℚ
  detector : Bool

/-- Projection to these fields. -/
def schedule (m : SprintLifecycleManager) : Schedule :=
  ⟨m.startedAt, m.sprintDurationS, m.windupLeadS, m.cognitiveSaturationDetector⟩

@[simp] theorem schedule_checkGovernorDegradedTransition (s : Surroundings)
    (m : SprintLifecycleManager) :
    (m.checkGovernorDegradedTransition s).schedule = m.schedule := by
  unfold checkGovernorDegradedTransition transitionToDegradedIfCritical checkGovernorRecovery
  split
  · split <;> rfl
  · split
    · split <;> rfl
    · rfl

@[simp] theorem schedule_trackActivePhaseTime (now : ℚ) (m : SprintLifecycleManager) :
    (m.trackActivePhaseTime now).schedule = m.schedule := by
  unfold trackActivePhaseTime
  split
  · split <;> rfl
  · split <;> rfl

@[simp] theorem schedule_checkWindupTransition (s : Surroundings) (m : SprintLifecycleManager) :
    (m.checkWindupTransition s).schedule = m.schedule := by
  unfold checkWindupTransition
  split
  · rfl
  · split <;> rfl

@[simp] theorem schedule_lowerGovernorWindupIfExport (s : Surroundings)
    (m : SprintLifecycleManager) :
    (m.lowerGovernorWindupIfExport s).schedule = m.schedule := by
  unfold lowerGovernorWindupIfExport
  split <;> rfl

@[simp] theorem schedule_tick (s : Surroundings) (m : SprintLifecycleManager) :
    (m.tick s).schedule = m.schedule := by
  simp [tick]

theorem schedule_transitionTo {m m' : SprintLifecycleManager} {p : SprintPhase} {now : ℚ}
    (h : m.transitionTo p now = .ok m') : m'.schedule = m.schedule ∧ m.startedAt ≠ none := by
  unfold transitionTo at h
  split at h
  · cases h
  · next hs =>
    have hs' : m.startedAt ≠ none := by simpa using hs
    split at h
    · cases h
      exact ⟨rfl, hs'⟩
    · split at h
      · cases h
        exact ⟨rfl, hs'⟩
      · cases h

theorem schedule_markExportStarted {m m' : SprintLifecycleManager} {now : ℚ}
    (h : m.markExportStarted now = .ok m') :
    m'.schedule = m.schedule ∧ m.currentPhase = .windup := by
  unfold markExportStarted at h
  split at h
  · cases h
  · next hp =>
    cases h
    exact ⟨rfl, not_not.1 hp⟩

theorem schedule_markTeardownStarted {m m' : SprintLifecycleManager} {now : ℚ}
    (h : m.markTeardownStarted now = .ok m') :
    m'.schedule = m.schedule ∧ (m.currentPhase = .exportPhase ∨ m.currentPhase = .windup) := by
  unfold markTeardownStarted at h
  split at h
  · cases h
  · next hp =>
    cases h
    exact ⟨rfl, (not_and_or.1 hp).imp not_not.1 not_not.1⟩

/-- A manager that has not been started is in BOOT. -/
def BootUntilStarted (m : SprintLifecycleManager) : Prop :=
  m.startedAt = none → m.currentPhase = .boot

theorem currentPhase_tick_of_boot (s : Surroundings) {m : SprintLifecycleManager}
    (h : m.currentPhase = .boot) : (m.tick s).currentPhase = .boot := by
  have hgov : m.checkGovernorDegradedTransition s = m := by
    simp [checkGovernorDegradedTransition, h]
  have htrack : (m.trackActivePhaseTime s.now).currentPhase = .boot := by
    simp [trackActivePhaseTime, h]
  have hwind : (m.trackActivePhaseTime s.now).checkWindupTransition s =
      m.trackActivePhaseTime s.now := by
    simp [checkWindupTransition, htrack]
  simp only [tick, hgov, hwind]
  unfold lowerGovernorWindupIfExport
  split
  · exact htrack
  · exact htrack

theorem bootUntilStarted_apply {m m' : SprintLifecycleManager} (hb : BootUntilStarted m)
    {op : Op} (h : m.apply op = .ok m') : BootUntilStarted m' := by
  have hkeep : ∀ {m'' : SprintLifecycleManager}, m''.schedule = m.schedule →
      (m.startedAt = none → m''.currentPhase = .boot) → BootUntilStarted m'' := by
    intro m'' hs hp hn
    exact hp ((congrArg Schedule.startedAt hs).symm.trans hn)
  have htrans : ∀ {p now}, m.transitionTo p now = .ok m' → BootUntilStarted m' := by
    intro p now ht
    obtain ⟨hs, hn⟩ := schedule_transitionTo ht
    exact hkeep hs fun h0 => absurd h0 hn
  have hexport : ∀ {now}, m.markExportStarted now = .ok m' → BootUntilStarted m' := by
    intro now ht
    obtain ⟨hs, hp⟩ := schedule_markExportStarted ht
    exact hkeep hs fun h0 => absurd ((hb h0).symm.trans hp) (by decide)
  have hteardown : ∀ {now}, m.markTeardownStarted now = .ok m' → BootUntilStarted m' := by
    intro now ht
    obtain ⟨hs, hp⟩ := schedule_markTeardownStarted ht
    refine hkeep hs fun h0 => ?_
    rw [hb h0] at hp
    exact absurd hp (by decide)
  cases op with
  | start now =>
    simp only [apply, start] at h
    split at h
    · cases h
    · cases h
      exact fun h0 => nomatch h0
  | transitionTo p now => exact htrans h
  | tick s =>
    cases h
    exact hkeep (schedule_tick s m) fun h0 => currentPhase_tick_of_boot s (hb h0)
  | requestWindup now =>
    simp only [apply, requestWindup] at h
    split at h
    · cases h
      exact hb
    · exact htrans h
  | requestExport now =>
    simp only [apply, requestExport] at h
    split at h
    · cases h
      exact hb
    · exact hexport h
  | requestTeardown now =>
    simp only [apply, requestTeardown] at h
    split at h
    · cases h
      exact hb
    · exact hteardown h
  | markExportStarted now => exact hexport h
  | markTeardownStarted now => exact hteardown h
  | markWarmupDone now => exact htrans h
  | requestAbort reason =>
    cases h
    exact hb
  | setFirstCycleRan =>
    cases h
    exact hb
  | setDeadlineExpiredPreCycle =>
    cases h
    exact hb
  | setPreLoopCostS cost =>
    cases h
    exact hb
  | setCognitiveSaturationDetector present =>
    cases h
    exact hb

theorem step_of_apply {I : SprintLifecycleManager → Prop} {m : SprintLifecycleManager} {op : Op}
    (h0 : I m) (h : ∀ m', m.apply op = .ok m' → I m') : I (m.step op) := by
  unfold step
  split
  · next m' hm => exact h m' hm
  · exact h0

theorem bootUntilStarted_step {m : SprintLifecycleManager} (hb : BootUntilStarted m) (op : Op) :
    BootUntilStarted (m.step op) :=
  step_of_apply hb fun _ h => bootUntilStarted_apply hb h

theorem bootUntilStarted_run {m : SprintLifecycleManager} (hb : BootUntilStarted m)
    (ops : List Op) : BootUntilStarted (m.run ops) :=
  Lib.foldl_invariant (I := BootUntilStarted) (fun _ op h => bootUntilStarted_step h op) ops hb

end SprintLifecycleManager

end Hledac.Runtime
