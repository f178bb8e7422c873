import Mathlib.Data.Rat.Floor
import Hledac.Lib.Machine

/-!
# The resilience breaker

`CircuitBreaker` of `src/utils/resilience/circuit_breaker.py`, used through `execute`. A call of `execute` has two
turns: it asks `can_execute` and calls the function, and later it records how the function has ended; between the two
other calls take their turns. The lock is never held across a wait. Callbacks are left out, they have no say in the
state. Times are rational numbers.
-/

namespace Hledac.Utils.Resilience

open Hledac.Lib

/-! ### The breaker -/

/-- `CircuitState`, line 39. -/
inductive CircuitState where
  | closed
  | opened
  | halfOpen
  deriving DecidableEq

/-- `CircuitBreakerConfig`, line 63. -/
structure CircuitBreakerConfig where
  failureThreshold : Nat := 3
  recoveryTimeout : ℚ := 30
  successThreshold : Nat := 2
  failureWindow : ℚ := 60

/-- `CircuitMetrics`, line 77; `total_rejections` is never counted up. -/
structure CircuitMetrics where
  totalCalls : Nat := 0
  totalFailures : Nat := 0
  totalSuccesses : Nat := 0
  totalRejections : Nat := 0
  consecutiveFailures : Nat := 0
  consecutiveSuccesses : Nat := 0
  lastFailureTs : ℚ := 0
  lastSuccessTs : ℚ := 0
  openedAt : Option ℚ := none
  closedAt : Option ℚ := none
  deriving DecidableEq

/-- `CircuitBreaker`, line 98. -/
structure CircuitBreaker where
  state : CircuitState := .closed
  metrics : CircuitMetrics := {}
  failureTimestamps : List ℚ := []
  deriving DecidableEq

namespace CircuitBreaker

variable (cfg : CircuitBreakerConfig) (now : ℚ) (b : CircuitBreaker)

/-- `_transition_to`, line 191. -/
def transitionTo (newState : CircuitState) : CircuitBreaker :=
  match newState with
  | .opened => { b with state := .opened, metrics := { b.metrics with openedAt := some now } }
  | .closed =>
    { b with state := .closed, metrics := { b.metrics with closedAt := some now, consecutiveFailures := 0 } }
  | .halfOpen => { b with state := .halfOpen }

/-- `can_execute`, line 157. -/
def canExecute : Bool × CircuitBreaker :=
  match b.state with
  | .closed => (true, b)
  | .opened =>
    match b.metrics.openedAt with
    | some t => if cfg.recoveryTimeout ≤ now - t then (true, b.transitionTo now .halfOpen) else (false, b)
    | none => (false, b)
  | .halfOpen => (true, b)

/-- The failures of the window, one right now included. -/
def windowed : List ℚ := (b.failureTimestamps ++ [now]).filter fun t => decide (now - cfg.failureWindow < t)

/-- `_record_failure`, line 171. -/
def recordFailure : CircuitBreaker :=
  { b with
    metrics := { b.metrics with
      totalFailures := b.metrics.totalFailures + 1
      consecutiveFailures := b.metrics.consecutiveFailures + 1
      consecutiveSuccesses := 0
      lastFailureTs := now }
    failureTimestamps := b.windowed cfg now }

/-- `_record_success`, line 182. -/
def recordSuccess : CircuitBreaker :=
  { b with
    metrics := { b.metrics with
      totalSuccesses := b.metrics.totalSuccesses + 1
      consecutiveSuccesses := b.metrics.consecutiveSuccesses + 1
      consecutiveFailures := 0
      lastSuccessTs := now } }

/-- `_check_open`, line 214; the number is the `failure_count` of the `CircuitBreakerOpen` it raises. -/
def checkOpen : Option Nat × CircuitBreaker :=
  if cfg.failureThreshold ≤ b.failureTimestamps.length then
    (some b.failureTimestamps.length, b.transitionTo now .opened)
  else (none, b)

/-- `_check_half_open_close`, line 227. -/
def checkHalfOpenClose : CircuitBreaker :=
  if b.state = .halfOpen ∧ cfg.successThreshold ≤ b.metrics.consecutiveSuccesses then
    { b.transitionTo now .closed with failureTimestamps := [] }
  else b

/-- `execute` up to the call of the function, line 245; what `can_execute` says is not looked at. -/
def begin : CircuitBreaker :=
  let b := (b.canExecute cfg now).2
  { b with metrics := { b.metrics with totalCalls := b.metrics.totalCalls + 1 } }

/-- `execute` after the function has returned a value, line 252. -/
def succeed : CircuitBreaker := (b.recordSuccess now).checkHalfOpenClose cfg now

/-- `execute` after the function has raised, line 255. -/
def fail : Option Nat × CircuitBreaker := (b.recordFailure cfg now).checkOpen cfg now

end CircuitBreaker

/-! ### Runs -/

/-- What the caller of `execute` has so far: its function runs, or has returned, or it got the exception of the function
or a `CircuitBreakerOpen`. -/
inductive ExecuteCall where
  | running
  | returned
  | raised
  | circuitOpen (failureCount : Nat)
  deriving DecidableEq

/-- A breaker with the calls of `execute`. The last three fields record the run: how the functions ended in their order,
how they ended since HALF_OPEN was entered, and when OPEN was entered. -/
structure BreakerRun where
  breaker : CircuitBreaker := {}
  calls : List ExecuteCall := []
  clock : ℚ
  outcomes : List Bool := []
  probes : List Bool := []
  openedSince : ℚ := 0

/-- A call of `execute` begins, or the function of one ends with a value or an exception. -/
inductive BreakerTurn where
  | start
  | finish (call : Nat) (value : Bool)
  deriving DecidableEq

/-- A turn and its time. -/
structure BreakerStep where
  now : ℚ
  turn : BreakerTurn
  deriving DecidableEq

namespace BreakerRun

variable (cfg : CircuitBreakerConfig)

/-- The breaker has changed, and a function may have ended. -/
def follow (s : BreakerRun) (now : ℚ) (b : CircuitBreaker) (ended : List Bool) (calls : List ExecuteCall) :
    BreakerRun where
  breaker := b
  calls := calls
  clock := now
  outcomes := s.outcomes ++ ended
  probes := if s.breaker.state ≠ .halfOpen ∧ b.state = .halfOpen then [] else s.probes ++ ended
  openedSince := if s.breaker.state ≠ .opened ∧ b.state = .opened then now else s.openedSince

/-- What the caller gets where the function has raised. -/
def failed : Option Nat → ExecuteCall
  | some n => .circuitOpen n
  | none => .raised

/-- One turn; what cannot happen changes nothing. -/
def step (s : BreakerRun) (e : BreakerStep) : BreakerRun :=
  match e.turn with
  | .start => s.follow e.now (s.breaker.begin cfg e.now) [] (s.calls ++ [.running])
  | .finish c value =>
    match s.calls[c]?, value with
    | some .running, true => s.follow e.now (s.breaker.succeed cfg e.now) [true] (s.calls.set c .returned)
    | some .running, false =>
      let (opened, b) := s.breaker.fail cfg e.now
      s.follow e.now b [false] (s.calls.set c (failed opened))
    | _, _ => { s with clock := e.now }

/-- A fresh breaker. -/
def init (clock : ℚ) : BreakerRun := { clock := clock }

def run (clock : ℚ) (steps : List BreakerStep) : BreakerRun := steps.foldl (step cfg) (init clock)

/-- The clock does not go back. -/
def Forward (s : BreakerRun) (e : BreakerStep) : Prop := s.clock ≤ e.now

instance (s : BreakerRun) (e : BreakerStep) : Decidable (Forward s e) := inferInstanceAs (Decidable (_ ≤ _))

/-- The documented state machine, of one turn: an OPEN breaker whose timeout runs refuses the call, CLOSED goes to OPEN
after consecutive failures, a failure in HALF_OPEN leads to OPEN, and HALF_OPEN goes to CLOSED after consecutive
successes since it was entered. -/
structure Lawful (s : BreakerRun) (e : BreakerStep) : Prop where
  refuses : s.breaker.state = .opened → e.now < s.openedSince + cfg.recoveryTimeout → e.turn = .start →
    ∃ n, (step cfg s e).calls = s.calls ++ [.circuitOpen n]
  opens : s.breaker.state = .closed → (step cfg s e).breaker.state = .opened →
    List.replicate cfg.failureThreshold false <:+ (step cfg s e).outcomes
  reopens : s.breaker.state = .halfOpen → (step cfg s e).outcomes = s.outcomes ++ [false] →
    (step cfg s e).breaker.state = .opened
  closes : s.breaker.state = .halfOpen → (step cfg s e).breaker.state = .closed →
    List.replicate cfg.successThreshold true <:+ (step cfg s e).probes

/-- No call begins while the timeout runs, HALF_OPEN is entered with no success counted, a failure in CLOSED that fills
the window is consecutive, and one in HALF_OPEN fills the window. -/
def Orderly (s : BreakerRun) (e : BreakerStep) : Prop :=
  match e.turn with
  | .start =>
    s.breaker.state = .opened →
      (s.breaker.canExecute cfg e.now).1 = true ∧ s.breaker.metrics.consecutiveSuccesses = 0
  | .finish c value =>
    s.calls[c]? = some .running → value = false →
      (s.breaker.state = .closed → cfg.failureThreshold ≤ (s.breaker.windowed cfg e.now).length →
        cfg.failureThreshold ≤ s.breaker.metrics.consecutiveFailures + 1) ∧
      (s.breaker.state = .halfOpen → cfg.failureThreshold ≤ (s.breaker.windowed cfg e.now).length)

instance : ∀ (s : BreakerRun) (e : BreakerStep), Decidable (Orderly cfg s e)
  | _, ⟨_, .start⟩ => inferInstanceAs (Decidable (_ → _))
  | _, ⟨_, .finish _ _⟩ => inferInstanceAs (Decidable (_ → _))

end BreakerRun

/-! ### What a turn does to the breaker -/

namespace CircuitBreaker

variable {cfg : CircuitBreakerConfig} {now : ℚ} {b : CircuitBreaker}

theorem begin_cases (cfg : CircuitBreakerConfig) (now : ℚ) (b : CircuitBreaker) :
    (b.begin cfg now).metrics = { b.metrics with totalCalls := b.metrics.totalCalls + 1 } ∧
    ((b.state = .opened ∧ (b.canExecute cfg now).1 = true ∧ (b.begin cfg now).state = .halfOpen) ∨
      (¬ (b.state = .opened ∧ (b.canExecute cfg now).1 = true) ∧ (b.begin cfg now).state = b.state)) := by
  rw [begin, canExecute]
  cases hstate : b.state with
  | closed => simp [hstate]
  | halfOpen => simp [hstate]
  | opened =>
    cases b.metrics.openedAt with
    | none => simp [hstate]
    | some t =>
      by_cases hout : cfg.recoveryTimeout ≤ now - t
      · simp [hout, transitionTo]
      · simp [hout, hstate]

theorem timeout_le_of_canExecute (hstate : b.state = .opened) (hcan : (b.canExecute cfg now).1 = true) {t : ℚ}
    (ht : b.metrics.openedAt = some t) : cfg.recoveryTimeout ≤ now - t := by
  by_contra hout
  simp [canExecute, hstate, ht, hout] at hcan

theorem succeed_cases (cfg : CircuitBreakerConfig) (now : ℚ) (b : CircuitBreaker) :
    (b.succeed cfg now).metrics.consecutiveFailures = 0 ∧
    (b.succeed cfg now).metrics.consecutiveSuccesses = b.metrics.consecutiveSuccesses + 1 ∧
    (b.succeed cfg now).metrics.openedAt = b.metrics.openedAt ∧
    ((b.state = .halfOpen ∧ cfg.successThreshold ≤ b.metrics.consecutiveSuccesses + 1 ∧
      (b.succeed cfg now).state = .closed) ∨ (b.succeed cfg now).state = b.state) := by
  rw [succeed, checkHalfOpenClose]
  split
  · next h => exact ⟨rfl, rfl, rfl, .inl ⟨h.1, h.2, rfl⟩⟩
  · exact ⟨rfl, rfl, rfl, .inr rfl⟩

theorem fail_cases (cfg : CircuitBreakerConfig) (now : ℚ) (b : CircuitBreaker) :
    (b.fail cfg now).2.metrics.consecutiveFailures = b.metrics.consecutiveFailures + 1 ∧
    (b.fail cfg now).2.metrics.consecutiveSuccesses = 0 ∧
    ((cfg.failureThreshold ≤ (b.windowed cfg now).length ∧ (b.fail cfg now).2.state = .opened ∧
        (b.fail cfg now).2.metrics.openedAt = some now) ∨
      (¬ cfg.failureThreshold ≤ (b.windowed cfg now).length ∧ (b.fail cfg now).2.state = b.state ∧
        (b.fail cfg now).2.metrics.openedAt = b.metrics.openedAt)) := by
  rw [fail, checkOpen]
  split
  · next h => exact ⟨rfl, rfl, .inl ⟨h, rfl, rfl⟩⟩
  · next h => exact ⟨rfl, rfl, .inr ⟨h, rfl, rfl⟩⟩

end CircuitBreaker

/-! ### The counters and the run -/

section Suffix

variable {α : Type} {a : α} {l : List α} {m n : Nat}

theorem replicate_suffix_concat (h : List.replicate n a <:+ l) : List.replicate (n + 1) a <:+ l ++ [a] := by
  rw [List.replicate_succ']
  exact List.suffix_append_self_iff.2 h

theorem replicate_suffix_of_le (hle : m ≤ n) (h : List.replicate n a <:+ l) : List.replicate m a <:+ l := by
  obtain ⟨k, rfl⟩ := Nat.exists_eq_add_of_le' hle
  rw [List.replicate_add] at h
  exact (List.suffix_append _ _).trans h

end Suffix

namespace BreakerRun

variable {cfg : CircuitBreakerConfig} {s : BreakerRun} {now : ℚ} {b : CircuitBreaker} {calls : List ExecuteCall}

/-- The counters of the breaker count the end of the run, and its `opened_at` is no earlier than OPEN. -/
structure Recorded (s : BreakerRun) : Prop where
  failures : List.replicate s.breaker.metrics.consecutiveFailures false <:+ s.outcomes
  probed : s.breaker.state = .halfOpen → List.replicate s.breaker.metrics.consecutiveSuccesses true <:+ s.probes
  opened : s.breaker.state = .opened → ∃ t, s.breaker.metrics.openedAt = some t ∧ s.openedSince ≤ t ∧ t ≤ s.clock

theorem recorded_init (clock : ℚ) : Recorded (init clock) where
  failures := List.suffix_refl _
  probed h := nomatch h
  opened h := nomatch h

theorem Recorded.wait (h : Recorded s) (hnow : s.clock ≤ now) : Recorded { s with clock := now } where
  failures := h.failures
  probed := h.probed
  opened hstate := by
    obtain ⟨t, ht, hsince, hpast⟩ := h.opened hstate
    exact ⟨t, ht, hsince, hpast.trans hnow⟩

theorem Recorded.begin (h : Recorded s) (hnow : s.clock ≤ now)
    (hentry : s.breaker.state = .opened → (s.breaker.canExecute cfg now).1 = true ∧
      s.breaker.metrics.consecutiveSuccesses = 0) :
    Recorded (s.follow now (s.breaker.begin cfg now) [] calls) := by
  obtain ⟨hmetrics, hstate⟩ := CircuitBreaker.begin_cases cfg now s.breaker
  have hfailures : (s.breaker.begin cfg now).metrics.consecutiveFailures = s.breaker.metrics.consecutiveFailures := by
    rw [hmetrics]
  have hsuccesses : (s.breaker.begin cfg now).metrics.consecutiveSuccesses =
      s.breaker.metrics.consecutiveSuccesses := by rw [hmetrics]
  have hopened : (s.breaker.begin cfg now).metrics.openedAt = s.breaker.metrics.openedAt := by rw [hmetrics]
  constructor
  · simp only [follow, List.append_nil, hfailures]
    exact h.failures
  · intro hhalf
    simp only [follow, List.append_nil, hsuccesses] at hhalf ⊢
    cases hstate with
    | inl hentered =>
      rw [(hentry hentered.1).2]
      exact List.nil_suffix
    | inr hsame =>
      rw [hsame.2] at hhalf
      rw [if_neg fun hc => hc.1 hhalf]
      exact h.probed hhalf
  · intro hopen
    simp only [follow, hopened] at hopen ⊢
    cases hstate with
    | inl hentered => cases hentered.2.2.symm.trans hopen
    | inr hsame =>
      rw [hsame.2] at hopen
      obtain ⟨t, ht, hsince, hpast⟩ := h.opened hopen
      rw [if_neg fun hc => hc.1 hopen]
      exact ⟨t, ht, hsince, hpast.trans hnow⟩

theorem Recorded.succeed (h : Recorded s) (hnow : s.clock ≤ now) :
    Recorded (s.follow now (s.breaker.succeed cfg now) [true] calls) := by
  obtain ⟨hfailures, hsuccesses, hopened, hstate⟩ := CircuitBreaker.succeed_cases cfg now s.breaker
  constructor
  · simp only [follow, hfailures]
    exact List.nil_suffix
  · intro hhalf
    simp only [follow, hsuccesses] at hhalf ⊢
    cases hstate with
    | inl hclosed => cases hclosed.2.2.symm.trans hhalf
    | inr hsame =>
      rw [hsame] at hhalf
      rw [if_neg fun hc => hc.1 hhalf]
      exact replicate_suffix_concat (h.probed hhalf)
  · intro hopen
    simp only [follow, hopened] at hopen ⊢
    cases hstate with
    | inl hclosed => cases hclosed.2.2.symm.trans hopen
    | inr hsame =>
      rw [hsame] at hopen
      obtain ⟨t, ht, hsince, hpast⟩ := h.opened hopen
      rw [if_neg fun hc => hc.1 hopen]
      exact ⟨t, ht, hsince, hpast.trans hnow⟩

theorem Recorded.fail (h : Recorded s) (hnow : s.clock ≤ now) :
    Recorded (s.follow now (s.breaker.fail cfg now).2 [false] calls) := by
  obtain ⟨hfailures, hsuccesses, hstate⟩ := CircuitBreaker.fail_cases cfg now s.breaker
  constructor
  · simp only [follow, hfailures]
    exact replicate_suffix_concat h.failures
  · intro _
    simp only [follow, hsuccesses]
    exact List.nil_suffix
  · intro hopen
    simp only [follow] at hopen ⊢
    cases hstate with
    | inl hfull =>
      refine ⟨now, hfull.2.2, ?_, le_rfl⟩
      split
      · exact le_rfl
      · next hwas =>
        have hwas' : s.breaker.state = .opened := by
          by_contra hc
          exact hwas ⟨hc, hopen⟩
        obtain ⟨t, _, hsince, hpast⟩ := h.opened hwas'
        exact hsince.trans (hpast.trans hnow)
    | inr hsame =>
      rw [hsame.2.1] at hopen
      obtain ⟨t, ht, hsince, hpast⟩ := h.opened hopen
      rw [if_neg fun hc => hc.1 hopen, hsame.2.2]
      exact ⟨t, ht, hsince, hpast.trans hnow⟩

theorem recorded_step {e : BreakerStep} (h : Recorded s) (hnow : Forward s e) (horderly : Orderly cfg s e) :
    Recorded (step cfg s e) := by
  obtain ⟨now, turn⟩ := e
  rw [step]
  cases turn with
  | start => exact h.begin hnow horderly
  | finish c value =>
    simp only
    split
    · exact h.succeed hnow
    · exact h.fail hnow
    · exact h.wait hnow

/-! ### The state machine -/

theorem lawful_wait {e : BreakerStep} (hstart : e.turn ≠ .start) (hstep : step cfg s e = { s with clock := e.now }) :
    Lawful cfg s e where
  refuses _ _ hturn := absurd hturn hstart
  opens hclosed hopened := by
    rw [hstep, hclosed] at hopened
    cases hopened
  reopens _ hended := by
    rw [hstep] at hended
    simp at hended
  closes hhalf hclosed := by
    rw [hstep, hhalf] at hclosed
    cases hclosed

theorem lawful_start (h : Recorded s) (horderly : Orderly cfg s ⟨now, .start⟩) : Lawful cfg s ⟨now, .start⟩ where
  refuses hopened hearly _ := by
    obtain ⟨t, ht, hsince, _⟩ := h.opened hopened
    have hout := CircuitBreaker.timeout_le_of_canExecute hopened (horderly hopened).1 ht
    -- the timeout is over
    have hcontra : now < now := calc
      now < s.openedSince + cfg.recoveryTimeout := hearly
      _ ≤ t + (now - t) := add_le_add hsince hout
      _ = now := add_sub_cancel t now
    exact absurd hcontra (lt_irrefl now)
  opens hclosed hopened := by
    have hstate := (CircuitBreaker.begin_cases cfg now s.breaker).2
    cases hstate with
    | inl hentered => cases hclosed.symm.trans hentered.1
    | inr hsame => cases (hsame.2.trans hclosed).symm.trans hopened
  reopens _ hended := by
    have hended' : s.outcomes ++ [] = s.outcomes ++ [false] := hended
    simp at hended'
  closes hhalf hclosed := by
    have hstate := (CircuitBreaker.begin_cases cfg now s.breaker).2
    cases hstate with
    | inl hentered => cases hhalf.symm.trans hentered.1
    | inr hsame => cases (hsame.2.trans hhalf).symm.trans hclosed

theorem lawful_succeed (h : Recorded s) {c : Nat}
    (hstep : step cfg s ⟨now, .finish c true⟩ = s.follow now (s.breaker.succeed cfg now) [true] calls) :
    Lawful cfg s ⟨now, .finish c true⟩ where
  refuses _ _ hturn := nomatch hturn
  opens hclosed hopened := by
    rw [hstep] at hopened
    cases (CircuitBreaker.succeed_cases cfg now s.breaker).2.2.2 with
    | inl hend => cases hclosed.symm.trans hend.1
    | inr hsame => cases (hsame.trans hclosed).symm.trans hopened
  reopens _ hended := by
    rw [hstep] at hended
    simp [follow] at hended
  closes hhalf hclosed := by
    rw [hstep] at hclosed ⊢
    cases (CircuitBreaker.succeed_cases cfg now s.breaker).2.2.2 with
    | inl hend =>
      have hprobes : (s.follow now (s.breaker.succeed cfg now) [true] calls).probes = s.probes ++ [true] :=
        if_neg fun hc => hc.1 hhalf
      rw [hprobes]
      exact replicate_suffix_of_le hend.2.1 (replicate_suffix_concat (h.probed hhalf))
    | inr hsame => cases (hsame.trans hhalf).symm.trans hclosed

theorem lawful_fail (h : Recorded s) {c : Nat} (hrunning : s.calls[c]? = some .running)
    (horderly : Orderly cfg s ⟨now, .finish c false⟩)
    (hstep : step cfg s ⟨now, .finish c false⟩ = s.follow now (s.breaker.fail cfg now).2 [false] calls) :
    Lawful cfg s ⟨now, .finish c false⟩ where
  refuses _ _ hturn := nomatch hturn
  opens hclosed hopened := by
    rw [hstep] at hopened ⊢
    cases (CircuitBreaker.fail_cases cfg now s.breaker).2.2 with
    | inl hfull =>
      have hconsecutive := (horderly hrunning rfl).1 hclosed hfull.1
      exact replicate_suffix_of_le hconsecutive (replicate_suffix_concat h.failures)
    | inr hsame => cases (hsame.2.1.trans hclosed).symm.trans hopened
  reopens hhalf _ := by
    rw [hstep]
    have hfull := (horderly hrunning rfl).2 hhalf
    cases (CircuitBreaker.fail_cases cfg now s.breaker).2.2 with
    | inl hopened => exact hopened.2.1
    | inr hsame => exact absurd hfull hsame.1
  closes hhalf hclosed := by
    rw [hstep] at hclosed
    cases (CircuitBreaker.fail_cases cfg now s.breaker).2.2 with
    | inl hfull => cases hfull.2.1.symm.trans hclosed
    | inr hsame => cases (hsame.2.1.trans hhalf).symm.trans hclosed

theorem lawful_step {e : BreakerStep} (h : Recorded s) (horderly : Orderly cfg s e) : Lawful cfg s e := by
  obtain ⟨now, turn⟩ := e
  cases turn with
  | start => exact lawful_start h horderly
  | finish c value =>
    by_cases hrunning : s.calls[c]? = some .running
    · cases value with
      | true =>
        apply lawful_succeed h
        simp only [step, hrunning]
        rfl
      | false =>
        apply lawful_fail h hrunning horderly
        simp only [step, hrunning]
        rfl
    · apply lawful_wait (by simp)
      rw [step]
      simp only
      split
      · next hc => exact absurd hc hrunning
      · next hc => exact absurd hc hrunning
      · rfl

/-- Every turn of an orderly run keeps to the documented state machine. -/
theorem lawful_of_orderly {clock : ℚ} {steps : List BreakerStep}
    (h : StepsMeet (step cfg) (fun s e => Forward s e ∧ Orderly cfg s e) (init clock) steps) :
    StepsMeet (step cfg) (Lawful cfg) (init clock) steps :=
  h.of_invariant (fun _ _ hs hc => recorded_step hs hc.1 hc.2) (fun _ _ hs hc => lawful_step hs hc.2)
    (recorded_init clock)

/-- Three failures in a row, and two successes after the timeout. -/
theorem lawful_of_orderly_recovery :
    StepsMeet (step {}) (Lawful {}) (init 0) [⟨0, .start⟩, ⟨0, .finish 0 false⟩, ⟨1, .start⟩, ⟨1, .finish 1 false⟩,
      ⟨2, .start⟩, ⟨2, .finish 2 false⟩, ⟨40, .start⟩, ⟨41, .finish 3 true⟩, ⟨41, .start⟩, ⟨42, .finish 4 true⟩] :=
  lawful_of_orderly (by decide +kernel)

/-- A call begins two seconds after the breaker has opened. -/
theorem not_lawful :
    ¬ ∀ (cfg : CircuitBreakerConfig) (clock : ℚ) (steps : List BreakerStep), 1 ≤ cfg.failureThreshold →
      1 ≤ cfg.successThreshold → StepsMeet (step cfg) Forward (init clock) steps →
      StepsMeet (step cfg) (Lawful cfg) (init clock) steps := by
  intro h
  have hrun := h { failureThreshold := 1 } 0 [⟨0, .start⟩, ⟨0, .finish 0 false⟩, ⟨2, .start⟩] (by decide) (by decide)
    (by decide +kernel)
  obtain ⟨n, hn⟩ := hrun.2.2.1.refuses (by decide +kernel) (by decide +kernel) rfl
  have hcalled := List.append_cancel_left hn
  cases hcalled

end BreakerRun

end Hledac.Utils.Resilience
