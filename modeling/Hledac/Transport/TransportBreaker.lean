import Hledac.Transport.CircuitBreaker

/-!
# The transport breaker for Tor and I2P

`TransportCircuitBreaker`; `transport/circuit_breaker.py:1029-1161`. A success is handed to
`_transition_to`, which never touches the failure count. So a failure counted before a success
still counts after it. The results below say when this shows: exactly when a success finds
failures on the count and one failure alone would not trip the breaker.

`_state_entered_at_monotonic` is left out, nothing reads it.
-/

namespace Hledac.Transport

open Hledac.Lib

/-- What the breaker tells the outside: a metric increment or a circuit event. -/
inductive Signal where
  | increment (metric : String)
  | emit (event domain : String)
  deriving DecidableEq

/-- `TransportCircuitBreaker`; lines 1029-1061. The constructor refuses any other
transport. `signals` lists what was sent to the metrics registry and to the event callback,
oldest first. -/
structure TransportCircuitBreaker where
  transport : String
  failureThreshold : ℤ
  recoveryTimeout : ℚ
  failureCount : Nat := 0
  state : CBState := .closed
  lastFailureTime : ℚ := 0
  halfOpenProbes : Nat := 0
  signals : List Signal := []
  transport_mem : transport = "tor" ∨ transport = "i2p"
  deriving DecidableEq

namespace TransportCircuitBreaker

variable {cfg : CircuitConfig}

/-- A breaker as the constructor builds it. -/
def fresh (transport : String) (h : transport = "tor" ∨ transport = "i2p")
    (failureThreshold : ℤ) (recoveryTimeout : ℚ) : TransportCircuitBreaker :=
  { transport, failureThreshold, recoveryTimeout, transport_mem := h }

/-- `f"transport:{self.transport}"`. -/
def domain (b : TransportCircuitBreaker) : String := "transport:" ++ b.transport

/-- What `_transition_to` signals for a pair of states; lines 1145-1161. -/
def transitionSignals (domain : String) (prev newState : CBState) : List Signal :=
  let event := "TRANSPORT_CIRCUIT_" ++ newState.value.toUpper
  match prev, newState with
  | .opened, .halfOpen =>
    [.increment "transport_circuit_breaker_state_transitions",
      .increment "transport_circuit_breaker_half_open_count", .emit event domain]
  | .halfOpen, .closed =>
    [.increment "transport_circuit_breaker_state_transitions",
      .increment "transport_circuit_breaker_recovery_success", .emit event domain]
  | .closed, .opened =>
    [.increment "transport_circuit_breaker_state_transitions",
      .increment "transport_circuit_breaker_open_count", .emit event domain]
  | .halfOpen, .opened =>
    [.increment "transport_circuit_breaker_state_transitions",
      .increment "transport_circuit_breaker_open_count", .emit event domain]
  | _, _ => []

/-- `_transition_to`; lines 1140-1161. -/
def transitionTo (newState : CBState) (b : TransportCircuitBreaker) : TransportCircuitBreaker :=
  { b with
    state := newState
    halfOpenProbes :=
      if b.state = .opened ∧ newState = .halfOpen then 0 else b.halfOpenProbes
    signals := b.signals ++ transitionSignals b.domain b.state newState }

/-- `is_open`; lines 1063-1071. -/
def isOpen (now : ℚ) (b : TransportCircuitBreaker) : Bool × TransportCircuitBreaker :=
  if b.state = .opened then
    if now - b.lastFailureTime > b.recoveryTimeout then (false, b.transitionTo .halfOpen)
    else (true, b)
  else (false, b)

/-- `check_circuit`; lines 1073-1124. `draw` in `[0, 1]` is the random number
behind `uniform`. -/
def checkCircuit (cfg : CircuitConfig) (now draw : ℚ) (b : TransportCircuitBreaker) :
    CircuitDecision × TransportCircuitBreaker :=
  match b.state with
  | .opened =>
    if now - b.lastFailureTime > b.recoveryTimeout then
      (⟨true, b.domain, "half_open", 0, "transport_circuit_half_open_recovery"⟩,
        b.transitionTo .halfOpen)
    else
      let lo := cfg.jitterMinMultiplier * b.recoveryTimeout
      let hi := cfg.jitterMaxMultiplier * b.recoveryTimeout
      let jitter := if b.recoveryTimeout > 0 then lo + (hi - lo) * draw else 0
      (⟨false, b.domain, "open", jitter, "transport_circuit_open_overload"⟩, b)
  | .halfOpen =>
    if b.halfOpenProbes ≥ cfg.circuitHalfOpenProbes then
      (⟨false, b.domain, "closed", 0, "transport_circuit_half_open_max_probes"⟩,
        b.transitionTo .closed)
    else
      (⟨true, b.domain, "half_open", 0, "transport_circuit_half_open_probe"⟩,
        { b with halfOpenProbes := b.halfOpenProbes + 1 })
  | .closed => (⟨true, b.domain, "closed", 0, "transport_circuit_closed"⟩, b)

/-- `record_success`; lines 1126-1130. -/
def recordSuccess (b : TransportCircuitBreaker) : TransportCircuitBreaker :=
  if b.state = .halfOpen ∨ b.state = .closed then b.transitionTo .closed else b

/-- `record_failure`; lines 1132-1138. The flag `is_timeout` is not read. -/
def recordFailure (now : ℚ) (_isTimeout : Bool) (b : TransportCircuitBreaker) :
    TransportCircuitBreaker :=
  let b := { b with lastFailureTime := now, failureCount := b.failureCount + 1 }
  if (b.failureCount : ℤ) ≥ b.failureThreshold then b.transitionTo .opened else b

/-- The calls a caller can make, each with its clock reading and its random draw. -/
inductive Op where
  | isOpen (now : ℚ)
  | checkCircuit (now draw : ℚ)
  | recordSuccess
  | recordFailure (now : ℚ) (isTimeout : Bool)
  deriving DecidableEq

/-- What a call returns. -/
inductive Answer where
  | blocked (b : Bool)
  | decision (d : CircuitDecision)
  | none
  deriving DecidableEq

/-- One call: its answer and the breaker it leaves. -/
def respond (cfg : CircuitConfig) (b : TransportCircuitBreaker) :
    Op → Answer × TransportCircuitBreaker
  | .isOpen now => (.blocked (b.isOpen now).1, (b.isOpen now).2)
  | .checkCircuit now draw =>
    (.decision (b.checkCircuit cfg now draw).1, (b.checkCircuit cfg now draw).2)
  | .recordSuccess => (.none, b.recordSuccess)
  | .recordFailure now isTimeout => (.none, b.recordFailure now isTimeout)

/-- The breaker after one call. -/
def step (cfg : CircuitConfig) (b : TransportCircuitBreaker) (op : Op) :
    TransportCircuitBreaker :=
  (b.respond cfg op).2

/-- The breaker after a run of calls. -/
abbrev run (cfg : CircuitConfig) (b : TransportCircuitBreaker) (ops : List Op) :
    TransportCircuitBreaker :=
  ops.foldl (step cfg) b

/-- The answers of a run of calls. -/
def answers (cfg : CircuitConfig) (b : TransportCircuitBreaker) : List Op → List Answer
  | [] => []
  | op :: rest => (b.respond cfg op).1 :: answers cfg (b.step cfg op) rest

/-- For every continuation, `b` answers what the fresh breaker `c` answers and signals what it
signals. -/
def BehavesLike (cfg : CircuitConfig) (b c : TransportCircuitBreaker) : Prop :=
  ∀ ops, b.answers cfg ops = c.answers cfg ops ∧
    (b.run cfg ops).signals = b.signals ++ (c.run cfg ops).signals

/-- A call of `record_failure`. -/
def IsFailure : Op → Bool
  | .recordFailure _ _ => true
  | _ => false

/-- Each transition from CLOSED to OPEN comes after at least `failure_threshold` failures with no
success between them. -/
def TripsOnConsecutiveFailures (cfg : CircuitConfig) (b : TransportCircuitBreaker)
    (ops : List Op) : Prop :=
  ∀ pre op, pre ++ [op] <+: ops → (b.run cfg pre).state = .closed →
    (b.run cfg (pre ++ [op])).state = .opened →
    ∃ before since, pre ++ [op] = before ++ since ∧ Op.recordSuccess ∉ since ∧
      b.failureThreshold ≤ since.countP IsFailure

/-- After a success that leaves it CLOSED the breaker behaves like the one the run started
from. -/
def SuccessResets (cfg : CircuitConfig) (b : TransportCircuitBreaker) (ops : List Op) : Prop :=
  ∀ pre, pre ++ [Op.recordSuccess] <+: ops →
    (b.run cfg (pre ++ [.recordSuccess])).state = .closed →
    BehavesLike cfg (b.run cfg (pre ++ [.recordSuccess])) b

/-- A success finds failures on the count, and one failure alone would not trip. -/
def LeavesFailures (b : TransportCircuitBreaker) (op : Op) : Prop :=
  op = .recordSuccess ∧ b.failureCount ≠ 0 ∧ 1 < b.failureThreshold

instance (b : TransportCircuitBreaker) (op : Op) : Decidable (LeavesFailures b op) :=
  inferInstanceAs (Decidable (_ ∧ _ ∧ _))

/-! ### One call -/

theorem recordFailure_of_lt (now : ℚ) (t : Bool) (b : TransportCircuitBreaker)
    (h : (b.failureCount : ℤ) + 1 < b.failureThreshold) :
    b.recordFailure now t =
      { b with lastFailureTime := now, failureCount := b.failureCount + 1 } := by
  unfold recordFailure
  rw [if_neg]
  push_cast
  omega

theorem recordFailure_of_ge (now : ℚ) (t : Bool) (b : TransportCircuitBreaker)
    (h : b.failureThreshold ≤ (b.failureCount : ℤ) + 1) :
    b.recordFailure now t =
      { b with lastFailureTime := now, failureCount := b.failureCount + 1 }.transitionTo
        .opened := by
  unfold recordFailure
  rw [if_pos]
  push_cast
  omega

theorem step_cases (cfg : CircuitConfig) (b : TransportCircuitBreaker) (op : Op) :
    (¬ IsFailure op ∧ (b.step cfg op).failureCount = b.failureCount ∧
      ((b.step cfg op).state = .opened → b.state = .opened)) ∨
    (∃ now t, op = .recordFailure now t ∧
      (b.step cfg op).failureCount = b.failureCount + 1 ∧
      ((b.step cfg op).state = .opened →
        b.state = .opened ∨ b.failureThreshold ≤ (b.failureCount : ℤ) + 1)) := by
  cases op with
  | isOpen now =>
    left
    simp only [step, respond, isOpen]
    split_ifs with ho _
    · simp [IsFailure, transitionTo]
    · simp [IsFailure]
    · simp [IsFailure]
  | checkCircuit now draw =>
    left
    simp only [step, respond, checkCircuit]
    split
    · split <;> simp_all [IsFailure, transitionTo]
    · split <;> simp_all [IsFailure, transitionTo]
    · simp [IsFailure]
  | recordSuccess =>
    left
    simp only [step, respond, recordSuccess]
    split <;> simp [IsFailure, transitionTo]
  | recordFailure now t =>
    right
    refine ⟨now, t, rfl, ?_⟩
    by_cases h : b.failureThreshold ≤ (b.failureCount : ℤ) + 1
    · simp only [step, respond, recordFailure_of_ge now t b h]
      exact ⟨rfl, fun _ => .inr h⟩
    · simp only [step, respond, recordFailure_of_lt now t b (by omega)]
      exact ⟨trivial, fun ho => .inl ho⟩

/-- What the constructor was given; no call writes it. -/
def settings (b : TransportCircuitBreaker) : String × ℤ × ℚ :=
  (b.transport, b.failureThreshold, b.recoveryTimeout)

variable (cfg) in
theorem settings_step (b : TransportCircuitBreaker) (op : Op) :
    (b.step cfg op).settings = b.settings := by
  cases op with
  | isOpen now =>
    simp only [step, respond, isOpen]
    split_ifs <;> rfl
  | checkCircuit now draw =>
    simp only [step, respond, checkCircuit]
    split
    · split <;> rfl
    · split <;> rfl
    · rfl
  | recordSuccess =>
    simp only [step, respond, recordSuccess]
    split <;> rfl
  | recordFailure now t =>
    simp only [step, respond, recordFailure]
    split <;> rfl

theorem settings_run (b : TransportCircuitBreaker) (ops : List Op) :
    (b.run cfg ops).settings = b.settings :=
  foldl_invariant (I := fun c => c.settings = b.settings)
    (fun c op h => (settings_step cfg c op).trans h) ops rfl

@[simp] theorem failureThreshold_run (b : TransportCircuitBreaker) (ops : List Op) :
    (b.run cfg ops).failureThreshold = b.failureThreshold :=
  congrArg (·.2.1) (settings_run b ops)

theorem run_concat (b : TransportCircuitBreaker) (pre : List Op) (op : Op) :
    b.run cfg (pre ++ [op]) = (b.run cfg pre).step cfg op := by
  simp [run, List.foldl_append]

/-! ### Two breakers that no caller can tell apart -/

/-- `b` and `c` differ at most in fields that the state they are in does not read. With a threshold
of one or less the failure count is such a field. -/
structure Agrees (b c : TransportCircuitBreaker) : Prop where
  transport : b.transport = c.transport
  failureThreshold : b.failureThreshold = c.failureThreshold
  recoveryTimeout : b.recoveryTimeout = c.recoveryTimeout
  state : b.state = c.state
  failureCount : b.failureCount = c.failureCount ∨ b.failureThreshold ≤ 1
  lastFailureTime : b.state ≠ .closed → b.lastFailureTime = c.lastFailureTime
  halfOpenProbes : b.state = .halfOpen → b.halfOpenProbes = c.halfOpenProbes

theorem Agrees.transitionTo {b c : TransportCircuitBreaker} (h : Agrees b c) (s : CBState)
    (ht : s ≠ .closed → b.lastFailureTime = c.lastFailureTime)
    (hp : s = .halfOpen → b.state = .opened) :
    Agrees (b.transitionTo s) (c.transitionTo s) where
  transport := h.transport
  failureThreshold := h.failureThreshold
  recoveryTimeout := h.recoveryTimeout
  state := rfl
  failureCount := h.failureCount
  lastFailureTime := ht
  halfOpenProbes := by
    intro hs
    have hb := hp hs
    have hc := h.state ▸ hb
    change (if _ then _ else _) = (if _ then _ else _)
    rw [if_pos ⟨hb, hs⟩, if_pos ⟨hc, hs⟩]

/-- The signals of both breakers grow by the same list. -/
def SignalAlike (b c b' c' : TransportCircuitBreaker) : Prop :=
  ∃ new, b'.signals = b.signals ++ new ∧ c'.signals = c.signals ++ new

theorem signalAlike_refl (b c : TransportCircuitBreaker) : SignalAlike b c b c :=
  ⟨[], by simp, by simp⟩

theorem Agrees.signalAlike_transitionTo {b c : TransportCircuitBreaker} (h : Agrees b c)
    (s : CBState) : SignalAlike b c (b.transitionTo s) (c.transitionTo s) := by
  refine ⟨transitionSignals b.domain b.state s, rfl, ?_⟩
  simp only [TransportCircuitBreaker.transitionTo, domain, h.transport, h.state]

variable (cfg) in
/-- One call keeps two such breakers alike, and they answer and signal the same. -/
theorem Agrees.respond {b c : TransportCircuitBreaker} (h : Agrees b c) (op : Op) :
    (b.respond cfg op).1 = (c.respond cfg op).1 ∧
      Agrees (b.step cfg op) (c.step cfg op) ∧
      SignalAlike b c (b.step cfg op) (c.step cfg op) := by
  have hdom : b.domain = c.domain := by simp [domain, h.transport]
  cases op with
  | isOpen now =>
    simp only [TransportCircuitBreaker.respond, step, isOpen, ← h.state]
    by_cases ho : b.state = .opened
    · have ht := h.lastFailureTime (by simp [ho])
      rw [if_pos ho, if_pos ho, ← ht, ← h.recoveryTimeout]
      split
      · exact ⟨rfl, h.transitionTo _ (fun _ => ht) (fun _ => ho), h.signalAlike_transitionTo _⟩
      · exact ⟨rfl, h, signalAlike_refl b c⟩
    · rw [if_neg ho, if_neg ho]
      exact ⟨rfl, h, signalAlike_refl b c⟩
  | checkCircuit now draw =>
    simp only [TransportCircuitBreaker.respond, step, checkCircuit, ← h.state, ← hdom]
    cases hs : b.state with
    | opened =>
      have ht := h.lastFailureTime (by simp [hs])
      simp only [← ht, ← h.recoveryTimeout]
      split
      · exact ⟨rfl, h.transitionTo _ (fun _ => ht) (fun _ => hs), h.signalAlike_transitionTo _⟩
      · exact ⟨rfl, h, signalAlike_refl b c⟩
    | halfOpen =>
      have ht := h.lastFailureTime (by simp [hs])
      have hp := h.halfOpenProbes hs
      simp only [← hp]
      split
      · refine ⟨rfl, h.transitionTo _ (fun _ => ht) ?_, h.signalAlike_transitionTo _⟩
        exact fun hc => absurd hc (by decide)
      · refine ⟨rfl, ⟨h.transport, h.failureThreshold, h.recoveryTimeout, rfl,
          h.failureCount, fun _ => ht, fun _ => rfl⟩, ?_⟩
        exact ⟨[], by simp, by simp⟩
    | closed => exact ⟨rfl, h, signalAlike_refl b c⟩
  | recordSuccess =>
    simp only [TransportCircuitBreaker.respond, step, recordSuccess, ← h.state]
    split
    · refine ⟨trivial, h.transitionTo _ (fun hc => absurd rfl hc) ?_,
        h.signalAlike_transitionTo _⟩
      exact fun hc => absurd hc (by decide)
    · exact ⟨trivial, h, signalAlike_refl b c⟩
  | recordFailure now t =>
    -- both write the time of the failure, so an OPEN state entered here reads the same time
    have hf : Agrees { b with lastFailureTime := now, failureCount := b.failureCount + 1 }
        { c with lastFailureTime := now, failureCount := c.failureCount + 1 } :=
      ⟨h.transport, h.failureThreshold, h.recoveryTimeout, h.state,
        h.failureCount.imp_left (congrArg (· + 1)), fun _ => rfl, h.halfOpenProbes⟩
    have hge : (b.failureThreshold ≤ (b.failureCount : ℤ) + 1) ↔
        (c.failureThreshold ≤ (c.failureCount : ℤ) + 1) := by
      rw [← h.failureThreshold]
      rcases h.failureCount with hn | hn
      · rw [hn]
      · omega
    by_cases hb : b.failureThreshold ≤ (b.failureCount : ℤ) + 1
    · simp only [TransportCircuitBreaker.respond, step, recordFailure_of_ge now t b hb,
        recordFailure_of_ge now t c (hge.1 hb)]
      refine ⟨trivial, hf.transitionTo _ (fun _ => rfl) ?_, hf.signalAlike_transitionTo _⟩
      exact fun hc => absurd hc (by decide)
    · have hc := mt hge.2 hb
      simp only [TransportCircuitBreaker.respond, step, recordFailure_of_lt now t b (by omega),
        recordFailure_of_lt now t c (by omega)]
      exact ⟨trivial, hf, [], by simp, by simp⟩

variable (cfg) in
theorem Agrees.continue {b c : TransportCircuitBreaker} (h : Agrees b c) (ops : List Op) :
    b.answers cfg ops = c.answers cfg ops ∧
      SignalAlike b c (b.run cfg ops) (c.run cfg ops) := by
  induction ops generalizing b c with
  | nil => exact ⟨rfl, signalAlike_refl b c⟩
  | cons op rest ih =>
    obtain ⟨ha, hs, new, hb, hc⟩ := h.respond cfg op
    obtain ⟨har, more, hbr, hcr⟩ := ih hs
    constructor
    · simp only [answers, ha, har]
    · refine ⟨new ++ more, ?_, ?_⟩
      · rw [run, List.foldl_cons, hbr, hb, List.append_assoc]
      · rw [run, List.foldl_cons, hcr, hc, List.append_assoc]

theorem Agrees.behavesLike {b c : TransportCircuitBreaker} (h : Agrees b c)
    (hc : c.signals = []) : BehavesLike cfg b c := by
  intro ops
  obtain ⟨ha, new, hb, hn⟩ := h.continue cfg ops
  refine ⟨ha, ?_⟩
  rw [hb, hn, hc, List.nil_append]

/-! ### Telling a breaker from a fresh one -/

variable (cfg) in
theorem run_replicate_recordFailure (b : TransportCircuitBreaker) (k : Nat)
    (h : (b.failureCount : ℤ) + k < b.failureThreshold) :
    (b.run cfg (List.replicate k (.recordFailure 0 false))).state = b.state ∧
      (b.run cfg (List.replicate k (.recordFailure 0 false))).signals = b.signals ∧
      (b.run cfg (List.replicate k (.recordFailure 0 false))).failureCount =
        b.failureCount + k := by
  induction k generalizing b with
  | zero => exact ⟨rfl, rfl, rfl⟩
  | succ k ih =>
    have hstep : b.step cfg (.recordFailure 0 false) =
        { b with lastFailureTime := 0, failureCount := b.failureCount + 1 } :=
      recordFailure_of_lt 0 false b (by omega)
    simp only [run, List.replicate_succ, List.foldl_cons, hstep]
    obtain ⟨h1, h2, h3⟩ := ih { b with lastFailureTime := 0, failureCount := b.failureCount + 1 }
      (by push_cast; push_cast at h; omega)
    exact ⟨h1, h2, h3.trans (Nat.add_right_comm _ 1 k)⟩

theorem not_behavesLike_of_failureCount {b c : TransportCircuitBreaker}
    (hb : b.state = .closed) (hn : b.failureCount ≠ 0) (ht : 1 < b.failureThreshold)
    (hc : c.signals = []) (hc0 : c.failureCount = 0)
    (hct : c.failureThreshold = b.failureThreshold) : ¬ BehavesLike cfg b c := by
  intro h
  -- as many failures as `b` takes without tripping, and one more
  let k := (b.failureThreshold - b.failureCount - 1).toNat
  have hck : (c.failureCount : ℤ) + ((k + 1 : Nat) : ℤ) < c.failureThreshold := by
    rw [hc0, hct]
    push_cast
    omega
  have hsig := (h (List.replicate (k + 1) (.recordFailure 0 false))).2
  rw [(run_replicate_recordFailure cfg c (k + 1) hck).2.1, hc, List.append_nil,
    List.replicate_succ'] at hsig
  rw [run_concat] at hsig
  by_cases hlt : (b.failureCount : ℤ) + k < b.failureThreshold
  · obtain ⟨h1, h2, h3⟩ := run_replicate_recordFailure cfg b k hlt
    simp only [step, respond] at hsig
    rw [recordFailure_of_ge _ _ _ (by rw [failureThreshold_run, h3]; push_cast; omega)] at hsig
    simp [transitionTo, h1, h2, hb, transitionSignals] at hsig
  · have hk : k = 0 := by omega
    rw [hk] at hsig
    simp only [List.replicate_zero, List.foldl_nil, run, step, respond] at hsig
    rw [recordFailure_of_ge _ _ _ (by omega)] at hsig
    simp [transitionTo, hb, transitionSignals] at hsig

/-! ### Runs -/

theorem failureCount_le_countP {b : TransportCircuitBreaker} (h0 : b.failureCount = 0)
    {ops : List Op} (h : StepsMeet (step cfg) (fun b op => ¬ LeavesFailures b op) b ops) :
    ∃ before since, ops = before ++ since ∧ Op.recordSuccess ∉ since ∧
      ((b.run cfg ops).failureCount ≤ since.countP IsFailure ∨ b.failureThreshold ≤ 1) := by
  induction ops using List.reverseRecOn with
  | nil => exact ⟨[], [], rfl, List.not_mem_nil, .inl (by simp [h0])⟩
  | append_singleton ops op ih =>
    obtain ⟨hops, hop⟩ := stepsMeet_concat.1 h
    obtain ⟨before, since, heq, hs, hle⟩ := ih hops
    rcases step_cases cfg (b.run cfg ops) op with ⟨hf, hc, _⟩ | ⟨now, t, rfl, hc, _⟩
    · by_cases hsucc : op = .recordSuccess
      · refine ⟨ops ++ [op], [], by simp, List.not_mem_nil, ?_⟩
        rw [run_concat, hc]
        simp only [LeavesFailures, not_and, not_lt, failureThreshold_run] at hop
        by_cases hz : (b.run cfg ops).failureCount = 0
        · exact .inl (by simp [hz])
        · exact .inr (hop hsucc hz)
      · refine ⟨before, since ++ [op], by simp [heq], ?_, ?_⟩
        · simp [hs, Ne.symm hsucc]
        · rw [run_concat, hc, List.countP_append]
          exact hle.imp_left fun hn => hn.trans (Nat.le_add_right _ _)
    · refine ⟨before, since ++ [.recordFailure now t], by simp [heq], by simp [hs], ?_⟩
      rw [run_concat, hc, List.countP_append]
      exact hle.imp_left fun hn => by simpa [IsFailure] using hn

theorem tripsOnConsecutiveFailures_of_stepsMeet {b : TransportCircuitBreaker}
    (h0 : b.failureCount = 0) {ops : List Op}
    (h : StepsMeet (step cfg) (fun b op => ¬ LeavesFailures b op) b ops) :
    TripsOnConsecutiveFailures cfg b ops := by
  rintro pre op ⟨rest, rfl⟩ hcl hop
  have hpre := (stepsMeet_append.1 (stepsMeet_append.1 h).1).1
  obtain ⟨before, since, rfl, hs, hle⟩ := failureCount_le_countP h0 hpre
  rw [run_concat] at hop
  rcases step_cases cfg (b.run cfg (before ++ since)) op with ⟨_, _, ho⟩ | ⟨now, t, rfl, _, ho⟩
  · exact absurd (hcl.symm.trans (ho hop)) (by decide)
  · refine ⟨before, since ++ [.recordFailure now t], by simp, by simp [hs], ?_⟩
    have hth := (ho hop).resolve_left (by rw [hcl]; decide)
    rw [failureThreshold_run] at hth
    rw [List.countP_append]
    simp only [List.countP_singleton, IsFailure, if_true]
    push_cast
    omega

theorem behavesLike_recordSuccess_iff {b c : TransportCircuitBreaker}
    (hset : b.settings = c.settings) (hc : c.state = .closed) (hc0 : c.failureCount = 0)
    (hcs : c.signals = []) (hcl : (b.step cfg .recordSuccess).state = .closed) :
    BehavesLike cfg (b.step cfg .recordSuccess) c ↔ ¬ LeavesFailures b .recordSuccess := by
  have hf : (b.step cfg .recordSuccess).failureCount = b.failureCount := by
    simp only [step, respond, recordSuccess]
    split <;> rfl
  have hset' := (settings_step cfg b .recordSuccess).trans hset
  have hth : (b.step cfg .recordSuccess).failureThreshold = b.failureThreshold :=
    congrArg (·.2.1) (settings_step cfg b .recordSuccess)
  constructor
  · rintro hb ⟨_, hn, ht⟩
    apply not_behavesLike_of_failureCount hcl _ _ hcs hc0 _ hb
    · rwa [hf]
    · rwa [hth]
    · exact (congrArg (·.2.1) hset').symm
  · intro hl
    apply Agrees.behavesLike _ hcs
    refine ⟨congrArg (·.1) hset', congrArg (·.2.1) hset', congrArg (·.2.2) hset',
      hcl.trans hc.symm, ?_, fun hn => absurd hcl hn, fun hh => ?_⟩
    · rw [hf, hc0, hth]
      simp only [LeavesFailures, true_and, not_and, not_lt] at hl
      by_cases hz : b.failureCount = 0
      · exact .inl hz
      · exact .inr (hl hz)
    · exact absurd (hcl.symm.trans hh) (by decide)

/-- A run in which no success finds failures on the count, under a threshold above one, trips only
on consecutive failures, and its successes reset. Conversely every success that resets meets this,
in any run. -/
theorem tripsOnConsecutiveFailures_and_successResets (cfg : CircuitConfig) (transport : String)
    (htr : transport = "tor" ∨ transport = "i2p") (failureThreshold : ℤ) (recoveryTimeout : ℚ)
    (ops : List Op) :
    (StepsMeet (step cfg) (fun b op => ¬ LeavesFailures b op)
        (fresh transport htr failureThreshold recoveryTimeout) ops →
      TripsOnConsecutiveFailures cfg (fresh transport htr failureThreshold recoveryTimeout) ops ∧
      SuccessResets cfg (fresh transport htr failureThreshold recoveryTimeout) ops) ∧
    (SuccessResets cfg (fresh transport htr failureThreshold recoveryTimeout) ops →
      StepsMeet (step cfg)
        (fun b op => b.state ≠ .opened → ¬ LeavesFailures b op)
        (fresh transport htr failureThreshold recoveryTimeout) ops) := by
  set b := fresh transport htr failureThreshold recoveryTimeout with hb
  have hiff : ∀ pre, (b.run cfg (pre ++ [.recordSuccess])).state = .closed →
      (BehavesLike cfg (b.run cfg (pre ++ [.recordSuccess])) b ↔
        ¬ LeavesFailures (b.run cfg pre) .recordSuccess) := by
    intro pre hcl
    rw [run_concat] at hcl ⊢
    exact behavesLike_recordSuccess_iff (settings_run b pre) rfl rfl rfl hcl
  constructor
  · intro h
    refine ⟨tripsOnConsecutiveFailures_of_stepsMeet rfl h, ?_⟩
    intro pre hp hcl
    exact (hiff pre hcl).2 (stepsMeet_iff_forall_concat.1 h pre _ hp)
  · intro h
    rw [stepsMeet_iff_forall_concat]
    intro pre op hp ho hl
    obtain rfl : op = .recordSuccess := hl.1
    have hcl : (b.run cfg (pre ++ [.recordSuccess])).state = .closed := by
      rw [run_concat]
      simp only [step, respond, recordSuccess]
      rw [if_pos]
      · rfl
      · cases hs : (b.run cfg pre).state with
        | opened => exact absurd hs ho
        | halfOpen => exact .inl rfl
        | closed => exact .inr rfl
    exact (hiff pre hcl).1 (h pre hp hcl) hl

/-- A success before the first failure, then three failures trip a breaker with threshold three. -/
theorem tripsOnConsecutiveFailures_three :
    ("tor" = "tor" ∨ "tor" = "i2p") ∧
      TripsOnConsecutiveFailures .default (fresh "tor" (.inl rfl) 3 60)
        [.recordSuccess, .recordFailure 1 false, .recordFailure 2 true, .recordFailure 3 false] :=
  ⟨.inl rfl, ((tripsOnConsecutiveFailures_and_successResets .default "tor" (.inl rfl) 3 60 _).1
    (by decide +kernel)).1⟩

/-- Two failures, a success and a third failure trip a breaker with threshold three. -/
theorem not_tripsOnConsecutiveFailures_two_and_one :
    ¬ (TripsOnConsecutiveFailures .default (fresh "tor" (.inl rfl) 3 60)
        [.recordFailure 1 false, .recordFailure 2 false, .recordSuccess, .recordFailure 3 false] ∧
      SuccessResets .default (fresh "tor" (.inl rfl) 3 60)
        [.recordFailure 1 false, .recordFailure 2 false, .recordSuccess,
          .recordFailure 3 false]) := by
  rintro ⟨h, _⟩
  obtain ⟨before, since, heq, hs, hle⟩ :=
    h [.recordFailure 1 false, .recordFailure 2 false, .recordSuccess] (.recordFailure 3 false)
      (List.prefix_refl _) (by decide +kernel) (by decide +kernel)
  -- without the success, what remains of the run is its last failure
  have hlen : since.length ≤ 1 := by
    by_contra hlt
    apply hs
    have hsuf : since <:+ [.recordFailure 1 false, .recordFailure 2 false, .recordSuccess,
        .recordFailure 3 false] := ⟨before, heq.symm⟩
    have htwo : [Op.recordSuccess, .recordFailure 3 false] <:+ since :=
      List.suffix_of_suffix_length_le ⟨[.recordFailure 1 false, .recordFailure 2 false], rfl⟩ hsuf
        (by simp only [List.length_cons, List.length_nil]; omega)
    exact htwo.subset List.mem_cons_self
  have hcount := List.countP_le_length (p := IsFailure) (l := since)
  simp only [fresh] at hle
  omega

end TransportCircuitBreaker

end Hledac.Transport
