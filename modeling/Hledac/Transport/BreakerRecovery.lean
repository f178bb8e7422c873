import Hledac.Transport.CircuitBreaker

/-!
# How an open breaker closes again

Two results about whole runs of the Python breaker. A CLOSED breaker has fewer counted
failures than its threshold exactly as long as no probe count closed it, because only
`record_success` clears the counters. And an OPEN breaker closes on recorded recoveries
only as long as `check_circuit` is not asked while the breaker is HALF_OPEN, because that
query counts its own admission as a probe.
-/

namespace Hledac.Transport.CircuitBreaker

open Hledac.Lib

variable {cfg : CircuitConfig}

/-! ### The transitions to CLOSED -/

/-- The operation takes the transition HALF_OPEN to CLOSED that is driven by the probe count. -/
def ClosesByProbes (cfg : CircuitConfig) (b : CircuitBreaker) : Op → Prop
  | .checkCircuit _ _ => b.state = .halfOpen ∧ cfg.circuitHalfOpenProbes ≤ b.halfOpenProbes
  | .halfOpenProbe _ => b.state = .halfOpen ∧ cfg.circuitHalfOpenProbes ≤ b.halfOpenProbes + 1
  | _ => False

instance (b : CircuitBreaker) : ∀ op, Decidable (ClosesByProbes cfg b op)
  | .checkCircuit _ _ => inferInstanceAs (Decidable (_ ∧ _))
  | .halfOpenProbe _ => inferInstanceAs (Decidable (_ ∧ _))
  | .isOpen _ => inferInstanceAs (Decidable False)
  | .recordSuccess _ => inferInstanceAs (Decidable False)
  | .recordFailure _ _ => inferInstanceAs (Decidable False)

/-- `check_circuit` is asked while the breaker is HALF_OPEN. -/
def ChecksHalfOpen (b : CircuitBreaker) : Op → Prop
  | .checkCircuit _ _ => b.state = .halfOpen
  | _ => False

instance (b : CircuitBreaker) : ∀ op, Decidable (ChecksHalfOpen b op)
  | .checkCircuit _ _ => inferInstanceAs (Decidable (_ = _))
  | .halfOpenProbe _ => inferInstanceAs (Decidable False)
  | .isOpen _ => inferInstanceAs (Decidable False)
  | .recordSuccess _ => inferInstanceAs (Decidable False)
  | .recordFailure _ _ => inferInstanceAs (Decidable False)

/-- A call of `half_open_probe`. -/
def IsProbe : Op → Prop
  | .halfOpenProbe _ => True
  | _ => False

instance : DecidablePred IsProbe
  | .halfOpenProbe _ => inferInstanceAs (Decidable True)
  | .checkCircuit _ _ => inferInstanceAs (Decidable False)
  | .isOpen _ => inferInstanceAs (Decidable False)
  | .recordSuccess _ => inferInstanceAs (Decidable False)
  | .recordFailure _ _ => inferInstanceAs (Decidable False)

/-- Everything one operation can do to the deciding fields, guards included. -/
theorem step_cases (cfg : CircuitConfig) (b : CircuitBreaker) (op : Op) :
    (¬ (IsProbe op ∧ b.state = .halfOpen) ∧ (step cfg b op).core = b.core) ∨
    (b.state = .opened ∧
      (step cfg b op).core = { b.core with state := .halfOpen, halfOpenProbes := 0 }) ∨
    (ClosesByProbes cfg b op ∧ ∃ p, (step cfg b op).core =
      { b.core with state := .closed, halfOpenProbes := p }) ∨
    (b.state = .halfOpen ∧ (ChecksHalfOpen b op ∨ IsProbe op) ∧
      (step cfg b op).core = { b.core with halfOpenProbes := b.halfOpenProbes + 1 }) ∨
    ((∃ now, op = .recordSuccess now) ∧ (step cfg b op).core =
      { b.core with state := .closed, failureCount := 0, halfOpenProbes := 0 }) ∨
    (∃ now f, op = .recordFailure now f ∧ ∃ n, b.failureCount ≤ n ∧ (step cfg b op).core =
      { b.core with
        failureCount := n
        state := if b.failureThreshold ≤ n then .opened else b.state }) := by
  cases op with
  | isOpen now =>
    rcases core_isOpen now b with h | ⟨ho, h⟩
    · exact .inl ⟨fun hp => hp.1, h⟩
    · exact .inr (.inl ⟨ho, h⟩)
  | checkCircuit now draw =>
    rcases core_checkCircuit cfg now draw b with h | ⟨ho, h⟩ | ⟨hh, h⟩
    · exact .inl ⟨fun hp => hp.1, h⟩
    · exact .inr (.inl ⟨ho, h⟩)
    · by_cases hp : cfg.circuitHalfOpenProbes ≤ b.halfOpenProbes
      · rw [if_pos hp] at h
        exact .inr (.inr (.inl ⟨⟨hh, hp⟩, _, h⟩))
      · rw [if_neg hp] at h
        exact .inr (.inr (.inr (.inl ⟨hh, .inl hh, h⟩)))
  | recordSuccess now =>
    exact .inr (.inr (.inr (.inr (.inl ⟨⟨now, rfl⟩, core_recordSuccess cfg now b⟩))))
  | recordFailure now f =>
    have h := core_recordFailure cfg now f b
    by_cases hw : f.isWarmup = true
    · rw [if_pos hw] at h
      exact .inl ⟨fun hp => hp.1, h⟩
    · rw [if_neg hw] at h
      exact .inr (.inr (.inr (.inr (.inr ⟨now, f, rfl, _, Nat.le_add_right _ _, h⟩))))
  | halfOpenProbe now =>
    have h := core_halfOpenProbe cfg now b
    by_cases hh : b.state = .halfOpen
    · rw [if_pos hh] at h
      by_cases hp : cfg.circuitHalfOpenProbes ≤ b.halfOpenProbes + 1
      · simp only [hp, ite_true] at h
        exact .inr (.inr (.inl ⟨⟨hh, hp⟩, _, h⟩))
      · simp only [hp, ite_false] at h
        refine .inr (.inr (.inr (.inl ⟨hh, .inr trivial, h.trans ?_⟩)))
        simp [core, hh]
    · rw [if_neg hh] at h
      exact .inl ⟨fun hp => hh hp.2, h⟩

theorem halfOpen_of_closesByProbes (b : CircuitBreaker) (op : Op)
    (hp : ClosesByProbes cfg b op) : b.state = .halfOpen := by
  cases op with
  | checkCircuit now draw => exact hp.1
  | halfOpenProbe now => exact hp.1
  | isOpen now => exact hp.elim
  | recordSuccess now => exact hp.elim
  | recordFailure now f => exact hp.elim

theorem closed_of_closesByProbes (cfg : CircuitConfig) (b : CircuitBreaker) (op : Op)
    (hp : ClosesByProbes cfg b op) :
    (step cfg b op).state = .closed ∧ (step cfg b op).failureCount = b.failureCount := by
  have hh := halfOpen_of_closesByProbes b op hp
  cases op with
  | checkCircuit now draw =>
    rcases core_checkCircuit cfg now draw b with hc | ⟨ho, _⟩ | ⟨_, hc⟩
    · simp [step, checkCircuit, hh, hp.2, closeByProbes, emitTransportEvent]
    · simp [hh] at ho
    · rw [if_pos hp.2] at hc
      exact ⟨congrArg Core.state hc, congrArg Core.failureCount hc⟩
  | halfOpenProbe now =>
    have hc := core_halfOpenProbe cfg now b
    rw [if_pos hh, if_pos hp.2] at hc
    exact ⟨congrArg Core.state hc, congrArg Core.failureCount hc⟩
  | isOpen now => exact hp.elim
  | recordSuccess now => exact hp.elim
  | recordFailure now f => exact hp.elim

@[simp] theorem failureThreshold_step (b : CircuitBreaker) (op : Op) :
    (step cfg b op).failureThreshold = b.failureThreshold := by
  rcases step_cases cfg b op with
    ⟨_, h⟩ | ⟨_, h⟩ | ⟨_, _, h⟩ | ⟨_, _, h⟩ | ⟨_, h⟩ | ⟨_, _, _, _, _, h⟩
  · exact congrArg Core.failureThreshold h
  · exact congrArg Core.failureThreshold h
  · exact congrArg Core.failureThreshold h
  · exact congrArg Core.failureThreshold h
  · exact congrArg Core.failureThreshold h
  · exact congrArg Core.failureThreshold h

@[simp] theorem failureThreshold_run (b : CircuitBreaker) (ops : List Op) :
    (run cfg b ops).failureThreshold = b.failureThreshold :=
  foldl_invariant (I := fun c => c.failureThreshold = b.failureThreshold)
    (fun c op h => (failureThreshold_step c op).trans h) ops rfl

theorem closes_cases (b : CircuitBreaker) (op : Op) (hb : b.state ≠ .closed)
    (h : (step cfg b op).state = .closed) :
    ClosesByProbes cfg b op ∨ ∃ now, op = .recordSuccess now := by
  rcases step_cases cfg b op with
    ⟨_, hc⟩ | ⟨_, hc⟩ | ⟨hp, _⟩ | ⟨_, _, hc⟩ | ⟨hs, _⟩ | ⟨_, _, _, n, _, hc⟩
  · exact absurd ((congrArg Core.state hc).symm.trans h) hb
  · cases (congrArg Core.state hc).symm.trans h
  · exact .inl hp
  · exact absurd ((congrArg Core.state hc).symm.trans h) hb
  · exact .inr hs
  · have hs := (congrArg Core.state hc).symm.trans h
    by_cases hn : b.failureThreshold ≤ n
    · simp [hn] at hs
    · simp only [hn, ite_false] at hs
      exact absurd hs hb

/-! ### The counters while CLOSED -/

/-- A breaker that is not CLOSED stands at its threshold; no operation but a recorded success
takes a counted failure back. -/
def Tripped (b : CircuitBreaker) : Prop :=
  b.state ≠ .closed → b.failureThreshold ≤ b.failureCount

theorem tripped_step (b : CircuitBreaker) (op : Op) (h : Tripped b) :
    Tripped (step cfg b op) := by
  intro hs
  rw [failureThreshold_step]
  rcases step_cases cfg b op with
    ⟨_, hc⟩ | ⟨ho, hc⟩ | ⟨_, _, hc⟩ | ⟨hh, _, hc⟩ | ⟨_, hc⟩ | ⟨_, _, _, n, hn, hc⟩
  · have hf : (step cfg b op).failureCount = b.failureCount := congrArg Core.failureCount hc
    have hst : (step cfg b op).state = b.state := congrArg Core.state hc
    rw [hf]
    exact h (hst ▸ hs)
  · have hf : (step cfg b op).failureCount = b.failureCount := congrArg Core.failureCount hc
    rw [hf]
    exact h (by simp [ho])
  · exact absurd (congrArg Core.state hc) hs
  · have hf : (step cfg b op).failureCount = b.failureCount := congrArg Core.failureCount hc
    rw [hf]
    exact h (by simp [hh])
  · exact absurd (congrArg Core.state hc) hs
  · have hf : (step cfg b op).failureCount = n := congrArg Core.failureCount hc
    have hst : (step cfg b op).state = if b.failureThreshold ≤ n then .opened else b.state :=
      congrArg Core.state hc
    rw [hf]
    by_cases ht : b.failureThreshold ≤ n
    · exact ht
    · rw [if_neg ht] at hst
      exact (h (hst ▸ hs)).trans hn

theorem tripped_run (b : CircuitBreaker) (ops : List Op) (h : Tripped b) :
    Tripped (run cfg b ops) :=
  foldl_invariant (fun c op => tripped_step c op) ops h

/-- A CLOSED breaker is below its threshold. -/
def BelowThreshold (b : CircuitBreaker) : Prop :=
  b.state = .closed → b.failureCount < b.failureThreshold

theorem belowThreshold_step (b : CircuitBreaker) (op : Op) (ht : 1 ≤ b.failureThreshold)
    (h : BelowThreshold b) (hp : ¬ ClosesByProbes cfg b op) :
    BelowThreshold (step cfg b op) := by
  intro hs
  rw [failureThreshold_step]
  rcases step_cases cfg b op with
    ⟨_, hc⟩ | ⟨_, hc⟩ | ⟨hcp, _⟩ | ⟨hh, _, hc⟩ | ⟨_, hc⟩ | ⟨_, _, _, n, _, hc⟩
  · have hf : (step cfg b op).failureCount = b.failureCount := congrArg Core.failureCount hc
    rw [hf]
    exact h ((congrArg Core.state hc).symm.trans hs)
  · cases (congrArg Core.state hc).symm.trans hs
  · exact absurd hcp hp
  · have := (congrArg Core.state hc).symm.trans hs
    simp [core, hh] at this
  · have hf : (step cfg b op).failureCount = 0 := congrArg Core.failureCount hc
    rw [hf]
    exact ht
  · have hf : (step cfg b op).failureCount = n := congrArg Core.failureCount hc
    have hst := (congrArg Core.state hc).symm.trans hs
    rw [hf]
    by_cases hn : b.failureThreshold ≤ n
    · simp [hn] at hst
    · omega

theorem not_belowThreshold_of_closesByProbes (b : CircuitBreaker) (op : Op) (h : Tripped b)
    (hp : ClosesByProbes cfg b op) : ¬ BelowThreshold (step cfg b op) := by
  intro hlt
  obtain ⟨hs, hf⟩ := closed_of_closesByProbes cfg b op hp
  have hb := h (by simp [halfOpen_of_closesByProbes b op hp])
  have := hlt hs
  rw [failureThreshold_step, hf] at this
  omega

/-- Along the run, CLOSED means below the threshold, and a breaker that has just become CLOSED,
with a threshold of at least two, stays so after any one failure. -/
def ResetOnClose (cfg : CircuitConfig) (b : CircuitBreaker) (ops : List Op) : Prop :=
  (∀ pre, pre <+: ops → BelowThreshold (run cfg b pre)) ∧
  ∀ pre op, pre ++ [op] <+: ops → (run cfg b pre).state ≠ .closed →
    (run cfg b (pre ++ [op])).state = .closed → 2 ≤ b.failureThreshold →
    ∀ now f, ((run cfg b (pre ++ [op])).recordFailure cfg now f).state = .closed

private theorem run_concat (b : CircuitBreaker) (pre : List Op) (op : Op) :
    run cfg b (pre ++ [op]) = step cfg (run cfg b pre) op := by
  simp [run, List.foldl_append]

private theorem belowThreshold_run {b : CircuitBreaker} {ops : List Op}
    (ht : 1 ≤ b.failureThreshold) (hb : BelowThreshold b)
    (h : StepsMeet (step cfg) (fun b op => ¬ ClosesByProbes cfg b op) b ops) :
    BelowThreshold (run cfg b ops) := by
  have hinv := h.invariant (I := fun c => 1 ≤ c.failureThreshold ∧ BelowThreshold c)
    (fun c op hc hp => ⟨by rw [failureThreshold_step]; exact hc.1,
      belowThreshold_step c op hc.1 hc.2 hp⟩) ⟨ht, hb⟩
  exact hinv.2

private theorem closed_recordFailure_recordSuccess (b : CircuitBreaker) (now now' : ℚ)
    (f : Failure) (h2 : 2 ≤ b.failureThreshold) :
    ((b.recordSuccess cfg now).recordFailure cfg now' f).state = .closed := by
  have hs := core_recordSuccess cfg now b
  have hf := congrArg Core.state (core_recordFailure cfg now' f (b.recordSuccess cfg now))
  simp only [core, Core.mk.injEq] at hs hf
  obtain ⟨h1, h3, _, h4⟩ := hs
  rw [h1, h3, h4] at hf
  rw [hf]
  have hn : ¬ b.failureThreshold ≤ 0 + (if f.isTimeout then 0 else 1) := by split <;> omega
  by_cases hw : f.isWarmup = true
  · simp only [hw, ite_true]
  · simp only [hw, hn, ite_false]
    rfl

/-- A fresh breaker is really reset whenever it is CLOSED exactly in the runs in which no probe
count closes it. -/
theorem resetOnClose_iff (cfg : CircuitConfig) (domain : String) (failureThreshold : Nat)
    (recoveryTimeout now : ℚ) (ht : 1 ≤ failureThreshold) (ops : List Op) :
    ResetOnClose cfg (fresh domain failureThreshold recoveryTimeout now) ops ↔
      StepsMeet (step cfg) (fun b op => ¬ ClosesByProbes cfg b op)
        (fresh domain failureThreshold recoveryTimeout now) ops := by
  have hb : BelowThreshold (fresh domain failureThreshold recoveryTimeout now) := fun _ => ht
  have htr : Tripped (fresh domain failureThreshold recoveryTimeout now) := fun h => absurd rfl h
  constructor
  · intro h
    rw [stepsMeet_iff_forall_concat]
    intro pre op hp hc
    have hbelow := h.1 _ hp
    rw [run_concat] at hbelow
    exact not_belowThreshold_of_closesByProbes _ op (tripped_run _ pre htr) hc hbelow
  · intro h
    constructor
    · rintro pre ⟨rest, rfl⟩
      exact belowThreshold_run ht hb (stepsMeet_append.1 h).1
    · intro pre op hp hne hcl h2 now' f
      rw [run_concat] at hcl ⊢
      have hnp := (stepsMeet_iff_forall_concat.1 h) pre op hp
      rcases closes_cases _ op hne hcl with hp' | ⟨now'', rfl⟩
      · exact absurd hp' hnp
      · refine closed_recordFailure_recordSuccess _ now'' now' f ?_
        rw [failureThreshold_run]
        exact h2

/-- Two errors open the breaker, a recovery probe is admitted, and a success closes it. -/
theorem resetOnClose_recovered :
    1 ≤ 2 ∧ ResetOnClose .default (fresh "a.example" 2 15 0)
      [.recordFailure 1 {}, .recordFailure 2 {}, .isOpen 100, .recordSuccess 101] :=
  ⟨by decide, (resetOnClose_iff .default "a.example" 2 15 0 (by decide) _).2
    (by decide +kernel)⟩

/-- Two errors open the breaker and three probes close it with both failures still counted; one
timeout then opens it again. -/
theorem not_resetOnClose_three_probes :
    ¬ ResetOnClose .default (fresh "a.example" 2 15 0)
      [.recordFailure 1 {}, .recordFailure 2 {}, .isOpen 100,
        .halfOpenProbe 101, .halfOpenProbe 102, .halfOpenProbe 103] := by
  intro h
  have hcl := h.2 [.recordFailure 1 {}, .recordFailure 2 {}, .isOpen 100,
    .halfOpenProbe 101, .halfOpenProbe 102] (.halfOpenProbe 103) (List.prefix_refl _)
    (by decide +kernel) (by decide +kernel) (by decide) 104 { isTimeout := true }
  exact absurd hcl (by decide +kernel)

/-! ### The evidence between OPEN and CLOSED -/

/-- The steps `mid`, taken from `b`, hold evidence of recovery: a recorded success, or, since
the breaker entered HALF_OPEN, as many probes made in that state as the configuration asks
for. -/
def RecoveryEvidence (cfg : CircuitConfig) (b : CircuitBreaker) (mid : List Op) : Prop :=
  (∃ now, .recordSuccess now ∈ mid) ∨
  ∃ pre op probes, mid = pre ++ op :: probes ∧ (run cfg b pre).state = .opened ∧
    (∀ q, q <+: probes → q ≠ probes → (run cfg b (pre ++ op :: q)).state = .halfOpen) ∧
    cfg.circuitHalfOpenProbes ≤ probes.countP (IsProbe ·)

/-- A query of the breaker's state. -/
def IsQuery : Op → Prop
  | .isOpen _ => True
  | .checkCircuit _ _ => True
  | _ => False

/-- Between each OPEN state of the run and the next CLOSED one stands evidence of recovery, and
queries alone never close an OPEN breaker. -/
def ClosesOnEvidence (cfg : CircuitConfig) (b : CircuitBreaker) (ops : List Op) : Prop :=
  (∀ pre mid, pre ++ mid <+: ops → (run cfg b pre).state = .opened →
    (∀ q, q <+: mid → q ≠ mid → (run cfg b (pre ++ q)).state ≠ .closed) →
    (run cfg b (pre ++ mid)).state = .closed → RecoveryEvidence cfg (run cfg b pre) mid) ∧
  ∀ pre mid, pre ++ mid <+: ops → (run cfg b pre).state = .opened →
    (∀ op ∈ mid, IsQuery op) → (run cfg b (pre ++ mid)).state ≠ .closed

/-- Where a breaker that was OPEN before `mid` stands when it has not closed since: OPEN, or in a
HALF_OPEN phase whose counter is the number of probes made in it. -/
private def OpenOrProbing (cfg : CircuitConfig) (b : CircuitBreaker) (mid : List Op) : Prop :=
  (run cfg b mid).state = .opened ∨
  ∃ pre op probes, mid = pre ++ op :: probes ∧ (run cfg b pre).state = .opened ∧
    (∀ q, q <+: probes → (run cfg b (pre ++ op :: q)).state = .halfOpen) ∧
    (run cfg b mid).halfOpenProbes = probes.countP (IsProbe ·)

private theorem probing_concat {b : CircuitBreaker} {pre probes : List Op} {op a : Op}
    (ho : (run cfg b pre).state = .opened)
    (hh : ∀ q, q <+: probes → (run cfg b (pre ++ op :: q)).state = .halfOpen)
    (hs : (run cfg b (pre ++ op :: (probes ++ [a]))).state = .halfOpen)
    (hc : (run cfg b (pre ++ op :: (probes ++ [a]))).halfOpenProbes =
      probes.countP (IsProbe ·) + if IsProbe a then 1 else 0) :
    OpenOrProbing cfg b (pre ++ op :: probes ++ [a]) := by
  have he : pre ++ op :: probes ++ [a] = pre ++ op :: (probes ++ [a]) := by simp
  refine .inr ⟨pre, op, probes ++ [a], he, ho, fun q hq => ?_, ?_⟩
  · rcases List.prefix_concat_iff.1 hq with rfl | hq'
    · exact hs
    · exact hh q hq'
  · rw [he, hc, List.countP_append, List.countP_singleton]
    simp

private theorem openOrProbing_concat {b : CircuitBreaker} {mid : List Op} {a : Op}
    (h : OpenOrProbing cfg b mid) (hq : ¬ ChecksHalfOpen (run cfg b mid) a)
    (hr : ∀ now, a ≠ .recordSuccess now) (hn : (run cfg b (mid ++ [a])).state ≠ .closed) :
    OpenOrProbing cfg b (mid ++ [a]) := by
  have hcases := step_cases cfg (run cfg b mid) a
  have hcl := closed_of_closesByProbes cfg (run cfg b mid) a
  simp only [← run_concat] at hcases hcl
  rcases hcases with
    ⟨hnp, hc⟩ | ⟨ho, hc⟩ | ⟨hp, _⟩ | ⟨hh, hp, hc⟩ | ⟨⟨now, hs⟩, _⟩ | ⟨now, f, ha, n, _, hc⟩
  · -- nothing changed: the breaker was not probed while HALF_OPEN
    rcases h with ho | ⟨pre, op, probes, rfl, ho, hh, hk⟩
    · exact .inl ((congrArg Core.state hc).trans ho)
    · have hst := hh probes (List.prefix_refl _)
      have ha : ¬ IsProbe a := fun hp => hnp ⟨hp, hst⟩
      refine probing_concat ho hh ?_ ?_
      · simpa using (congrArg Core.state hc).trans hst
      · simpa [ha] using (congrArg Core.halfOpenProbes hc).trans hk
  · -- a new HALF_OPEN phase starts with a cleared counter
    refine .inr ⟨mid, a, [], rfl, ho, fun q hq => ?_, congrArg Core.halfOpenProbes hc⟩
    rw [List.prefix_nil.1 hq]
    exact congrArg Core.state hc
  · exact absurd (hcl hp).1 hn
  · rcases h with ho | ⟨pre, op, probes, rfl, ho, _, hk⟩
    · exact absurd (hh.symm.trans ho) (by decide)
    · have ha : IsProbe a := hp.resolve_left hq
      refine probing_concat ho ‹_› ?_ ?_
      · simpa using (congrArg Core.state hc).trans hh
      · have hpr := congrArg Core.halfOpenProbes hc
        simp only [halfOpenProbes_core, hk] at hpr
        simpa [ha] using hpr
  · exact absurd hs (hr now)
  · have hst := congrArg Core.state hc
    have hpr := congrArg Core.halfOpenProbes hc
    simp only [state_core, halfOpenProbes_core] at hst hpr
    by_cases ht : (run cfg b mid).failureThreshold ≤ n
    · exact .inl (by rw [hst, if_pos ht])
    · rw [if_neg ht] at hst
      rcases h with ho | ⟨pre, op, probes, rfl, ho, hh, hk⟩
      · exact .inl (hst.trans ho)
      · refine probing_concat ho hh ?_ ?_
        · simpa using hst.trans (hh probes (List.prefix_refl _))
        · simpa [ha, IsProbe] using hpr.trans hk

private theorem openOrProbing_run {b : CircuitBreaker} {mid : List Op} (ho : b.state = .opened)
    (h : StepsMeet (step cfg) (fun b op => ¬ ChecksHalfOpen b op) b mid)
    (hr : ∀ now, .recordSuccess now ∉ mid)
    (hn : ∀ q, q <+: mid → (run cfg b q).state ≠ .closed) : OpenOrProbing cfg b mid := by
  induction mid using List.reverseRecOn with
  | nil => exact .inl ho
  | append_singleton mid a ih =>
    obtain ⟨hmid, ha⟩ := stepsMeet_concat.1 h
    refine openOrProbing_concat (ih hmid ?_ ?_) ha ?_ (hn _ (List.prefix_refl _))
    · intro now hmem
      exact hr now (List.mem_append_left _ hmem)
    · intro q hq
      exact hn q (hq.trans (List.prefix_append mid [a]))
    · rintro now rfl
      exact hr now (by simp)

private theorem recoveryEvidence_of_closes {b : CircuitBreaker} {mid : List Op}
    (ho : b.state = .opened)
    (h : StepsMeet (step cfg) (fun b op => ¬ ChecksHalfOpen b op) b mid)
    (hn : ∀ q, q <+: mid → q ≠ mid → (run cfg b q).state ≠ .closed)
    (hc : (run cfg b mid).state = .closed) : RecoveryEvidence cfg b mid := by
  by_cases hr : ∃ now, Op.recordSuccess now ∈ mid
  · exact .inl hr
  · rw [not_exists] at hr
    rcases List.eq_nil_or_concat' mid with rfl | ⟨mid, a, rfl⟩
    · exact absurd (ho.symm.trans hc) (by decide)
    · obtain ⟨hmid, ha⟩ := stepsMeet_concat.1 h
      have hn' : ∀ q, q <+: mid → (run cfg b q).state ≠ .closed := by
        intro q hq
        refine hn q (hq.trans (List.prefix_append mid [a])) ?_
        rintro rfl
        have hlen := hq.length_le
        simp only [List.length_append, List.length_singleton] at hlen
        omega
      have hphase := openOrProbing_run ho hmid
        (fun now hmem => hr now (List.mem_append_left _ hmem)) hn'
      rw [run_concat] at hc
      rcases closes_cases _ a (hn' mid (List.prefix_refl _)) hc with hp | ⟨now, rfl⟩
      · have hst := halfOpen_of_closesByProbes _ a hp
        rcases hphase with hop | ⟨pre, op, probes, rfl, hop, hh, hk⟩
        · exact absurd (hst.symm.trans hop) (by decide)
        · -- only a probe can have closed it: a query in HALF_OPEN is excluded
          cases a with
          | halfOpenProbe now =>
            refine .inr ⟨pre, op, probes ++ [.halfOpenProbe now], by simp, hop, ?_, ?_⟩
            · intro q hq hne
              exact hh q ((List.prefix_concat_iff.1 hq).resolve_left hne)
            · have hle := hp.2
              rw [hk] at hle
              have ha' : IsProbe (.halfOpenProbe now) := trivial
              simpa [List.countP_append, ha'] using hle
          | checkCircuit now draw => exact absurd hst ha
          | isOpen now => exact hp.elim
          | recordSuccess now => exact hp.elim
          | recordFailure now f => exact hp.elim
      · exact absurd (by simp) (hr now)

private theorem not_closed_of_queries {b : CircuitBreaker} {mid : List Op}
    (ho : b.state ≠ .closed) (hq : ∀ op ∈ mid, IsQuery op)
    (h : StepsMeet (step cfg) (fun b op => ¬ ChecksHalfOpen b op) b mid) :
    (run cfg b mid).state ≠ .closed := by
  induction mid generalizing b with
  | nil => exact ho
  | cons op rest ih =>
    refine ih (fun hc => ?_) (fun o hm => hq o (List.mem_cons_of_mem _ hm)) h.2
    have hop := hq op List.mem_cons_self
    rcases closes_cases b op ho hc with hp | ⟨now, rfl⟩
    · have hst := halfOpen_of_closesByProbes b op hp
      cases op with
      | checkCircuit now draw => exact h.1 hst
      | halfOpenProbe now => exact hop
      | isOpen now => exact hp
      | recordSuccess now => exact hp
      | recordFailure now f => exact hp
    · exact hop

/-- A run in which `check_circuit` is never asked in HALF_OPEN closes an OPEN breaker only on
evidence of recovery. -/
theorem closesOnEvidence_of_not_checksHalfOpen (cfg : CircuitConfig) (domain : String)
    (failureThreshold : Nat) (recoveryTimeout now : ℚ) (ops : List Op)
    (h : StepsMeet (step cfg) (fun b op => ¬ ChecksHalfOpen b op)
      (fresh domain failureThreshold recoveryTimeout now) ops) :
    ClosesOnEvidence cfg (fresh domain failureThreshold recoveryTimeout now) ops := by
  constructor
  · rintro pre mid ⟨rest, rfl⟩ ho hn hc
    have hmid := (stepsMeet_append.1 (stepsMeet_append.1 h).1).2
    refine recoveryEvidence_of_closes ho hmid (fun q hq hne => ?_) ?_
    · have := hn q hq hne
      rwa [run, List.foldl_append] at this
    · rwa [run, List.foldl_append] at hc
  · rintro pre mid ⟨rest, rfl⟩ ho hq
    have hmid := (stepsMeet_append.1 (stepsMeet_append.1 h).1).2
    rw [run, List.foldl_append]
    exact not_closed_of_queries (by rw [ho]; decide) hq hmid

/-- One error opens the breaker; after the recovery probe is admitted, three probes close it. -/
theorem closesOnEvidence_three_probes :
    ClosesOnEvidence .default (fresh "a.example" 1 15 0)
      [.recordFailure 1 {}, .checkCircuit 100 0, .halfOpenProbe 101, .halfOpenProbe 102,
        .halfOpenProbe 103] :=
  closesOnEvidence_of_not_checksHalfOpen .default "a.example" 1 15 0 _ (by decide +kernel)

/-- One error opens the breaker, and asking `check_circuit` five times closes it. -/
theorem not_closesOnEvidence_five_queries :
    ¬ ClosesOnEvidence .default (fresh "a.example" 1 15 0)
      [.recordFailure 1 {}, .checkCircuit 100 0, .checkCircuit 101 0, .checkCircuit 102 0,
        .checkCircuit 103 0, .checkCircuit 104 0] := by
  intro h
  refine h.2 [.recordFailure 1 {}] [.checkCircuit 100 0, .checkCircuit 101 0,
    .checkCircuit 102 0, .checkCircuit 103 0, .checkCircuit 104 0] (List.prefix_refl _)
    (by decide +kernel) ?_ (by decide +kernel)
  simp [IsQuery]

end Hledac.Transport.CircuitBreaker
