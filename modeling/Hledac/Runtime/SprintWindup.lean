import Mathlib.Tactic.Linarith
import Hledac.Runtime.SprintLifecycle

/-!
# Degrading and winding down

The degraded flag is written by `tick` and the phase by every transition. So the two part when a
caller moves into DEGRADED or out of it by hand. The same split shows in the routes to WINDUP, of
which only the one through `tick` clears the flag, and in the two tests for winding down, of which
only `should_enter_windup` has the guarantees on the first cycle and on the minimum active time.
-/

namespace Hledac.Runtime.SprintLifecycleManager

open Hledac.Lib

/-! ### What a tick does to the phase and the flags -/

/-- The phase with the two fields that are meant to follow it. -/
structure Flags where
  currentPhase : SprintPhase
  degraded : Bool
  degradedReason : String

/-- Projection to these fields. -/
def flags (m : SprintLifecycleManager) : Flags :=
  ⟨m.currentPhase, m.degraded, m.degradedReason⟩

/-- WINDUP with the degraded flag and reason cleared. -/
def woundDown : Flags := ⟨.windup, false, ""⟩

/-- ACTIVE or DEGRADED. -/
def Working (m : SprintLifecycleManager) : Prop :=
  m.currentPhase = .active ∨ m.currentPhase = .degraded

instance (m : SprintLifecycleManager) : Decidable (Working m) :=
  inferInstanceAs (Decidable (_ ∨ _))

@[simp] theorem flags_transitionToUnlocked (p : SprintPhase) (now : ℚ)
    (m : SprintLifecycleManager) :
    (m.transitionToUnlocked p now).flags = { m.flags with currentPhase := p } := rfl

@[simp] theorem flags_trackActivePhaseTime (now : ℚ) (m : SprintLifecycleManager) :
    (m.trackActivePhaseTime now).flags = m.flags := by
  unfold trackActivePhaseTime
  split
  · split <;> rfl
  · split <;> rfl

@[simp] theorem flags_lowerGovernorWindupIfExport (s : Surroundings)
    (m : SprintLifecycleManager) : (m.lowerGovernorWindupIfExport s).flags = m.flags := by
  unfold lowerGovernorWindupIfExport
  split <;> rfl

theorem working_of_flags {m m' : SprintLifecycleManager} (h : m'.flags = m.flags) :
    Working m' ↔ Working m := by
  have hp : m'.currentPhase = m.currentPhase := congrArg Flags.currentPhase h
  rw [Working, Working, hp]

theorem remainingTime_congr {m m' : SprintLifecycleManager} (h : m'.schedule = m.schedule)
    (now : ℚ) : m'.remainingTime now = m.remainingTime now := by
  have hs : m'.startedAt = m.startedAt := congrArg Schedule.startedAt h
  have hd : m'.sprintDurationS = m.sprintDurationS := congrArg Schedule.sprintDurationS h
  rw [remainingTime, remainingTime, hs, hd]

theorem flags_checkWindupTransition (s : Surroundings) (m : SprintLifecycleManager) :
    (m.checkWindupTransition s).flags =
      if Working m ∧ (m.remainingTime s.now ≤ m.windupLeadS ∨ m.checkCognitiveSaturation s) then
        woundDown
      else m.flags := by
  unfold checkWindupTransition
  by_cases hw : Working m
  · rw [if_neg (by rw [not_and_or, not_not, not_not]; exact hw)]
    by_cases hd : m.remainingTime s.now ≤ m.windupLeadS ∨ m.checkCognitiveSaturation s
    · rw [if_pos hd, if_pos ⟨hw, hd⟩]
      rfl
    · rw [if_neg hd, if_neg fun h => hd h.2]
  · rw [if_pos (not_or.1 hw), if_neg fun h => hw h.1]

theorem working_checkGovernorDegradedTransition (s : Surroundings) (m : SprintLifecycleManager) :
    Working (m.checkGovernorDegradedTransition s) ↔ Working m := by
  unfold checkGovernorDegradedTransition
  split
  · next h =>
    apply iff_of_true _ (.inl h.1)
    unfold transitionToDegradedIfCritical
    split
    · exact .inr rfl
    · exact .inl h.1
  · split
    · next h =>
      apply iff_of_true _ (.inr h)
      unfold checkGovernorRecovery
      split
      · exact .inl rfl
      · exact .inr h
    · rfl

theorem flags_tick (s : Surroundings) (m : SprintLifecycleManager) :
    (m.tick s).flags =
      if Working m ∧ (m.remainingTime s.now ≤ m.windupLeadS ∨
          ((m.checkGovernorDegradedTransition s).trackActivePhaseTime s.now).checkCognitiveSaturation
            s) then
        woundDown
      else (m.checkGovernorDegradedTransition s).flags := by
  have hsched : ((m.checkGovernorDegradedTransition s).trackActivePhaseTime s.now).schedule =
      m.schedule := by simp
  have hlead : ((m.checkGovernorDegradedTransition s).trackActivePhaseTime s.now).windupLeadS =
      m.windupLeadS := congrArg Schedule.windupLeadS hsched
  have hwork : Working ((m.checkGovernorDegradedTransition s).trackActivePhaseTime s.now) ↔
      Working m :=
    (working_of_flags (flags_trackActivePhaseTime _ _)).trans
      (working_checkGovernorDegradedTransition s m)
  rw [tick, flags_lowerGovernorWindupIfExport, flags_checkWindupTransition]
  simp only [hwork, remainingTime_congr hsched, hlead, flags_trackActivePhaseTime]

/-! ### The routes to WINDUP -/

/-- Without a degraded flag there is no reason. -/
def ReasonCleared (m : SprintLifecycleManager) : Prop :=
  m.degraded = false → m.degradedReason = ""

theorem reasonCleared_of_flags {m m' : SprintLifecycleManager} (hd : m'.degraded = m.degraded)
    (hr : m'.degradedReason = m.degradedReason) (h : ReasonCleared m) : ReasonCleared m' := by
  rw [ReasonCleared, hd, hr]
  exact h

theorem reasonCleared_tick (s : Surroundings) {m : SprintLifecycleManager}
    (h : ReasonCleared m) : ReasonCleared (m.tick s) := by
  have hgov : ReasonCleared (m.checkGovernorDegradedTransition s) := by
    unfold checkGovernorDegradedTransition transitionToDegradedIfCritical checkGovernorRecovery
    split
    · split
      · exact fun hd => nomatch hd
      · exact h
    · split
      · split
        · exact fun _ => rfl
        · exact h
      · exact h
  have hf := flags_tick s m
  split at hf
  · exact fun _ => congrArg Flags.degradedReason hf
  · exact reasonCleared_of_flags (congrArg Flags.degraded hf) (congrArg Flags.degradedReason hf)
      hgov

theorem flags_transitionTo {m m' : SprintLifecycleManager} {p : SprintPhase} {now : ℚ}
    (h : m.transitionTo p now = .ok m') : m'.flags = { m.flags with currentPhase := p } := by
  unfold transitionTo at h
  split at h
  · cases h
  · split at h
    · cases h
      rfl
    · split at h
      · cases h
        rfl
      · cases h

theorem flags_markExportStarted {m m' : SprintLifecycleManager} {now : ℚ}
    (h : m.markExportStarted now = .ok m') :
    m'.flags = { m.flags with currentPhase := .exportPhase } := by
  unfold markExportStarted at h
  split at h
  · cases h
  · cases h
    rfl

theorem flags_markTeardownStarted {m m' : SprintLifecycleManager} {now : ℚ}
    (h : m.markTeardownStarted now = .ok m') :
    m'.flags = { m.flags with currentPhase := .teardown } := by
  unfold markTeardownStarted at h
  split at h
  · cases h
  · cases h
    rfl

theorem flags_apply {m m' : SprintLifecycleManager} {op : Op} (h : m.apply op = .ok m') :
    m'.flags = m.flags ∨ (∃ s, op = .tick s ∧ m' = m.tick s) ∨
      ∃ p, m'.flags = { m.flags with currentPhase := p } ∧
        ((∃ now, m.transitionTo p now = .ok m' ∧
          (op = .transitionTo p now ∨ (op = .requestWindup now ∧ p = .windup) ∨
            (op = .markWarmupDone now ∧ p = .active))) ∨
        (m.currentPhase = .windup ∧ p = .exportPhase) ∨
        ((m.currentPhase = .exportPhase ∨ m.currentPhase = .windup) ∧ p = .teardown) ∨
        (m.startedAt = none ∧ p = .warmup)) := by
  cases op with
  | start now =>
    simp only [apply, start] at h
    split at h
    · cases h
    · next hs =>
      cases h
      exact .inr (.inr ⟨.warmup, rfl, .inr (.inr (.inr ⟨by simpa using hs, rfl⟩))⟩)
  | transitionTo p now =>
    exact .inr (.inr ⟨p, flags_transitionTo h, .inl ⟨now, h, .inl rfl⟩⟩)
  | tick s =>
    cases h
    exact .inr (.inl ⟨s, rfl, rfl⟩)
  | requestWindup now =>
    simp only [apply, requestWindup] at h
    split at h
    · cases h
      exact .inl rfl
    · exact .inr (.inr ⟨.windup, flags_transitionTo h, .inl ⟨now, h, .inr (.inl ⟨rfl, rfl⟩)⟩⟩)
  | requestExport now =>
    simp only [apply, requestExport] at h
    split at h
    · cases h
      exact .inl rfl
    · exact .inr (.inr ⟨.exportPhase, flags_markExportStarted h,
        .inr (.inl ⟨(schedule_markExportStarted h).2, rfl⟩)⟩)
  | requestTeardown now =>
    simp only [apply, requestTeardown] at h
    split at h
    · cases h
      exact .inl rfl
    · exact .inr (.inr ⟨.teardown, flags_markTeardownStarted h,
        .inr (.inr (.inl ⟨(schedule_markTeardownStarted h).2, rfl⟩))⟩)
  | markExportStarted now =>
    exact .inr (.inr ⟨.exportPhase, flags_markExportStarted h,
      .inr (.inl ⟨(schedule_markExportStarted h).2, rfl⟩)⟩)
  | markTeardownStarted now =>
    exact .inr (.inr ⟨.teardown, flags_markTeardownStarted h,
      .inr (.inr (.inl ⟨(schedule_markTeardownStarted h).2, rfl⟩))⟩)
  | markWarmupDone now =>
    exact .inr (.inr ⟨.active, flags_transitionTo h, .inl ⟨now, h, .inr (.inr ⟨rfl, rfl⟩)⟩⟩)
  | requestAbort reason =>
    cases h
    exact .inl rfl
  | setFirstCycleRan =>
    cases h
    exact .inl rfl
  | setDeadlineExpiredPreCycle =>
    cases h
    exact .inl rfl
  | setPreLoopCostS cost =>
    cases h
    exact .inl rfl
  | setCognitiveSaturationDetector present =>
    cases h
    exact .inl rfl

theorem reasonCleared_step {m : SprintLifecycleManager} (h : ReasonCleared m) (op : Op) :
    ReasonCleared (m.step op) := by
  apply step_of_apply h
  intro m' hm
  rcases flags_apply hm with hf | ⟨s, _, rfl⟩ | ⟨p, hf, _⟩
  · exact reasonCleared_of_flags (congrArg Flags.degraded hf)
      (congrArg Flags.degradedReason hf) h
  · exact reasonCleared_tick s h
  · exact reasonCleared_of_flags (congrArg Flags.degraded hf)
      (congrArg Flags.degradedReason hf) h

/-- What every reachable state has. -/
def Reachable (m : SprintLifecycleManager) : Prop := BootUntilStarted m ∧ ReasonCleared m

theorem reachable_step (m : SprintLifecycleManager) (op : Op) (h : Reachable m) :
    Reachable (m.step op) :=
  ⟨bootUntilStarted_step h.1 op, reasonCleared_step h.2 op⟩

theorem reachable_fresh (sprintDurationS windupLeadS : ℚ) :
    Reachable (fresh sprintDurationS windupLeadS) :=
  ⟨fun _ => rfl, fun _ => rfl⟩

theorem reachable_run {m : SprintLifecycleManager} (h : Reachable m) (ops : List Op) :
    Reachable (m.run ops) :=
  foldl_invariant (I := Reachable) reachable_step ops h

theorem startedAt_of_working {m : SprintLifecycleManager} (h : Reachable m) (hw : Working m) :
    ∃ t, m.startedAt = some t := by
  apply Option.ne_none_iff_exists'.1
  intro hn
  have hp := h.1 hn
  rw [Working, hp] at hw
  exact absurd hw (by decide)

/-- Each of the three routes ends in WINDUP, without raising, with the degraded flag and the reason
cleared; so all three leave the same. -/
structure WindsDown (m : SprintLifecycleManager) : Prop where
  requestWindup : ∀ now, ∃ m', m.requestWindup now = .ok m' ∧ m'.flags = woundDown
  transitionTo : ∀ now, ∃ m', m.transitionTo .windup now = .ok m' ∧ m'.flags = woundDown
  tick : ∀ s, m.remainingTime s.now ≤ m.windupLeadS → (m.tick s).flags = woundDown

theorem transitionTo_windup {m : SprintLifecycleManager} (h : Reachable m)
    (hp : m.currentPhase = .degraded) (now : ℚ) :
    m.transitionTo .windup now = .ok (m.transitionToUnlocked .windup now) := by
  obtain ⟨t, ht⟩ := startedAt_of_working h (.inr hp)
  have hvalid : isValidTransition m.currentPhase .windup = true := by
    rw [hp]
    decide
  simp [SprintLifecycleManager.transitionTo, ht, hvalid]

theorem transitionTo_windup_of_active {m : SprintLifecycleManager}
    (hp : m.currentPhase = .active) (now : ℚ) (m' : SprintLifecycleManager) :
    m.transitionTo .windup now ≠ .ok m' := by
  have hvalid : isValidTransition m.currentPhase .windup = false := by
    rw [hp]
    decide
  unfold SprintLifecycleManager.transitionTo
  split
  · simp
  · simp [hvalid]

/-- A working state winds down alike by request, by transition and by a tick exactly when it is
DEGRADED without the degraded flag, that is when DEGRADED was entered by hand. -/
theorem windsDown_iff (sprintDurationS windupLeadS : ℚ) (ops : List Op)
    (hw : Working ((fresh sprintDurationS windupLeadS).run ops)) :
    WindsDown ((fresh sprintDurationS windupLeadS).run ops) ↔
      ((fresh sprintDurationS windupLeadS).run ops).currentPhase = .degraded ∧
        ((fresh sprintDurationS windupLeadS).run ops).degraded = false := by
  have hr := reachable_run (reachable_fresh sprintDurationS windupLeadS) ops
  generalize (fresh sprintDurationS windupLeadS).run ops = m at hw hr
  constructor
  · intro h
    obtain ⟨m', hm, hf⟩ := h.transitionTo 0
    rcases hw with hp | hp
    · exact absurd hm (transitionTo_windup_of_active hp 0 m')
    · refine ⟨hp, ?_⟩
      have hd := congrArg Flags.degraded ((flags_transitionTo hm).symm.trans hf)
      exact hd
  · rintro ⟨hp, hd⟩
    have hflags : ∀ now, (m.transitionToUnlocked .windup now).flags = woundDown := by
      intro now
      have hreason := hr.2 hd
      rw [flags_transitionToUnlocked, flags, hd, hreason]
      rfl
    refine ⟨fun now => ?_, fun now => ?_, fun s hs => ?_⟩
    · refine ⟨m.transitionToUnlocked .windup now, ?_, hflags now⟩
      rw [SprintLifecycleManager.requestWindup, if_neg (by rw [hp]; decide),
        transitionTo_windup hr hp]
    · exact ⟨_, transitionTo_windup hr hp now, hflags now⟩
    · rw [flags_tick, if_pos ⟨hw, .inl hs⟩]

/-- Entering DEGRADED by hand is the case in which all three routes agree. -/
theorem windsDown_degraded_by_hand :
    Working ((fresh 1800 180).run [.start 0, .markWarmupDone 1, .transitionTo .degraded 2]) ∧
      WindsDown ((fresh 1800 180).run
        [.start 0, .markWarmupDone 1, .transitionTo .degraded 2]) :=
  ⟨by decide, (windsDown_iff 1800 180 _ (by decide)).2 (by decide)⟩

/-- In ACTIVE, `request_windup` raises. -/
theorem not_windsDown_active :
    Working ((fresh 1800 180).run [.start 0, .markWarmupDone 1]) ∧
      ¬ WindsDown ((fresh 1800 180).run [.start 0, .markWarmupDone 1]) := by
  refine ⟨by decide, fun h => ?_⟩
  obtain ⟨m', hm, _⟩ := h.transitionTo 2
  exact transitionTo_windup_of_active (by decide) 2 m' hm

/-! ### The degraded flag and the phase -/

/-- The degraded flag is set exactly in DEGRADED, so it agrees with `is_degraded`, and the reason is
empty elsewhere. -/
def TracksPhase (m : SprintLifecycleManager) : Prop :=
  m.degraded = m.isDegraded ∧ (m.degradedReason ≠ "" → m.currentPhase = .degraded)

/-- A caller moves into DEGRADED or out of it without a tick. -/
def CrossesByHand (m : SprintLifecycleManager) : Op → Prop
  | .transitionTo p _ =>
    (m.currentPhase = .active ∧ p = .degraded) ∨
      (m.currentPhase = .degraded ∧ (p = .windup ∨ p = .teardown))
  | .requestWindup _ => m.currentPhase = .degraded
  | _ => False

theorem tracksPhase_of_flags {m m' : SprintLifecycleManager} (h : m'.flags = m.flags) :
    TracksPhase m' ↔ TracksPhase m := by
  have hp : m'.currentPhase = m.currentPhase := congrArg Flags.currentPhase h
  have hd : m'.degraded = m.degraded := congrArg Flags.degraded h
  have hr : m'.degradedReason = m.degradedReason := congrArg Flags.degradedReason h
  rw [TracksPhase, TracksPhase, isDegraded, isDegraded, hp, hd, hr]

theorem tracksPhase_tick (s : Surroundings) {m : SprintLifecycleManager} (h : TracksPhase m) :
    TracksPhase (m.tick s) := by
  have hgov : TracksPhase (m.checkGovernorDegradedTransition s) := by
    unfold checkGovernorDegradedTransition transitionToDegradedIfCritical checkGovernorRecovery
    split
    · split
      · exact ⟨rfl, fun _ => rfl⟩
      · exact h
    · split
      · split
        · exact ⟨rfl, fun hr => absurd rfl hr⟩
        · exact h
      · exact h
  have hf := flags_tick s m
  split at hf
  · have hp := congrArg Flags.currentPhase hf
    have hd := congrArg Flags.degraded hf
    have hr := congrArg Flags.degradedReason hf
    simp only [flags, woundDown] at hp hd hr
    rw [TracksPhase, isDegraded, hp, hd, hr]
    exact ⟨rfl, fun hne => absurd rfl hne⟩
  · exact (tracksPhase_of_flags hf).2 hgov

theorem tracksPhase_of_currentPhase {m m' : SprintLifecycleManager} {p : SprintPhase}
    (h : TracksPhase m) (hf : m'.flags = { m.flags with currentPhase := p }) :
    TracksPhase m' ↔ (p = .degraded ↔ m.currentPhase = .degraded) := by
  have hp : m'.currentPhase = p := congrArg Flags.currentPhase hf
  have hd : m'.degraded = m.degraded := congrArg Flags.degraded hf
  have hre : m'.degradedReason = m.degradedReason := congrArg Flags.degradedReason hf
  rw [TracksPhase, isDegraded, hp, hd, hre, h.1, isDegraded]
  constructor
  · rintro ⟨he, _⟩
    rw [← beq_iff_eq (a := p), ← beq_iff_eq (a := m.currentPhase), he]
  · intro hiff
    refine ⟨by rw [Bool.eq_iff_iff, beq_iff_eq, beq_iff_eq, hiff], fun hne => hiff.2 ?_⟩
    exact h.2 hne

theorem valid_of_transitionTo {m m' : SprintLifecycleManager} {p : SprintPhase} {now : ℚ}
    (h : m.transitionTo p now = .ok m') : p = .teardown ∨ p.index = m.currentPhase.index + 1 := by
  unfold SprintLifecycleManager.transitionTo at h
  split at h
  · cases h
  · split at h
    · next hp => exact .inl hp.1
    · split at h
      · next hv =>
        unfold isValidTransition at hv
        split at hv
        · next hp => exact .inl hp
        · exact .inr (by simpa using hv)
      · cases h

theorem step_of_crossesByHand {m : SprintLifecycleManager} {op : Op} (hr : Reachable m)
    (hc : CrossesByHand m op) : ∃ p, (m.step op).flags = { m.flags with currentPhase := p } ∧
      ¬ (p = .degraded ↔ m.currentPhase = .degraded) := by
  have hvalid : ∀ p now, Working m → isValidTransition m.currentPhase p = true →
      ∃ m', m.transitionTo p now = .ok m' := by
    intro p now hw hv
    obtain ⟨t, ht⟩ := startedAt_of_working hr hw
    unfold SprintLifecycleManager.transitionTo
    rw [ht, hv]
    by_cases ha : p = .teardown ∧ m.abortRequested = true
    · exact ⟨m.transitionToUnlocked p now, by simp [ha]⟩
    · exact ⟨m.transitionToUnlocked p now, by simp [ha]⟩
  have hstep : ∀ p now m', m.transitionTo p now = .ok m' → m.apply op = .ok m' →
      (m.step op).flags = { m.flags with currentPhase := p } := by
    intro p now m' ht ha
    rw [step, ha]
    exact flags_transitionTo ht
  cases op with
  | transitionTo p now =>
    rcases hc with ⟨hp, rfl⟩ | ⟨hp, hq⟩
    · obtain ⟨m', hm⟩ := hvalid .degraded now (.inl hp) (by rw [hp]; decide)
      exact ⟨.degraded, hstep .degraded now m' hm hm, by rw [hp]; decide⟩
    · obtain ⟨m', hm⟩ := hvalid p now (.inr hp) (by rcases hq with rfl | rfl <;> rw [hp] <;> decide)
      exact ⟨p, hstep p now m' hm hm, by rcases hq with rfl | rfl <;> rw [hp] <;> decide⟩
  | requestWindup now =>
    have hp : m.currentPhase = .degraded := hc
    obtain ⟨m', hm⟩ := hvalid .windup now (.inr hp) (by rw [hp]; decide)
    have ha : m.apply (.requestWindup now) = .ok m' := by
      rw [apply, SprintLifecycleManager.requestWindup, if_neg (by rw [hp]; decide), hm]
    exact ⟨.windup, hstep .windup now m' hm ha, by rw [hp]; decide⟩
  | _ => exact hc.elim

theorem tracksPhase_of_not_crossesByHand {m : SprintLifecycleManager} {op : Op}
    (hr : Reachable m) (h : TracksPhase m) (hc : ¬ CrossesByHand m op) :
    TracksPhase (m.step op) := by
  apply step_of_apply h
  intro m' hm
  rcases flags_apply hm with hf | ⟨s, _, rfl⟩ | ⟨p, hf, hcase⟩
  · exact (tracksPhase_of_flags hf).2 h
  · exact tracksPhase_tick s h
  · rw [tracksPhase_of_currentPhase h hf]
    rcases hcase with ⟨now, ht, rfl | ⟨rfl, rfl⟩ | ⟨rfl, rfl⟩⟩ | ⟨hp, rfl⟩ | ⟨hp, rfl⟩ | ⟨hn, rfl⟩
    · -- the move is to TEARDOWN or one step forward, and not across DEGRADED
      simp only [CrossesByHand, not_or, not_and] at hc
      have hv := valid_of_transitionTo ht
      cases hq : m.currentPhase <;> rw [hq] at hc hv <;> cases p <;> revert hc hv <;> decide
    · exact iff_of_false (by decide) hc
    · have hv := valid_of_transitionTo ht
      cases hq : m.currentPhase <;> rw [hq] at hv <;> revert hv <;> decide
    · rw [hp]
      decide
    · rcases hp with hp | hp <;> rw [hp] <;> decide
    · rw [hr.1 hn]
      decide

theorem tracksPhase_step_iff (m : SprintLifecycleManager) (op : Op) (hr : Reachable m)
    (h : TracksPhase m) : TracksPhase (m.step op) ↔ ¬ CrossesByHand m op := by
  constructor
  · intro ht hc
    obtain ⟨p, hf, hp⟩ := step_of_crossesByHand hr hc
    exact hp ((tracksPhase_of_currentPhase h hf).1 ht)
  · exact tracksPhase_of_not_crossesByHand hr h

/-- The degraded flag tracks the phase throughout a run exactly when no caller moves into DEGRADED,
or out of it, by hand. -/
theorem tracksPhase_iff_stepsMeet (sprintDurationS windupLeadS : ℚ) (ops : List Op) :
    (∀ pre, pre <+: ops → TracksPhase ((fresh sprintDurationS windupLeadS).run pre)) ↔
      StepsMeet step (fun m op => ¬ CrossesByHand m op) (fresh sprintDurationS windupLeadS) ops :=
  forall_prefix_iff_stepsMeet reachable_step tracksPhase_step_iff
    (reachable_fresh sprintDurationS windupLeadS) ⟨rfl, fun h => absurd rfl h⟩ ops

/-- Entering DEGRADED by hand leaves the flag unset. -/
theorem not_tracksPhase_degraded_by_hand :
    ¬ ∀ pre, pre <+: [.start 0, .markWarmupDone 1, .transitionTo .degraded 2] →
      TracksPhase ((fresh 1800 180).run pre) := by
  intro h
  have hd := (h _ (List.prefix_refl _)).1
  exact absurd hd (by decide)

/-! ### The two tests for winding down -/

/-- The tick winds down exactly when `should_enter_windup` says so, and never before the first cycle
has run, unless the deadline flag is set, nor within the first thirty seconds. -/
structure TickAgrees (m : SprintLifecycleManager) (s : Surroundings) : Prop where
  same : (m.tick s).currentPhase = .windup ↔ m.shouldEnterWindup s.now = true
  guarded : (m.tick s).currentPhase = .windup →
    (m.firstCycleRan = true ∨ m.deadlineExpiredPreCycle = true) ∧
      ∃ t, m.startedAt = some t ∧ 30 ≤ s.now - t

theorem currentPhase_tick_iff {m : SprintLifecycleManager} (hw : Working m)
    (hd : m.cognitiveSaturationDetector = false) (s : Surroundings) :
    (m.tick s).currentPhase = .windup ↔ m.remainingTime s.now ≤ m.windupLeadS := by
  have hdet : ((m.checkGovernorDegradedTransition s).trackActivePhaseTime
      s.now).cognitiveSaturationDetector = false := by
    have hsched : ((m.checkGovernorDegradedTransition s).trackActivePhaseTime s.now).schedule =
        m.schedule := by simp
    exact (congrArg Schedule.detector hsched).trans hd
  have hf := flags_tick s m
  simp only [checkCognitiveSaturation, hdet, Bool.false_and, Bool.false_eq_true, or_false] at hf
  by_cases hle : m.remainingTime s.now ≤ m.windupLeadS
  · rw [if_pos ⟨hw, hle⟩] at hf
    exact iff_of_true (congrArg Flags.currentPhase hf) hle
  · rw [if_neg fun h => hle h.2] at hf
    refine iff_of_false (fun hp => ?_) hle
    have hg := (congrArg Flags.currentPhase hf).symm.trans hp
    have hwg := (working_checkGovernorDegradedTransition s m).2 hw
    rw [Working, show (m.checkGovernorDegradedTransition s).currentPhase = .windup from hg] at hwg
    exact absurd hwg (by decide)

theorem shouldEnterWindup_iff (m : SprintLifecycleManager) (now : ℚ) :
    m.shouldEnterWindup now = true ↔
      (m.firstCycleRan = true ∨ m.deadlineExpiredPreCycle = true) ∧
        m.remainingTime now ≤ m.windupLeadS +
          (if m.preLoopCostS > m.windupLeadS then m.preLoopCostS else 0) ∧
        m.remainingTime now ≤ m.windupLeadS ∧ m.remainingTime now ≤ m.sprintDurationS - 30 := by
  unfold shouldEnterWindup
  cases m.firstCycleRan <;> cases m.deadlineExpiredPreCycle <;> simp

theorem remainingTime_nonneg {m : SprintLifecycleManager} {t : ℚ} (h : m.startedAt = some t)
    (now : ℚ) : 0 ≤ m.remainingTime now := by
  rw [remainingTime, h]
  exact le_max_left 0 _

theorem shouldEnterWindup_iff_of_le {m : SprintLifecycleManager} {t now : ℚ}
    (h : m.startedAt = some t) (hle : m.remainingTime now ≤ m.windupLeadS) :
    m.shouldEnterWindup now = true ↔
      (m.firstCycleRan = true ∨ m.deadlineExpiredPreCycle = true) ∧
        m.remainingTime now ≤ m.sprintDurationS - 30 := by
  have hlead := (remainingTime_nonneg h now).trans hle
  have hbonus : m.remainingTime now ≤ m.windupLeadS +
      (if m.preLoopCostS > m.windupLeadS then m.preLoopCostS else 0) := by
    split
    · next hc => linarith
    · linarith
  rw [shouldEnterWindup_iff]
  simp [hbonus, hle]

/-- In a working state without a detector, tick and `should_enter_windup` agree, with the guarantees
that come with it, exactly when no winding down is due yet, or the first cycle has run (or the
deadline flag is set) and at most the duration less thirty seconds remains. -/
theorem tickAgrees_iff (sprintDurationS windupLeadS : ℚ) (ops : List Op) (s : Surroundings)
    (hw : Working ((fresh sprintDurationS windupLeadS).run ops))
    (hd : ((fresh sprintDurationS windupLeadS).run ops).cognitiveSaturationDetector = false) :
    let m := (fresh sprintDurationS windupLeadS).run ops
    TickAgrees m s ↔
      m.windupLeadS < m.remainingTime s.now ∨
        ((m.firstCycleRan = true ∨ m.deadlineExpiredPreCycle = true) ∧
          m.remainingTime s.now ≤ m.sprintDurationS - 30) := by
  intro m
  have hr : Reachable m := reachable_run (reachable_fresh sprintDurationS windupLeadS) ops
  obtain ⟨t, ht⟩ := startedAt_of_working hr hw
  have htick := currentPhase_tick_iff hw hd s
  by_cases hle : m.remainingTime s.now ≤ m.windupLeadS
  · have hshould := shouldEnterWindup_iff_of_le ht hle
    have hlt : ¬ m.windupLeadS < m.remainingTime s.now := not_lt.2 hle
    constructor
    · intro h
      exact .inr (hshould.1 (h.same.1 (htick.2 hle)))
    · intro h
      have hcond := h.resolve_left hlt
      refine ⟨iff_of_true (htick.2 hle) (hshould.2 hcond), fun _ => ⟨hcond.1, t, ht, ?_⟩⟩
      have hrem : t + m.sprintDurationS - s.now ≤ m.remainingTime s.now := by
        rw [remainingTime, ht]
        exact le_max_right 0 _
      linarith [hcond.2]
  · refine iff_of_true ⟨iff_of_false (mt htick.1 hle) ?_, fun h => ?_⟩ (.inl (not_le.1 hle))
    · rw [shouldEnterWindup_iff]
      exact fun h => hle h.2.2.1
    · exact absurd (htick.1 h) hle

/-- With the first cycle run, both say to wind down three minutes before the end. -/
theorem tickAgrees_after_first_cycle :
    let m := (fresh 1800 180).run [.start 0, .markWarmupDone 1, .setFirstCycleRan]
    Working m ∧ m.cognitiveSaturationDetector = false ∧
      TickAgrees m ⟨1700, some false, true, fun _ _ => none⟩ :=
  ⟨by decide, rfl, (tickAgrees_iff 1800 180 [.start 0, .markWarmupDone 1, .setFirstCycleRan]
    ⟨1700, some false, true, fun _ _ => none⟩ (by decide) rfl).2 (.inr (by decide +kernel))⟩

/-- Before the first cycle has run, the tick winds down where `should_enter_windup` does not. -/
theorem not_tickAgrees_before_first_cycle :
    let m := (fresh 1800 180).run [.start 0, .markWarmupDone 1]
    Working m ∧ m.cognitiveSaturationDetector = false ∧
      ¬ TickAgrees m ⟨1700, some false, true, fun _ _ => none⟩ := by
  refine ⟨by decide, rfl, fun h => ?_⟩
  have hs := h.same.1 ((currentPhase_tick_iff (by decide) rfl _).2 (by decide +kernel))
  exact absurd hs (by decide +kernel)

/-! ### The trigger over time -/

/-- What `should_enter_windup` promises of a sprint that started at `t`: it stays true once it is, it is true when
no time is left, a sprint of thirty seconds or more works that long, and where the cost before the loop exceeds the
lead and the sprint has room for both, the two together are the trigger. -/
structure TriggersWell (m : SprintLifecycleManager) (t : ℚ) : Prop where
  monotone : ∀ now later, now ≤ later → m.shouldEnterWindup now = true → m.shouldEnterWindup later = true
  atEnd : ∀ now, m.remainingTime now = 0 → m.shouldEnterWindup now = true
  minimum : 30 ≤ m.sprintDurationS → ∀ now, now < t + 30 → m.shouldEnterWindup now = false
  raised : m.windupLeadS < m.preLoopCostS → m.windupLeadS + m.preLoopCostS ≤ m.sprintDurationS - 30 →
    ∀ now, m.shouldEnterWindup now = true ↔ m.remainingTime now ≤ m.windupLeadS + m.preLoopCostS

theorem remainingTime_anti {m : SprintLifecycleManager} {now later : ℚ} (h : now ≤ later) :
    m.remainingTime later ≤ m.remainingTime now := by
  rw [remainingTime, remainingTime]
  cases m.startedAt with
  | none => exact le_refl _
  | some t => exact max_le_max (le_refl 0) (by linarith)

theorem shouldEnterWindup_iff_of_firstCycleRan {m : SprintLifecycleManager} (hrun : m.firstCycleRan = true)
    (hcost : 0 ≤ m.preLoopCostS) (now : ℚ) :
    m.shouldEnterWindup now = true ↔
      m.remainingTime now ≤ m.windupLeadS ∧ m.remainingTime now ≤ m.sprintDurationS - 30 := by
  rw [shouldEnterWindup_iff]
  constructor
  · intro h
    exact h.2.2
  · intro h
    refine ⟨.inl hrun, ?_, h⟩
    split
    · linarith [h.1]
    · linarith [h.1]

/-- With the first cycle run, the trigger does what it promises exactly when the sprint lasts thirty seconds or more
and the cost before the loop does not exceed the lead, or leaves no room for both. -/
theorem triggersWell_iff {m : SprintLifecycleManager} {t : ℚ} (ht : m.startedAt = some t)
    (hrun : m.firstCycleRan = true) (hlead : 0 ≤ m.windupLeadS) (hcost : 0 ≤ m.preLoopCostS) :
    TriggersWell m t ↔ 30 ≤ m.sprintDurationS ∧
      (m.preLoopCostS ≤ m.windupLeadS ∨ m.sprintDurationS - 30 < m.windupLeadS + m.preLoopCostS) := by
  have hiff := shouldEnterWindup_iff_of_firstCycleRan hrun hcost
  have hrem : ∀ now, m.remainingTime now = max 0 (t + m.sprintDurationS - now) := by
    intro now
    rw [remainingTime, ht]
  constructor
  · intro h
    have hend : m.remainingTime (t + m.sprintDurationS) = 0 := by
      rw [hrem, sub_self, max_self]
    have hmin := ((hiff _).1 (h.atEnd _ hend)).2
    rw [hend] at hmin
    refine ⟨by linarith, ?_⟩
    by_contra hcond
    obtain ⟨hlt, hroom⟩ := not_or.1 hcond
    rw [not_le] at hlt
    rw [not_lt] at hroom
    -- at the moment when lead and cost together remain
    have hat : m.remainingTime (t + m.sprintDurationS - (m.windupLeadS + m.preLoopCostS)) =
        m.windupLeadS + m.preLoopCostS := by
      rw [hrem, sub_sub_cancel]
      exact max_eq_right (by linarith)
    have htrue := ((hiff _).1 ((h.raised hlt hroom _).2 hat.le)).1
    linarith
  · intro h
    obtain ⟨hmin, hcond⟩ := h
    constructor
    · intro now later hle hnow
      have hanti := m.remainingTime_anti hle
      have hbounds := (hiff now).1 hnow
      exact (hiff later).2 ⟨hanti.trans hbounds.1, hanti.trans hbounds.2⟩
    · intro now hzero
      rw [hiff, hzero]
      exact ⟨hlead, by linarith⟩
    · intro _ now hlt
      rw [Bool.eq_false_iff, Ne, hiff, hrem]
      intro hbounds
      have hle := (le_max_right 0 (t + m.sprintDurationS - now)).trans hbounds.2
      linarith
    · intro hlt hroom
      cases hcond with
      | inl hle => exact absurd hlt (not_lt.2 hle)
      | inr hsmall => exact absurd hroom (not_le.2 hsmall)

/-- Half an hour with a lead of three minutes and an init cost of one. -/
theorem triggersWell_half_hour :
    TriggersWell { fresh 1800 180 with startedAt := some 0, preLoopCostS := 60, firstCycleRan := true } 0 :=
  (triggersWell_iff rfl rfl (by decide +kernel) (by decide +kernel)).2
    ⟨by decide +kernel, .inl (by decide +kernel)⟩

/-- With an init cost of five minutes the trigger stays at the lead of three. -/
theorem not_triggersWell :
    ¬ TriggersWell { fresh 1800 180 with startedAt := some 0, preLoopCostS := 300, firstCycleRan := true } 0 := by
  intro h
  have htrue := (h.raised (by decide +kernel) (by decide +kernel) 1320).2 (by decide +kernel)
  exact absurd htrue (by decide +kernel)

end Hledac.Runtime.SprintLifecycleManager
