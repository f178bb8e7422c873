import Hledac.Runtime.SprintLifecycle

/-!
# Sprint phases only advance

Which moves from phase to phase are legal is said once, without the manager. Every operation of the
manager follows a path of legal moves, so a whole run does, and what the paths cannot do no run
does.
-/

namespace Hledac.Runtime

open Hledac.Lib

namespace SprintPhase

/-! ### Paths of legal moves -/

/-- One step forward, into TEARDOWN from anywhere, back from DEGRADED to ACTIVE, or from ACTIVE over
DEGRADED to WINDUP. -/
def Legal (p q : SprintPhase) : Prop :=
  q.index = p.index + 1 ∨ q = .teardown ∨ (p = .degraded ∧ q = .active) ∨
    (p = .active ∧ q = .windup)

instance (p q : SprintPhase) : Decidable (Legal p q) :=
  inferInstanceAs (Decidable (_ ∨ _ ∨ _ ∨ _))

/-- A move to the same phase or a later one, or back from DEGRADED to ACTIVE. -/
def Advances (p q : SprintPhase) : Prop :=
  p.index ≤ q.index ∨ (p = .degraded ∧ q = .active)

instance (p q : SprintPhase) : Decidable (Advances p q) :=
  inferInstanceAs (Decidable (_ ∨ _))

/-- The moves lead from `p` to `q`, each starting where the one before it ends, all legal. -/
def LegalPath : SprintPhase → List (SprintPhase × SprintPhase) → SprintPhase → Prop
  | p, [], q => p = q
  | p, (f, t) :: rest, q => f = p ∧ Legal f t ∧ LegalPath t rest q

theorem LegalPath.append {p q r : SprintPhase} {xs ys : List (SprintPhase × SprintPhase)}
    (hx : LegalPath p xs q) (hy : LegalPath q ys r) : LegalPath p (xs ++ ys) r := by
  induction xs generalizing p with
  | nil =>
    cases hx
    exact hy
  | cons m xs ih =>
    obtain ⟨hf, hl, hrest⟩ := hx
    exact ⟨hf, hl, ih hrest⟩

theorem advances_of_legal {p q : SprintPhase} (h : Legal p q) : Advances p q := by
  rcases h with h | rfl | ⟨rfl, rfl⟩ | ⟨rfl, rfl⟩
  · exact .inl (by omega)
  · exact .inl (by cases p <;> decide)
  · exact .inr ⟨rfl, rfl⟩
  · exact .inl (by decide)

theorem advances_trans {p q r : SprintPhase} (h : Advances p q) (h' : Advances q r) :
    Advances p r := by
  rcases h with h | ⟨rfl, rfl⟩
  · rcases h' with h' | ⟨rfl, rfl⟩
    · exact .inl (h.trans h')
    · cases p <;> first | decide | exact absurd h (by decide)
  · rcases h' with h' | ⟨h', _⟩
    · cases r <;> first | decide | exact absurd h' (by decide)
    · exact absurd h' (by decide)

theorem LegalPath.advances {p q : SprintPhase} {moves : List (SprintPhase × SprintPhase)}
    (h : LegalPath p moves q) : Advances p q := by
  induction moves generalizing p with
  | nil =>
    cases h
    exact .inl le_rfl
  | cons m moves ih =>
    obtain ⟨rfl, hl, hrest⟩ := h
    exact advances_trans (advances_of_legal hl) (ih hrest)

theorem LegalPath.legal {p q : SprintPhase} {moves : List (SprintPhase × SprintPhase)}
    (h : LegalPath p moves q) : ∀ m ∈ moves, Legal m.1 m.2 := by
  induction moves generalizing p with
  | nil => exact fun m hm => absurd hm List.not_mem_nil
  | cons m moves ih =>
    obtain ⟨_, hl, hrest⟩ := h
    intro m' hm'
    rcases List.mem_cons.1 hm' with rfl | hm'
    · exact hl
    · exact ih hrest m' hm'

theorem index_le_of_legal {p q : SprintPhase} (h : Legal p q) (hp : SprintPhase.windup.index ≤ p.index) :
    p.index ≤ q.index := by
  rcases advances_of_legal h with h | ⟨rfl, _⟩
  · exact h
  · exact absurd hp (by decide)

theorem ne_windup_of_legal {p q : SprintPhase} (h : Legal p q)
    (hp : SprintPhase.windup.index ≤ p.index) : q ≠ .windup := by
  rintro rfl
  cases p <;> revert hp h <;> decide

theorem LegalPath.of_windup_le {p q : SprintPhase} {moves : List (SprintPhase × SprintPhase)}
    (h : LegalPath p moves q) (hp : SprintPhase.windup.index ≤ p.index) :
    p.index ≤ q.index ∧ moves.countP (fun m => m.2 = .windup) = 0 := by
  induction moves generalizing p with
  | nil =>
    cases h
    exact ⟨le_rfl, rfl⟩
  | cons m moves ih =>
    obtain ⟨rfl, hl, hrest⟩ := h
    have hle := index_le_of_legal hl hp
    obtain ⟨h1, h2⟩ := ih hrest (hp.trans hle)
    refine ⟨hle.trans h1, ?_⟩
    rw [List.countP_cons, h2]
    simp [ne_windup_of_legal hl hp]

theorem LegalPath.countP_windup_le_one {p q : SprintPhase}
    {moves : List (SprintPhase × SprintPhase)} (h : LegalPath p moves q) :
    moves.countP (fun m => m.2 = .windup) ≤ 1 := by
  induction moves generalizing p with
  | nil => exact Nat.zero_le 1
  | cons m moves ih =>
    obtain ⟨rfl, hl, hrest⟩ := h
    rw [List.countP_cons]
    by_cases hw : m.2 = .windup
    · rw [(hrest.of_windup_le (by rw [hw])).2]
      simp [hw]
    · simpa [hw] using ih hrest

theorem LegalPath.eq_teardown {q : SprintPhase} {moves : List (SprintPhase × SprintPhase)}
    (h : LegalPath .teardown moves q) : q = .teardown := by
  have hle := (h.of_windup_le (by decide)).1
  cases q <;> first | rfl | exact absurd hle (by decide)

theorem eq_of_legal_windup {q : SprintPhase} (h : Legal .windup q) :
    q = .exportPhase ∨ q = .teardown := by
  cases q <;> revert h <;> decide

end SprintPhase

namespace SprintLifecycleManager

open SprintPhase

/-! ### What one operation does to the phase -/

/-- The operation went from `m` to `m'` along legal moves. -/
def Follows (m m' : SprintLifecycleManager) : Prop :=
  ∃ new, m'.moves = m.moves ++ new ∧ LegalPath m.currentPhase new m'.currentPhase

theorem follows_of_eq {m m' : SprintLifecycleManager} (hm : m'.moves = m.moves)
    (hp : m'.currentPhase = m.currentPhase) : Follows m m' :=
  ⟨[], by rw [hm, List.append_nil], hp.symm⟩

theorem Follows.trans {m₁ m₂ m₃ : SprintLifecycleManager} (h : Follows m₁ m₂)
    (h' : Follows m₂ m₃) : Follows m₁ m₃ := by
  obtain ⟨xs, hx, hpx⟩ := h
  obtain ⟨ys, hy, hpy⟩ := h'
  exact ⟨xs ++ ys, by rw [hy, hx, List.append_assoc], hpx.append hpy⟩

theorem follows_transitionToUnlocked (m : SprintLifecycleManager) {p : SprintPhase} (now : ℚ)
    (h : Legal m.currentPhase p) : Follows m (m.transitionToUnlocked p now) :=
  ⟨[(m.currentPhase, p)], rfl, rfl, h, rfl⟩

theorem legal_of_isValidTransition {p q : SprintPhase} (h : isValidTransition p q = true) :
    Legal p q := by
  unfold isValidTransition at h
  split at h
  · next ht => exact .inr (.inl ht)
  · exact .inl (by simpa using h)

theorem follows_transitionTo {m m' : SprintLifecycleManager} {p : SprintPhase} {now : ℚ}
    (h : m.transitionTo p now = .ok m') : Follows m m' := by
  unfold transitionTo at h
  split at h
  · cases h
  · split at h
    · next hp =>
      cases h
      exact follows_transitionToUnlocked m now (.inr (.inl hp.1))
    · split at h
      · next hv =>
        cases h
        exact follows_transitionToUnlocked m now (legal_of_isValidTransition hv)
      · cases h

theorem follows_markExportStarted {m m' : SprintLifecycleManager} {now : ℚ}
    (h : m.markExportStarted now = .ok m') : Follows m m' := by
  unfold markExportStarted at h
  split at h
  · cases h
  · next hp =>
    cases h
    have hw : m.currentPhase = .windup := not_not.1 hp
    exact ⟨[(m.currentPhase, .exportPhase)], rfl, rfl, by rw [hw]; decide, rfl⟩

theorem follows_markTeardownStarted {m m' : SprintLifecycleManager} {now : ℚ}
    (h : m.markTeardownStarted now = .ok m') : Follows m m' := by
  unfold markTeardownStarted at h
  split at h
  · cases h
  · cases h
    exact ⟨[(m.currentPhase, .teardown)], rfl, rfl, .inr (.inl rfl), rfl⟩

theorem follows_checkGovernorDegradedTransition (s : Surroundings) (m : SprintLifecycleManager) :
    Follows m (m.checkGovernorDegradedTransition s) := by
  unfold checkGovernorDegradedTransition
  split
  · next h =>
    unfold transitionToDegradedIfCritical
    split
    · exact ⟨[(m.currentPhase, .degraded)], rfl, rfl, by rw [h.1]; decide, rfl⟩
    · exact follows_of_eq rfl rfl
  · split
    · next h =>
      unfold checkGovernorRecovery
      split
      · exact ⟨[(m.currentPhase, .active)], rfl, rfl, by rw [h]; decide, rfl⟩
      · exact follows_of_eq rfl rfl
    · exact follows_of_eq rfl rfl

theorem follows_trackActivePhaseTime (now : ℚ) (m : SprintLifecycleManager) :
    Follows m (m.trackActivePhaseTime now) := by
  unfold trackActivePhaseTime
  split
  · split
    · exact follows_of_eq rfl rfl
    · exact follows_of_eq rfl rfl
  · split
    · exact follows_of_eq rfl rfl
    · exact follows_of_eq rfl rfl

theorem follows_checkWindupTransition (s : Surroundings) (m : SprintLifecycleManager) :
    Follows m (m.checkWindupTransition s) := by
  unfold checkWindupTransition
  split
  · exact follows_of_eq rfl rfl
  · next hp =>
    split
    · refine ⟨[(m.currentPhase, .windup)], rfl, rfl, ?_, rfl⟩
      rcases not_and_or.1 hp with h | h
      · rw [not_not.1 h]
        decide
      · rw [not_not.1 h]
        decide
    · exact follows_of_eq rfl rfl

theorem follows_lowerGovernorWindupIfExport (s : Surroundings) (m : SprintLifecycleManager) :
    Follows m (m.lowerGovernorWindupIfExport s) := by
  unfold lowerGovernorWindupIfExport
  split
  · exact follows_of_eq rfl rfl
  · exact follows_of_eq rfl rfl

theorem follows_tick (s : Surroundings) (m : SprintLifecycleManager) : Follows m (m.tick s) := by
  apply (follows_checkGovernorDegradedTransition s m).trans
  apply (follows_trackActivePhaseTime s.now _).trans
  apply (follows_checkWindupTransition s _).trans
  exact follows_lowerGovernorWindupIfExport s _

theorem follows_apply {m m' : SprintLifecycleManager} (hb : BootUntilStarted m) {op : Op}
    (h : m.apply op = .ok m') : Follows m m' := by
  cases op with
  | start now =>
    simp only [apply, start] at h
    split at h
    · cases h
    · next hs =>
      cases h
      have hboot := hb (by simpa using hs)
      exact ⟨[(m.currentPhase, .warmup)], rfl, rfl, by rw [hboot]; decide, rfl⟩
  | transitionTo p now => exact follows_transitionTo h
  | tick s =>
    cases h
    exact follows_tick s m
  | requestWindup now =>
    simp only [apply, requestWindup] at h
    split at h
    · cases h
      exact follows_of_eq rfl rfl
    · exact follows_transitionTo h
  | requestExport now =>
    simp only [apply, requestExport] at h
    split at h
    · cases h
      exact follows_of_eq rfl rfl
    · exact follows_markExportStarted h
  | requestTeardown now =>
    simp only [apply, requestTeardown] at h
    split at h
    · cases h
      exact follows_of_eq rfl rfl
    · exact follows_markTeardownStarted h
  | markExportStarted now => exact follows_markExportStarted h
  | markTeardownStarted now => exact follows_markTeardownStarted h
  | markWarmupDone now => exact follows_transitionTo h
  | requestAbort reason =>
    cases h
    exact follows_of_eq rfl rfl
  | setFirstCycleRan =>
    cases h
    exact follows_of_eq rfl rfl
  | setDeadlineExpiredPreCycle =>
    cases h
    exact follows_of_eq rfl rfl
  | setPreLoopCostS cost =>
    cases h
    exact follows_of_eq rfl rfl
  | setCognitiveSaturationDetector present =>
    cases h
    exact follows_of_eq rfl rfl

/-! ### Runs -/

theorem follows_step {m : SprintLifecycleManager} (hb : BootUntilStarted m) (op : Op) :
    Follows m (m.step op) :=
  step_of_apply (I := Follows m) (follows_of_eq rfl rfl) fun _ h => follows_apply hb h

theorem follows_run {m : SprintLifecycleManager} (hb : BootUntilStarted m) (ops : List Op) :
    Follows m (m.run ops) := by
  induction ops generalizing m with
  | nil => exact follows_of_eq rfl rfl
  | cons op ops ih => exact (follows_step hb op).trans (ih (bootUntilStarted_step hb op))

/-- Phases only advance along the run: seen from call to call, and in every single move the exit
callbacks are told of. WINDUP is entered at most once and left only to EXPORT or TEARDOWN, and
TEARDOWN is final. -/
structure OnlyAdvances (m : SprintLifecycleManager) (ops : List Op) : Prop where
  calls : ∀ pre mid, pre ++ mid <+: ops →
    Advances (m.run pre).currentPhase (m.run (pre ++ mid)).currentPhase
  moves : ∀ mv ∈ (m.run ops).moves, Advances mv.1 mv.2
  windup_once : (m.run ops).moves.countP (fun mv => mv.2 = .windup) ≤ 1
  windup_left : ∀ mv ∈ (m.run ops).moves, mv.1 = .windup → mv.2 = .exportPhase ∨ mv.2 = .teardown
  teardown : ∀ pre, pre <+: ops → (m.run pre).currentPhase = .teardown →
    (m.run ops).currentPhase = .teardown

/-- Every run of a fresh manager, over all operations, clock readings and governor answers, only
advances. -/
theorem onlyAdvances (sprintDurationS windupLeadS : ℚ) (ops : List Op) :
    OnlyAdvances (fresh sprintDurationS windupLeadS) ops := by
  set m := fresh sprintDurationS windupLeadS
  have hb : BootUntilStarted m := fun _ => rfl
  have hlater : ∀ pre mid, pre ++ mid <+: ops → Follows (m.run pre) (m.run (pre ++ mid)) := by
    intro pre mid _
    rw [show m.run (pre ++ mid) = (m.run pre).run mid from List.foldl_append]
    exact follows_run (bootUntilStarted_run hb pre) mid
  have hpath : LegalPath .boot (m.run ops).moves (m.run ops).currentPhase := by
    obtain ⟨new, hm, hp⟩ := follows_run hb ops
    rw [hm]
    exact hp
  refine ⟨?_, ?_, hpath.countP_windup_le_one, ?_, ?_⟩
  · intro pre mid h
    obtain ⟨_, _, hp⟩ := hlater pre mid h
    exact hp.advances
  · intro mv hmv
    exact advances_of_legal (hpath.legal mv hmv)
  · intro mv hmv hw
    have hl := hpath.legal mv hmv
    rw [hw] at hl
    exact eq_of_legal_windup hl
  · rintro pre ⟨rest, rfl⟩ ht
    obtain ⟨_, _, hp⟩ := hlater pre rest (List.prefix_refl _)
    rw [ht] at hp
    exact hp.eq_teardown

end SprintLifecycleManager

end Hledac.Runtime
