import Mathlib.Data.List.Infix
import Hledac.Transport.RegistryLock

/-!
# How often an outcome reaches Rust

`domain_breaker_record_success` and `domain_breaker_record_failure` hand an outcome to the breaker
object, which hands it to Rust, and then to Rust once more. Only where the registry lookup raises,
because the entry expires between two readings of the clock, is the first of the two left out.
-/

namespace Hledac.Transport.Registry

open Hledac.Lib Raising Hledac.Utils

variable {cfg : RegistryConfig} {clock : Nat → ℚ} {α β : Type}

/-! ### The objects in the cache -/

/-- The Rust backend is `r`, the lock is free or held as `held` says, and each cached object has
been built and carries the domain it is cached under. -/
structure Labelled (r : Option RustBackend) (held : Bool) (w : World) : Prop where
  rust : w.rust = r
  lockHeld : w.lockHeld = held
  built : ∀ e ∈ w.breakers.data, e.2.1 < w.nextObject
  labelled : ∀ e ∈ w.breakers.data, (w.objects e.2.1).fields.domain = e.1

section Objects

variable {r : Option RustBackend} {held : Bool}

/-- What a successful lookup of `d` gives. -/
def Found (d : String) (r : Option RustBackend) (held : Bool) (o : Nat) (w : World) : Prop :=
  Labelled r held w ∧ (w.objects o).fields.domain = d

/-- What a lookup of `d` that raises leaves: nothing is cached under `d`. -/
def Lost (d : String) (r : Option RustBackend) (held : Bool) (e : Raised) (w : World) : Prop :=
  e = .keyError d ∧ Labelled r held w ∧ d ∉ w.breakers.data.map Prod.fst

theorem Labelled.of_subset {w w' : World} (h : Labelled r held w) (hr : w'.rust = w.rust)
    (hl : w'.lockHeld = w.lockHeld) (ho : w'.objects = w.objects)
    (hn : w'.nextObject = w.nextObject) (hs : ∀ e ∈ w'.breakers.data, e ∈ w.breakers.data) :
    Labelled r held w' where
  rust := hr.trans h.rust
  lockHeld := hl.trans h.lockHeld
  built := fun e he => hn ▸ h.built e (hs e he)
  labelled := fun e he => ho ▸ h.labelled e (hs e he)

theorem ensures_monotonic {E : Raised → World → Prop} :
    Ensures (Labelled r held) (monotonic clock) (fun _ => Labelled r held) E :=
  ensures_of_returns fun _ h => ⟨_, _, rfl, h.of_subset rfl rfl rfl rfl fun _ he => he⟩

theorem ensures_getItem (d : String) :
    Ensures (Labelled r held) (getItem clock d) (Found d r held) (Lost d r held) := by
  intro w h
  obtain ⟨hsub, hres⟩ := PyCacheDict.get_cases w.breakers (clock w.ticks) d
  have hlook : exec (onBreakers clock fun now c => c.get now d) w =
      (.ok (w.breakers.get (clock w.ticks) d).1,
        { w with ticks := w.ticks + 1, breakers := (w.breakers.get (clock w.ticks) d).2 }) := rfl
  rw [getItem, exec_bind_ok hlook]
  cases hg : (w.breakers.get (clock w.ticks) d).1 with
  | none =>
    rw [hg] at hres
    exact ⟨rfl, h.of_subset rfl rfl rfl rfl hsub, hres⟩
  | some o =>
    rw [hg] at hres
    obtain ⟨t, ht⟩ := hres
    exact ⟨h.of_subset rfl rfl rfl rfl hsub, h.labelled _ ht⟩

theorem ensures_getEffectiveTtl {E : Raised → World → Prop} (d : String) :
    Ensures (Labelled r held) (getEffectiveTtl cfg clock d) (fun _ => Labelled r held) E := by
  unfold getEffectiveTtl
  split
  · exact ensures_pure fun _ h => h
  · have hrest : ∀ _ : PUnit, Ensures (Labelled r held) (do
        let elapsed := (← monotonic clock) - (← get).bootStartedAt
        pure (if elapsed < cfg.bootPhaseDurationS then cfg.bootRecoveryTimeoutS
          else cfg.baseRecoveryTimeoutS)) (fun _ => Labelled r held) E := by
      intro _
      apply ensures_monotonic.bind
      intro now
      apply (ensures_get (Q := fun _ => Labelled r held) fun _ h => h).bind
      intro w
      exact ensures_pure fun _ h => h
    apply (ensures_get (Q := fun _ => Labelled r held) fun _ h => h).bind
    intro w
    split
    · apply ensures_monotonic.bind
      intro now
      apply Ensures.bind _ hrest
      exact ensures_modify fun _ h => h.of_subset rfl rfl rfl rfl fun _ he => he
    · exact hrest ⟨⟩

theorem ensures_newBreaker {E : Raised → World → Prop} (d : String) (ttl : ℚ) :
    Ensures (Labelled r held) (newBreaker cfg clock d ttl)
      (fun o w => Labelled r held w ∧ o < w.nextObject ∧ (w.objects o).fields.domain = d) E := by
  apply ensures_of_returns
  intro w h
  refine ⟨_, _, rfl, ⟨h.rust, h.lockHeld, ?_, ?_⟩, Nat.lt_succ_self _, ?_⟩
  · intro e he
    exact Nat.lt_succ_of_lt (h.built e he)
  · intro e he
    have hne : e.2.1 ≠ w.nextObject := (h.built e he).ne
    simpa [Function.update_of_ne hne] using h.labelled e he
  · simp [CircuitBreaker.fresh]

theorem ensures_set {E : Raised → World → Prop} (d : String) (o : Nat) :
    Ensures (fun w => Labelled r held w ∧ o < w.nextObject ∧ (w.objects o).fields.domain = d)
      (onBreakers clock fun now c => ((), c.set now d o)) (fun _ => Labelled r held) E := by
  apply ensures_of_returns
  rintro w ⟨h, ho, hd⟩
  refine ⟨_, _, rfl, h.rust, h.lockHeld, ?_, ?_⟩
  · intro e he
    rcases PyCacheDict.mem_of_mem_set he with rfl | he
    · exact ho
    · exact h.built e he
  · intro e he
    rcases PyCacheDict.mem_of_mem_set he with rfl | he
    · exact hd
    · exact h.labelled e he

theorem Labelled.withLockHeld {w : World} (h : Labelled r held w) (held' : Bool) :
    Labelled r held' { w with lockHeld := held' } :=
  ⟨h.rust, rfl, h.built, h.labelled⟩

variable (cfg clock) in
theorem ensures_getBreaker (d : String) :
    Ensures (Labelled r false) (getBreaker cfg clock d) (Found d r false) (Lost d r false) := by
  apply ensures_withLock (H := Labelled r true) fun _ h => ⟨h.lockHeld, h.withLockHeld true⟩
  have hbody : Ensures (Labelled r true) (do
      if ← onBreakers clock fun now c => c.contains now d then getItem clock d
      else
        let ttl ← getEffectiveTtl cfg clock d
        let o ← newBreaker cfg clock d ttl
        onBreakers clock fun now c => ((), c.set now d o)
        getItem clock d) (Found d r true) (Lost d r true) := by
    apply Ensures.bind (R := fun _ => Labelled r true)
    · exact ensures_of_returns fun w h => ⟨_, _, rfl,
        h.of_subset rfl rfl rfl rfl fun _ he => PyCacheDict.mem_of_mem_contains he⟩
    · intro found
      split
      · exact ensures_getItem d
      · apply (ensures_getEffectiveTtl d).bind
        intro ttl
        apply (ensures_newBreaker d ttl).bind
        intro o
        exact (ensures_set d o).bind fun _ => ensures_getItem d
  exact hbody.imp (fun _ h => h) (fun _ _ h => ⟨h.1.withLockHeld false, h.2⟩)
    fun _ _ h => ⟨by simp [h.1], h.1, h.2.1.withLockHeld false, h.2.2⟩

theorem Labelled.update {w : World} (h : Labelled r held w) (o : Nat) (b : BreakerObject)
    (hb : b.fields.domain = (w.objects o).fields.domain) :
    Labelled r held { w with objects := Function.update w.objects o b } where
  rust := h.rust
  lockHeld := h.lockHeld
  built := h.built
  labelled := by
    intro e he
    by_cases heo : e.2.1 = o
    · simpa [heo, hb] using h.labelled e he
    · simpa [Function.update_of_ne heo] using h.labelled e he

theorem ensures_getPythonCb (o : Nat) :
    Ensures (Labelled r false) (getPythonCb cfg clock o) (fun _ => Labelled r false)
      (fun e w => e ≠ .deadlock ∧ Labelled r false w) := by
  apply Ensures.bind (R := fun _ => Labelled r false) (ensures_of_returns fun w h => ⟨_, w, rfl, h⟩)
  intro b
  split
  · exact ensures_pure fun _ h => h
  · apply Ensures.bind (R := fun _ => Labelled r false)
    · exact (ensures_getBreaker cfg clock b.fields.domain).imp (fun _ h => h) (fun _ _ h => h.1)
        fun e w h => ⟨by simp [h.1], h.2.1⟩
    · intro p
      apply Ensures.bind (R := fun _ => Labelled r false)
      · exact ensures_modify fun w h => h.update o _ rfl
      · exact fun _ => ensures_pure fun _ h => h

end Objects

/-! ### One reported outcome -/

/-- An outcome as a caller reports it. -/
inductive Report where
  | success
  | failure (isTimeout : Bool) (failureKind : String)
  deriving DecidableEq

/-- The public call that reports it. -/
def Report.call (d : String) : Report → Call
  | .success => .domainBreakerRecordSuccess d
  | .failure isTimeout kind => .domainBreakerRecordFailure d isTimeout kind

/-- What Rust is meant to receive. -/
def Report.outcome : Report → Outcome
  | .success => .success
  | .failure isTimeout _ => .failure isTimeout

/-- What the call runs on the breaker object. -/
private def Report.onObject (cfg : RegistryConfig) (clock : Nat → ℚ) (o : Nat) : Report → M PUnit
  | .success => recordSuccess cfg clock o
  | .failure isTimeout kind =>
    recordFailure cfg clock o
      { isTimeout, failureKind := if kind = "" then "fetch_error" else kind }

private theorem perform_call {d : String} (hd : d ≠ "") (p : Report) :
    perform cfg clock (p.call d) = (do
      exceptPass (do
        let o ← getBreaker cfg clock d
        p.onObject cfg clock o)
      rustReceive d p.outcome) := by
  cases p with
  | success =>
    simp only [Report.call, perform, domainBreakerRecordSuccess, rustCircuitRecord, if_neg hd]
    rfl
  | failure isTimeout kind =>
    simp only [Report.call, perform, domainBreakerRecordFailure, rustCircuitRecord, if_neg hd]
    rfl

private theorem domain_recordSuccess (cfg : CircuitConfig) (now : ℚ) (b : CircuitBreaker) :
    (b.recordSuccess cfg now).domain = b.domain := by
  unfold CircuitBreaker.recordSuccess
  split <;> rfl

private theorem domain_recordFailure (cfg : CircuitConfig) (now : ℚ) (f : CircuitBreaker.Failure)
    (b : CircuitBreaker) : (b.recordFailure cfg now f).domain = b.domain := by
  have hc : (b.countFailure cfg now f).domain = b.domain := by
    unfold CircuitBreaker.countFailure
    dsimp only
    split
    · split <;> rfl
    · rfl
  unfold CircuitBreaker.recordFailure
  split
  · rfl
  · unfold CircuitBreaker.tripOnThreshold
    dsimp only
    split
    · split
      · split <;> exact hc
      · split <;> exact hc
    · exact hc

variable (cfg clock) in
/-- The breaker object hands the outcome to Rust before anything in it can raise. -/
private theorem ensures_onObject {r : RustBackend} {d : String} (p : Report) (o : Nat) :
    Ensures (Found d (some r) false o) (p.onObject cfg clock o)
      (fun _ => Labelled (some (r.receive d p.outcome)) false)
      (fun e w => e ≠ .deadlock ∧ Labelled (some (r.receive d p.outcome)) false w) := by
  have hobj : Ensures (Found d (some r) false o) (objectAt o)
      (fun b w => Labelled (some r) false w ∧ b.fields.domain = d)
      (fun e w => e ≠ .deadlock ∧ Labelled (some (r.receive d p.outcome)) false w) :=
    ensures_of_returns fun w h => ⟨_, w, rfl, h⟩
  have hrust : ∀ b : BreakerObject,
      Ensures (fun w => Labelled (some r) false w ∧ b.fields.domain = d)
        (rustReceive b.fields.domain p.outcome)
        (fun _ => Labelled (some (r.receive d p.outcome)) false)
        (fun e w => e ≠ .deadlock ∧ Labelled (some (r.receive d p.outcome)) false w) := by
    intro b
    apply ensures_modify
    rintro w ⟨h, rfl⟩
    exact ⟨by rw [h.rust]; rfl, h.lockHeld, h.built, h.labelled⟩
  have hrest : ∀ f : ℚ → CircuitBreaker → CircuitBreaker, (∀ now c, (f now c).domain = c.domain) →
      Ensures (Labelled (some (r.receive d p.outcome)) false) (do
        let q ← getPythonCb cfg clock o
        let now ← monotonic clock
        modifyFields q (f now)) (fun _ => Labelled (some (r.receive d p.outcome)) false)
        (fun e w => e ≠ .deadlock ∧ Labelled (some (r.receive d p.outcome)) false w) := by
    intro f hf
    apply (ensures_getPythonCb o).bind
    intro q
    apply ensures_monotonic.bind
    intro now
    exact ensures_modify fun w h => h.update q _ (hf now _)
  cases p with
  | success =>
    exact hobj.bind fun b => (hrust b).bind fun _ =>
      hrest (fun now c => c.recordSuccess cfg.toCircuitConfig now) fun _ _ =>
        domain_recordSuccess _ _ _
  | failure isTimeout kind =>
    exact hobj.bind fun b => (hrust b).bind fun _ =>
      hrest (fun now c => c.recordFailure cfg.toCircuitConfig now _) fun _ _ =>
        domain_recordFailure _ _ _ _

/-- The registry lookup of `d` raises, because the entry expires under it. -/
def LookupRaises (cfg : RegistryConfig) (clock : Nat → ℚ) (d : String) (w : World) : Prop :=
  (exec (getBreaker cfg clock d) w).1.isOk = false

instance (d : String) (w : World) : Decidable (LookupRaises cfg clock d w) :=
  inferInstanceAs (Decidable (_ = false))

variable (cfg clock) in
theorem step_report {r : RustBackend} {d : String} (hd : d ≠ "") {w : World}
    (h : Labelled (some r) false w) (p : Report) :
    (LookupRaises cfg clock d w ∧
      Labelled (some (r.receive d p.outcome)) false (step cfg clock w (p.call d)) ∧
      d ∉ (step cfg clock w (p.call d)).breakers.data.map Prod.fst) ∨
    (¬ LookupRaises cfg clock d w ∧
      Labelled (some ((r.receive d p.outcome).receive d p.outcome)) false
        (step cfg clock w (p.call d))) := by
  have hlook := ensures_getBreaker cfg clock d w h
  rw [step, perform_call hd, LookupRaises]
  rcases hr : exec (getBreaker cfg clock d) w with ⟨e | o, w'⟩ <;> rw [hr] at hlook
  · obtain ⟨rfl, hl, hn⟩ := hlook
    have hx : exec (exceptPass (do
        let o ← getBreaker cfg clock d
        p.onObject cfg clock o)) w = (.ok ⟨⟩, w') := by
      rw [exceptPass, exec_tryCatch, exec_bind_error hr]
      rfl
    rw [exec_bind_ok hx]
    refine .inl ⟨rfl, ⟨?_, hl.lockHeld, hl.built, hl.labelled⟩, hn⟩
    exact congrArg (Option.map fun r => r.receive d p.outcome) hl.rust
  · have hobj := ensures_onObject cfg clock p o w' hlook
    obtain ⟨w'', hx, hl⟩ : ∃ w'', exec (exceptPass (do
        let o ← getBreaker cfg clock d
        p.onObject cfg clock o)) w = (.ok ⟨⟩, w'') ∧
        Labelled (some (r.receive d p.outcome)) false w'' := by
      rw [exceptPass, exec_tryCatch, exec_bind_ok hr]
      rcases hr' : exec (p.onObject cfg clock o) w' with ⟨e | a, w''⟩ <;> rw [hr'] at hobj
      · cases e with
        | keyError k => exact ⟨w'', rfl, hobj.2⟩
        | deadlock => exact absurd rfl hobj.1
      · exact ⟨w'', rfl, hobj⟩
    rw [exec_bind_ok hx]
    refine .inr ⟨by simp [Except.isOk, Except.toBool], ?_, hl.lockHeld, hl.built, hl.labelled⟩
    exact congrArg (Option.map fun r => r.receive d p.outcome) hl.rust

/-! ### A run of reports for one domain -/

/-- The state after one more report. -/
def reportStep (cfg : RegistryConfig) (clock : Nat → ℚ) (d : String) (w : World) (p : Report) :
    World :=
  step cfg clock w (p.call d)

/-- The state after the reports, from a fresh registry and a fresh Rust backend. -/
def afterReports (cfg : RegistryConfig) (clock : Nat → ℚ) (d : String) (reports : List Report) :
    World :=
  reports.foldl (reportStep cfg clock d) (.initial cfg (some .empty))

/-- The Rust backend of a state. -/
def rustOf (w : World) : RustBackend := w.rust.getD .empty

/-- The number of failures since the last success. -/
def failuresSinceSuccess (reports : List Report) : Nat :=
  reports.foldl (fun n p => match p with | .success => 0 | .failure _ _ => n + 1) 0

/-- The Python half of the breaker cached for `d` is OPEN. -/
def PythonOpen (d : String) (w : World) : Prop :=
  ∃ e ∈ w.breakers.data, e.1 = d ∧
    (w.objects ((w.objects e.2.1).pythonCb.getD e.2.1)).fields.state = .opened

/-- Rust receives the reported outcomes, each once and in order. So its failure count is the number
of failures since the last success, and under equal thresholds both backends are tripped by the
same reports. -/
structure ReachesRustOnce (cfg : RegistryConfig) (clock : Nat → ℚ) (d : String)
    (reports : List Report) : Prop where
  received : (rustOf (afterReports cfg clock d reports)).receivedFor d =
    reports.map Report.outcome
  failureCount : ∀ pre, pre <+: reports →
    ((rustOf (afterReports cfg clock d pre)).stateOf d).failureCount.toNat =
      failuresSinceSuccess pre
  trips : DomainState.failureThreshold.toNat = cfg.circuitFailureThreshold →
    ∀ pre, pre <+: reports →
      (((rustOf (afterReports cfg clock d pre)).stateOf d).state = .opened ↔
        PythonOpen d (afterReports cfg clock d pre))

theorem labelled_initial (r : Option RustBackend) : Labelled r false (.initial cfg r) :=
  ⟨rfl, rfl, fun _ he => absurd he List.not_mem_nil, fun _ he => absurd he List.not_mem_nil⟩

theorem afterReports_concat (d : String) (reports : List Report) (p : Report) :
    afterReports cfg clock d (reports ++ [p]) =
      reportStep cfg clock d (afterReports cfg clock d reports) p := by
  simp [afterReports, List.foldl_append]

theorem labelled_afterReports {d : String} (hd : d ≠ "") (reports : List Report) :
    Labelled (some (rustOf (afterReports cfg clock d reports))) false
      (afterReports cfg clock d reports) := by
  induction reports using List.reverseRecOn with
  | nil => exact labelled_initial _
  | append_singleton reports p ih =>
    rw [afterReports_concat]
    rcases step_report cfg clock hd ih p with ⟨_, h, _⟩ | ⟨_, h⟩
    · rwa [reportStep, rustOf, h.rust]
    · rwa [reportStep, rustOf, h.rust]

variable (cfg clock) in
theorem rustOf_concat {d : String} (hd : d ≠ "") (reports : List Report) (p : Report) :
    let r := rustOf (afterReports cfg clock d reports)
    let w := afterReports cfg clock d (reports ++ [p])
    (LookupRaises cfg clock d (afterReports cfg clock d reports) ∧
      rustOf w = r.receive d p.outcome ∧ d ∉ w.breakers.data.map Prod.fst) ∨
    (¬ LookupRaises cfg clock d (afterReports cfg clock d reports) ∧
      rustOf w = (r.receive d p.outcome).receive d p.outcome) := by
  intro r w
  have hw : w = reportStep cfg clock d (afterReports cfg clock d reports) p :=
    afterReports_concat d reports p
  rcases step_report cfg clock hd (labelled_afterReports hd reports) p with
    ⟨hl, h, hn⟩ | ⟨hl, h⟩
  · exact .inl ⟨hl, by rw [hw, reportStep, rustOf, h.rust]; rfl, by rw [hw]; exact hn⟩
  · exact .inr ⟨hl, by rw [hw, reportStep, rustOf, h.rust]; rfl⟩

theorem length_receivedFor {d : String} (hd : d ≠ "") (reports : List Report) :
    let received := (rustOf (afterReports cfg clock d reports)).receivedFor d
    reports.length ≤ received.length ∧ (received.length = reports.length →
      StepsMeet (reportStep cfg clock d) (fun w _ => LookupRaises cfg clock d w)
        (.initial cfg (some .empty)) reports) := by
  induction reports using List.reverseRecOn with
  | nil => exact ⟨Nat.zero_le _, fun _ => trivial⟩
  | append_singleton reports p ih =>
    obtain ⟨hle, heq⟩ := ih
    rcases rustOf_concat cfg clock hd reports p with ⟨hl, hr, _⟩ | ⟨_, hr⟩
    · simp only [hr, RustBackend.receivedFor_receive, List.length_append, List.length_singleton]
      refine ⟨by omega, fun h => stepsMeet_concat.2 ⟨heq (by omega), hl⟩⟩
    · simp only [hr, RustBackend.receivedFor_receive, List.length_append, List.length_singleton]
      exact ⟨by omega, fun h => by omega⟩

theorem rustOf_afterReports {d : String} (hd : d ≠ "") {reports : List Report}
    (h : StepsMeet (reportStep cfg clock d) (fun w _ => LookupRaises cfg clock d w)
      (.initial cfg (some .empty)) reports) :
    (rustOf (afterReports cfg clock d reports)).receivedFor d = reports.map Report.outcome ∧
      (rustOf (afterReports cfg clock d reports)).stateOf d =
        (reports.map Report.outcome).foldl DomainState.record {} ∧
      d ∉ (afterReports cfg clock d reports).breakers.data.map Prod.fst := by
  induction reports using List.reverseRecOn with
  | nil => exact ⟨rfl, rfl, List.not_mem_nil⟩
  | append_singleton reports p ih =>
    obtain ⟨hpre, hlast⟩ := stepsMeet_concat.1 h
    obtain ⟨hrec, hst, _⟩ := ih hpre
    rcases rustOf_concat cfg clock hd reports p with ⟨_, hr, hn⟩ | ⟨hl, _⟩
    · refine ⟨?_, ?_, hn⟩
      · rw [hr, RustBackend.receivedFor_receive, hrec, List.map_append, List.map_singleton]
      · rw [hr, RustBackend.stateOf_receive _ hd, hst, List.map_append, List.foldl_append]
        rfl
    · exact absurd hlast hl

/-! ### The count and the state in Rust -/

@[simp] theorem failuresSinceSuccess_concat (reports : List Report) (p : Report) :
    failuresSinceSuccess (reports ++ [p]) =
      match p with | .success => 0 | .failure _ _ => failuresSinceSuccess reports + 1 := by
  simp [failuresSinceSuccess, List.foldl_append]

/-- The domain state after the outcomes of the reports, each received once. -/
def domainState (reports : List Report) : DomainState :=
  (reports.map Report.outcome).foldl DomainState.record {}

theorem domainState_concat (reports : List Report) (p : Report) :
    domainState (reports ++ [p]) = (domainState reports).record p.outcome := by
  simp [domainState, List.map_append, List.foldl_append]

theorem recordFailure_eq (s : DomainState) (isTimeout : Bool) :
    s.recordFailure isTimeout =
      { s with
        failureCount := s.failureCount + 1
        state := if DomainState.failureThreshold ≤ s.failureCount + 1 then .opened else s.state } := by
  have hboth : s.recordFailure isTimeout =
      if DomainState.failureThreshold ≤ s.failureCount + 1 then
        { s with failureCount := s.failureCount + 1, state := .opened }
      else { s with failureCount := s.failureCount + 1 } := by
    cases isTimeout <;> rfl
  rw [hboth]
  split <;> rfl

theorem toNat_failureCount_domainState {reports : List Report}
    (h : ∀ pre, pre <+: reports → failuresSinceSuccess pre < 2 ^ 32) :
    (domainState reports).failureCount.toNat = failuresSinceSuccess reports := by
  induction reports using List.reverseRecOn with
  | nil => rfl
  | append_singleton reports p ih =>
    have hpre := ih fun pre hp => h pre (hp.trans (List.prefix_append reports [p]))
    have hlast := h _ (List.prefix_refl _)
    rw [domainState_concat]
    rw [failuresSinceSuccess_concat] at hlast ⊢
    cases p with
    | success => rfl
    | failure isTimeout kind =>
      simp only [Report.outcome, DomainState.record, recordFailure_eq, UInt32.toNat_add, hpre]
      exact Nat.mod_eq_of_lt hlast

theorem state_domainState_ne_opened {reports : List Report}
    (h : ∀ pre, pre <+: reports → failuresSinceSuccess pre < 5) :
    (domainState reports).state ≠ .opened := by
  induction reports using List.reverseRecOn with
  | nil => exact fun h => nomatch h
  | append_singleton reports p ih =>
    have hsub : ∀ pre, pre <+: reports → failuresSinceSuccess pre < 5 := fun pre hp =>
      h pre (hp.trans (List.prefix_append reports [p]))
    have hcount := toNat_failureCount_domainState fun pre hp =>
      (h pre hp).trans (by decide : 5 < 2 ^ 32)
    have hlast := h _ (List.prefix_refl _)
    rw [← hcount, domainState_concat] at hlast
    rw [domainState_concat]
    cases p with
    | success => exact fun h => nomatch h
    | failure isTimeout kind =>
      simp only [Report.outcome, DomainState.record, recordFailure_eq] at hlast ⊢
      rw [if_neg]
      · exact ih hsub
      · rw [UInt32.le_iff_toNat_le]
        exact Nat.not_le.2 hlast

theorem state_domainState_of_five {reports : List Report}
    (hcount : (domainState reports).failureCount.toNat = failuresSinceSuccess reports)
    (h : 5 ≤ failuresSinceSuccess reports) : (domainState reports).state = .opened := by
  induction reports using List.reverseRecOn with
  | nil => simp [failuresSinceSuccess] at h
  | append_singleton reports p _ =>
    rw [domainState_concat] at hcount ⊢
    cases p with
    | success => simp at h
    | failure isTimeout kind =>
      simp only [Report.outcome, DomainState.record, recordFailure_eq] at hcount ⊢
      rw [if_pos]
      rw [UInt32.le_iff_toNat_le, hcount]
      exact h

/-! ### When each outcome reaches Rust once -/

theorem not_pythonOpen_of_notMem {d : String} {w : World}
    (h : d ∉ w.breakers.data.map Prod.fst) : ¬ PythonOpen d w := by
  rintro ⟨e, he, rfl, _⟩
  exact h (List.mem_map_of_mem he)

/-- Each reported outcome reaches Rust exactly once, with the counts and the trips that follow, only
where every registry lookup raises. Then no breaker is ever cached, so under equal thresholds the
reports must also stay short of tripping Rust. -/
theorem reachesRustOnce_iff (cfg : RegistryConfig) (clock : Nat → ℚ) (d : String) (hd : d ≠ "")
    (reports : List Report) :
    ReachesRustOnce cfg clock d reports ↔
      StepsMeet (reportStep cfg clock d) (fun w _ => LookupRaises cfg clock d w)
        (.initial cfg (some .empty)) reports ∧
      ∀ pre, pre <+: reports → failuresSinceSuccess pre < 2 ^ 32 ∧
        (cfg.circuitFailureThreshold = 5 → failuresSinceSuccess pre < 5) := by
  constructor
  · intro h
    have hraise : StepsMeet (reportStep cfg clock d) (fun w _ => LookupRaises cfg clock d w)
        (.initial cfg (some .empty)) reports :=
      (length_receivedFor hd reports).2 (by rw [h.received, List.length_map])
    refine ⟨hraise, fun pre hp => ?_⟩
    obtain ⟨rest, rfl⟩ := hp
    have hpre := rustOf_afterReports hd (stepsMeet_append.1 hraise).1
    have hcount := h.failureCount pre (List.prefix_append pre rest)
    refine ⟨hcount ▸ UInt32.toNat_lt _, fun hth => ?_⟩
    by_contra hge
    have hopen := (h.trips hth.symm pre (List.prefix_append pre rest)).1 (by
      rw [hpre.2.1] at hcount ⊢
      exact state_domainState_of_five hcount (Nat.le_of_not_lt hge))
    exact not_pythonOpen_of_notMem hpre.2.2 hopen
  · rintro ⟨hraise, hbound⟩
    have hpre : ∀ pre, pre <+: reports →
        (rustOf (afterReports cfg clock d pre)).stateOf d = domainState pre ∧
          ¬ PythonOpen d (afterReports cfg clock d pre) := by
      rintro pre ⟨rest, rfl⟩
      have hp := rustOf_afterReports hd (stepsMeet_append.1 hraise).1
      exact ⟨hp.2.1, not_pythonOpen_of_notMem hp.2.2⟩
    refine ⟨(rustOf_afterReports hd hraise).1, fun pre hp => ?_, fun hth pre hp => ?_⟩
    · rw [(hpre pre hp).1]
      exact toNat_failureCount_domainState fun pre' hp' => (hbound pre' (hp'.trans hp)).1
    · rw [(hpre pre hp).1]
      apply iff_of_false _ (hpre pre hp).2
      exact state_domainState_ne_opened fun pre' hp' =>
        (hbound pre' (hp'.trans hp)).2 hth.symm

/-- On a clock that jumps past the time to live between any two readings, every lookup raises. -/
theorem reachesRustOnce_jumping_clock :
    "a.example" ≠ "" ∧ ReachesRustOnce .default (fun n => 1000 * n) "a.example"
      [.failure false "", .success, .failure true "timeout"] := by
  refine ⟨by decide, (reachesRustOnce_iff .default (fun n => 1000 * n) "a.example" (by decide) _).2
    ⟨by decide +kernel, fun pre hp => ?_⟩⟩
  have hpre : pre ∈ [.failure false "", .success, .failure true "timeout"].inits :=
    (List.mem_inits _ _).2 hp
  have hle : ∀ pre ∈ [Report.failure false "", .success, .failure true "timeout"].inits,
      failuresSinceSuccess pre ≤ 1 := by decide +kernel
  have := hle pre hpre
  exact ⟨by omega, fun _ => by omega⟩

/-- One reported failure reaches Rust twice. -/
theorem not_reachesRustOnce_one_failure :
    ¬ ReachesRustOnce .default (fun n => n) "a.example" [.failure false ""] := by
  intro h
  exact absurd h.received (by decide +kernel)

end Hledac.Transport.Registry
