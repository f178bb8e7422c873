import Hledac.Transport.BreakerRegistry

/-!
# Which calls block on the registry lock

A call blocks for ever when it asks for `_breakers_lock` while it holds it. Three calls read
breaker objects under the lock, and an object that has not found its Python half yet looks it up
through `get_breaker`, which takes the lock again. Whether an object has found it depends on the
whole history of calls, expiries and evictions, and the condition below reads it off the state
before the call.
-/

namespace Hledac.Transport.Registry

open Hledac.Lib Raising Hledac.Utils

variable {cfg : RegistryConfig} {clock : Nat → ℚ} {α β : Type}

/-- Started with the lock free, or held, as `held` says, `x` does not block and leaves the lock as
it was. -/
abbrev Keeps (held : Bool) (x : M α) : Prop :=
  Ensures (fun w => w.lockHeld = held) x (fun _ w => w.lockHeld = held)
    (fun e w => e ≠ .deadlock ∧ w.lockHeld = held)

section Rules

variable {held : Bool}

theorem keeps_of_returns {x : M α}
    (h : ∀ w, ∃ a w', exec x w = (.ok a, w') ∧ w'.lockHeld = w.lockHeld) : Keeps held x :=
  ensures_of_returns fun w hw => by
    obtain ⟨a, w', hx, hl⟩ := h w
    exact ⟨a, w', hx, hl.trans hw⟩

theorem keeps_pure (a : α) : Keeps held (pure a) :=
  ensures_pure fun _ hw => hw

theorem keeps_throw (d : String) : Keeps held (throw (.keyError d) : M α) :=
  ensures_throw fun _ hw => ⟨by simp, hw⟩

theorem keeps_get : Keeps held (get : M World) :=
  ensures_get fun _ hw => hw

theorem keeps_modify {f : World → World} (h : ∀ w, (f w).lockHeld = w.lockHeld) :
    Keeps held (modify f : M PUnit) :=
  ensures_modify fun w hw => (h w).trans hw

theorem keeps_exceptPass {x : M PUnit} (hx : Keeps held x) : Keeps held (exceptPass x) := by
  apply Ensures.tryCatch hx
  intro e
  cases e with
  | keyError d => exact ensures_pure fun _ h => h.2
  | deadlock => exact ensures_throw fun _ h => absurd rfl h.1

end Rules

theorem exec_withLock (body : M α) {w : World} (hw : w.lockHeld = false) :
    exec (withLock body) w = match exec body { w with lockHeld := true } with
      | (.ok a, w') => (.ok a, { w' with lockHeld := false })
      | (.error (.keyError d), w') => (.error (.keyError d), { w' with lockHeld := false })
      | (.error .deadlock, w') => (.error .deadlock, w') := by
  simp only [withLock, exec_bind, exec_get, hw, Bool.false_eq_true, if_false, exec_modify,
    exec_tryCatch]
  rcases exec body { w with lockHeld := true } with ⟨e | a, w'⟩
  · cases e <;> rfl
  · rfl

theorem exec_withLock_of_held (body : M α) {w : World} (hw : w.lockHeld = true) :
    exec (withLock body) w = (.error .deadlock, w) := by
  simp only [withLock, exec_bind, exec_get, hw]
  rfl

theorem ensures_withLock {P H : World → Prop} {body : M α} {Q : α → World → Prop}
    {E : Raised → World → Prop}
    (hp : ∀ w, P w → w.lockHeld = false ∧ H { w with lockHeld := true })
    (h : Ensures H body (fun a w => Q a { w with lockHeld := false })
      (fun e w => e ≠ .deadlock ∧ E e { w with lockHeld := false })) :
    Ensures P (withLock body) Q E := by
  intro w hw
  have hb := h _ (hp w hw).2
  rw [exec_withLock body (hp w hw).1]
  rcases hr : exec body { w with lockHeld := true } with ⟨e | a, w'⟩
  · rw [hr] at hb
    cases e with
    | keyError d => exact hb.2
    | deadlock => exact absurd rfl hb.1
  · rw [hr] at hb
    exact hb

theorem keeps_withLock {body : M α} (h : Keeps true body) : Keeps false (withLock body) :=
  ensures_withLock (H := fun w => w.lockHeld = true) (fun _ hw => ⟨hw, rfl⟩)
    (h.imp (fun _ hw => hw) (fun _ _ _ => rfl) fun _ _ he => ⟨he.1, he.1, rfl⟩)

/-! ### Calls that take the lock once at a time -/

section Frames

variable {held : Bool}

theorem keeps_monotonic : Keeps held (monotonic clock) :=
  keeps_of_returns fun _ => ⟨_, _, rfl, rfl⟩

theorem keeps_onBreakers (f : ℚ → PyCacheDict String Nat → α × PyCacheDict String Nat) :
    Keeps held (onBreakers clock f) :=
  keeps_of_returns fun _ => ⟨_, _, rfl, rfl⟩

theorem keeps_getItem (d : String) : Keeps held (getItem clock d) := by
  apply Ensures.bind (keeps_onBreakers _)
  intro r
  cases r with
  | none => exact keeps_throw d
  | some o => exact keeps_pure o

theorem keeps_getEffectiveTtl (d : String) : Keeps held (getEffectiveTtl cfg clock d) := by
  unfold getEffectiveTtl
  split
  · exact keeps_pure _
  · apply Ensures.bind keeps_get
    intro w
    have hrest : ∀ _ : PUnit, Keeps held (do
        let elapsed := (← monotonic clock) - (← get).bootStartedAt
        pure (if elapsed < cfg.bootPhaseDurationS then cfg.bootRecoveryTimeoutS
          else cfg.baseRecoveryTimeoutS)) := fun _ =>
      Ensures.bind keeps_monotonic fun _ => Ensures.bind keeps_get fun _ => keeps_pure _
    split
    · exact Ensures.bind keeps_monotonic fun _ =>
        Ensures.bind (keeps_modify fun _ => rfl) hrest
    · exact hrest ⟨⟩

theorem keeps_newBreaker (d : String) (ttl : ℚ) : Keeps held (newBreaker cfg clock d ttl) :=
  keeps_of_returns fun _ => ⟨_, _, rfl, rfl⟩

theorem keeps_objectAt (o : Nat) : Keeps held (objectAt o) :=
  keeps_of_returns fun _ => ⟨_, _, rfl, rfl⟩

theorem keeps_modifyFields (o : Nat) (f : CircuitBreaker → CircuitBreaker) :
    Keeps held (modifyFields o f) :=
  keeps_modify fun _ => rfl

theorem keeps_rustReceive (d : String) (o : Outcome) : Keeps held (rustReceive d o) :=
  keeps_modify fun _ => rfl

end Frames

theorem keeps_getBreaker (d : String) : Keeps false (getBreaker cfg clock d) := by
  apply keeps_withLock
  apply Ensures.bind (keeps_onBreakers _)
  intro found
  split
  · exact keeps_getItem d
  · apply Ensures.bind (keeps_getEffectiveTtl d)
    intro ttl
    apply Ensures.bind (keeps_newBreaker d ttl)
    intro o
    exact Ensures.bind (keeps_onBreakers _) fun _ => keeps_getItem d

theorem keeps_getPythonCb (o : Nat) : Keeps false (getPythonCb cfg clock o) := by
  apply Ensures.bind (keeps_objectAt o)
  intro b
  split
  · exact keeps_pure _
  · apply Ensures.bind (keeps_getBreaker _)
    intro p
    exact Ensures.bind (keeps_modify fun _ => rfl) fun _ => keeps_pure p

theorem keeps_recordSuccess (o : Nat) : Keeps false (recordSuccess cfg clock o) := by
  apply Ensures.bind (keeps_objectAt o)
  intro b
  apply Ensures.bind (keeps_rustReceive _ _)
  intro _
  apply Ensures.bind (keeps_getPythonCb o)
  intro p
  exact Ensures.bind keeps_monotonic fun _ => keeps_modifyFields p _

theorem keeps_recordFailure (o : Nat) (f : CircuitBreaker.Failure) :
    Keeps false (recordFailure cfg clock o f) := by
  apply Ensures.bind (keeps_objectAt o)
  intro b
  have hrest : ∀ _ : PUnit, Keeps false (do
      let p ← getPythonCb cfg clock o
      let now ← monotonic clock
      modifyFields p fun c => c.recordFailure cfg.toCircuitConfig now f) := fun _ =>
    Ensures.bind (keeps_getPythonCb o) fun p =>
      Ensures.bind keeps_monotonic fun _ => keeps_modifyFields p _
  cases f.isWarmup with
  | true => exact hrest ⟨⟩
  | false => exact Ensures.bind (keeps_rustReceive _ _) hrest

theorem keeps_checkCircuit (draw : ℚ) (o : Nat) : Keeps false (checkCircuit cfg clock draw o) := by
  apply Ensures.bind (keeps_getPythonCb o)
  intro p
  apply Ensures.bind keeps_monotonic
  intro now
  apply Ensures.bind (keeps_objectAt p)
  intro b
  exact Ensures.bind (keeps_modifyFields p _) fun _ => keeps_pure _

theorem keeps_getState (o : Nat) : Keeps false (getState cfg clock o) :=
  Ensures.bind (keeps_getPythonCb o) fun p => Ensures.bind (keeps_objectAt p) fun _ => keeps_pure _

theorem keeps_statesOf (domains : List String) : Keeps false (statesOf cfg clock domains) := by
  induction domains with
  | nil => exact keeps_pure []
  | cons d rest ih =>
    apply Ensures.bind (keeps_onBreakers _)
    intro found
    split
    · apply Ensures.bind (keeps_getItem d)
      intro o
      apply Ensures.bind (keeps_getState o)
      intro state
      exact Ensures.bind ih fun _ => keeps_pure _
    · exact ih

theorem keeps_getAllBreakerStates : Keeps false (getAllBreakerStates cfg clock) :=
  Ensures.bind (keeps_withLock (keeps_onBreakers _)) fun _ => keeps_statesOf _

theorem keeps_clearAllBreakers : Keeps false clearAllBreakers :=
  Ensures.bind (keeps_withLock (keeps_modify fun _ => rfl)) fun _ => keeps_modify fun _ => rfl

theorem keeps_domainBreakerCheck (d : String) (answer : Option Bool) (draw : ℚ) :
    Keeps false (domainBreakerCheck cfg clock d answer draw) := by
  unfold domainBreakerCheck
  split
  · exact keeps_pure _
  · apply Ensures.bind (Ensures.bind keeps_get fun _ => keeps_pure _)
    intro r
    split
    · exact keeps_pure _
    · apply Ensures.bind (keeps_getBreaker d)
      intro o
      apply Ensures.bind (keeps_objectAt o)
      intro b
      dsimp only
      split
      · exact keeps_pure _
      · exact keeps_pure _
    · exact Ensures.bind (keeps_getBreaker d) fun o => keeps_checkCircuit draw o

theorem keeps_rustCircuitRecord (d : String) (o : Outcome) :
    Keeps false (rustCircuitRecord d o) := by
  unfold rustCircuitRecord
  split
  · exact keeps_pure _
  · exact keeps_rustReceive d o

theorem keeps_domainBreakerRecordSuccess (d : String) :
    Keeps false (domainBreakerRecordSuccess cfg clock d) := by
  unfold domainBreakerRecordSuccess
  by_cases hd : d = ""
  · rw [if_pos hd]
    exact keeps_pure _
  · rw [if_neg hd]
    apply Ensures.bind _ fun _ => keeps_rustCircuitRecord d _
    exact keeps_exceptPass (Ensures.bind (keeps_getBreaker d) fun o => keeps_recordSuccess o)

theorem keeps_domainBreakerRecordFailure (d : String) (isTimeout : Bool) (kind : String) :
    Keeps false (domainBreakerRecordFailure cfg clock d isTimeout kind) := by
  unfold domainBreakerRecordFailure
  by_cases hd : d = ""
  · rw [if_pos hd]
    exact keeps_pure _
  · rw [if_neg hd]
    apply Ensures.bind _ fun _ => keeps_rustCircuitRecord d _
    exact keeps_exceptPass (Ensures.bind (keeps_getBreaker d) fun o => keeps_recordFailure o _)

/-! ### Calls that read breaker objects under the lock -/

/-- The object has not found its Python half. -/
def Unresolved (w : World) (o : Nat) : Prop := (w.objects o).pythonCb = none

instance (w : World) (o : Nat) : Decidable (Unresolved w o) :=
  inferInstanceAs (Decidable (_ = none))

/-- `x` reads the object `o`: where `o` has found its Python half it returns and writes nothing,
otherwise it asks for the lock first. -/
def Reads (x : M α) (o : Nat) : Prop :=
  ∀ w : World, (¬ Unresolved w o → ∃ a, exec x w = (.ok a, w)) ∧
    (Unresolved w o → w.lockHeld = true → exec x w = (.error .deadlock, w))

theorem reads_getPythonCb (o : Nat) : Reads (getPythonCb cfg clock o) o := by
  intro w
  have hobj : exec (objectAt o) w = (.ok (w.objects o), w) := rfl
  rw [getPythonCb, exec_bind_ok hobj]
  constructor
  · intro hr
    obtain ⟨p, hp⟩ := Option.ne_none_iff_exists'.1 hr
    exact ⟨p, by rw [hp]; rfl⟩
  · intro hr hw
    rw [hr]
    exact exec_bind_error (exec_withLock_of_held _ hw)

theorem Reads.bind {x : M α} {o : Nat} (h : Reads x o) {f : α → M β}
    (hf : ∀ a w, ∃ b, exec (f a) w = (.ok b, w)) : Reads (x >>= f) o := by
  intro w
  constructor
  · intro hr
    obtain ⟨a, ha⟩ := (h w).1 hr
    rw [exec_bind_ok ha]
    exact hf a w
  · intro hr hw
    exact exec_bind_error ((h w).2 hr hw)

variable (cfg clock) in
theorem reads_snapshotOf (o : Nat) : Reads (snapshotOf cfg clock o) o := by
  intro w
  have hobj : exec (objectAt o) w = (.ok (w.objects o), w) := rfl
  rw [snapshotOf, exec_bind_ok hobj]
  exact (reads_getPythonCb o).bind (fun _ _ => ⟨_, rfl⟩) w

theorem reads_statsOf (o : Nat) : Reads (statsOf cfg clock o) o :=
  ((reads_getPythonCb o).bind fun _ _ => ⟨_, rfl⟩).bind fun _ _ => ⟨_, rfl⟩

theorem exec_mapM_reads {x : β → M α} {f : β → Nat} (hx : ∀ b, Reads (x b) (f b))
    (bs : List β) {w : World} (hw : w.lockHeld = true) :
    ((∃ b ∈ bs, Unresolved w (f b)) → exec (bs.mapM x) w = (.error .deadlock, w)) ∧
    ((∀ b ∈ bs, ¬ Unresolved w (f b)) → ∃ as, exec (bs.mapM x) w = (.ok as, w)) := by
  induction bs with
  | nil => exact ⟨fun h => by simp at h, fun _ => ⟨[], by simp⟩⟩
  | cons b bs ih =>
    rw [List.mapM_cons]
    by_cases hb : Unresolved w (f b)
    · constructor
      · intro _
        exact exec_bind_error ((hx b w).2 hb hw)
      · intro h
        exact absurd hb (h b List.mem_cons_self)
    · obtain ⟨a, ha⟩ := (hx b w).1 hb
      rw [exec_bind_ok ha]
      constructor
      · intro h
        apply exec_bind_error
        apply ih.1
        simpa [hb] using h
      · intro h
        obtain ⟨as, has⟩ := ih.2 fun c hc => h c (List.mem_cons_of_mem b hc)
        rw [exec_bind_ok has]
        exact ⟨a :: as, rfl⟩

/-- The call reads, under the lock, an object that has not found its Python half: the live entry of
its domain, or some live entry. -/
def ReadsUnresolved (clock : Nat → ℚ) (w : World) : Call → Prop
  | .getSnapshot d => ∃ o ∈ (w.breakers.get (clock w.ticks) d).1, Unresolved w o
  | .getAllBreakerSnapshots => ∃ o ∈ (w.breakers.values (clock w.ticks)).1, Unresolved w o
  | .perDomainStats => ∃ e ∈ (w.breakers.items (clock w.ticks)).1, Unresolved w e.2
  | _ => False

instance (w : World) : ∀ c, Decidable (ReadsUnresolved clock w c)
  | .getSnapshot _ => inferInstanceAs (Decidable (∃ _ ∈ _, _))
  | .getAllBreakerSnapshots => inferInstanceAs (Decidable (∃ _ ∈ _, _))
  | .perDomainStats => inferInstanceAs (Decidable (∃ _ ∈ _, _))
  | .getBreaker _ => inferInstanceAs (Decidable False)
  | .domainBreakerCheck _ _ _ => inferInstanceAs (Decidable False)
  | .domainBreakerRecordSuccess _ => inferInstanceAs (Decidable False)
  | .domainBreakerRecordFailure _ _ _ => inferInstanceAs (Decidable False)
  | .getAllBreakerStates => inferInstanceAs (Decidable False)
  | .clearAllBreakers => inferInstanceAs (Decidable False)

/-- A call started with the lock free: it blocks exactly when `p` holds, and otherwise gives the
lock back. -/
def BlocksWhen (x : M α) (w : World) (p : Prop) : Prop :=
  ((exec x w).1 = .error .deadlock ↔ p) ∧ (¬ p → (exec x w).2.lockHeld = false)

theorem blocksWhen_false {x : M α} (h : Keeps false x) {w : World} (hw : w.lockHeld = false) :
    BlocksWhen x w False := by
  have hx := h w hw
  rw [BlocksWhen]
  rcases hr : exec x w with ⟨e | a, w'⟩ <;> rw [hr] at hx
  · exact ⟨iff_of_false (fun he => hx.1 (Except.error.inj he)) not_false, fun _ => hx.2⟩
  · exact ⟨iff_of_false (by simp) not_false, fun _ => hx⟩

theorem BlocksWhen.ignore {x : M α} {w : World} {p : Prop} (h : BlocksWhen x w p) :
    BlocksWhen (ignore x) w p := by
  rw [BlocksWhen, Registry.ignore, exec_bind]
  rw [BlocksWhen] at h
  rcases hr : exec x w with ⟨e | a, w'⟩ <;> rw [hr] at h
  · refine ⟨?_, h.2⟩
    rw [← h.1]
    simp
  · refine ⟨?_, h.2⟩
    rw [← h.1]
    simp

theorem blocksWhen_withLock {γ : Type} {w : World} (hw : w.lockHeld = false)
    (f : ℚ → PyCacheDict String Nat → γ × PyCacheDict String Nat) (g : γ → M α) {p : Prop}
    (h : ∀ w' : World, w'.lockHeld = true → w'.objects = w.objects →
      (p → exec (g (f (clock w.ticks) w.breakers).1) w' = (.error .deadlock, w')) ∧
      (¬ p → ∃ a, exec (g (f (clock w.ticks) w.breakers).1) w' = (.ok a, w'))) :
    BlocksWhen (withLock (onBreakers clock f >>= g)) w p := by
  obtain ⟨w', hlook, hheld, hobj⟩ :
      ∃ w', exec (onBreakers clock f) { w with lockHeld := true } =
        (.ok (f (clock w.ticks) w.breakers).1, w') ∧ w'.lockHeld = true ∧
        w'.objects = w.objects := ⟨_, rfl, rfl, rfl⟩
  obtain ⟨hbad, hok⟩ := h w' hheld hobj
  rw [BlocksWhen, exec_withLock _ hw, exec_bind_ok hlook]
  by_cases hp : p
  · rw [hbad hp]
    exact ⟨iff_of_true rfl hp, fun hn => absurd hp hn⟩
  · obtain ⟨a, ha⟩ := hok hp
    rw [ha]
    exact ⟨iff_of_false (by simp) hp, fun _ => rfl⟩

theorem unresolved_congr {w w' : World} (h : w'.objects = w.objects) (o : Nat) :
    Unresolved w' o ↔ Unresolved w o := by
  rw [Unresolved, Unresolved, h]

theorem blocksWhen_getSnapshot {w : World} (hw : w.lockHeld = false) (d : String) :
    BlocksWhen (getSnapshot cfg clock d) w (ReadsUnresolved clock w (.getSnapshot d)) := by
  apply blocksWhen_withLock hw
  intro w' hheld hobj
  simp only [ReadsUnresolved]
  cases (w.breakers.get (clock w.ticks) d).1 with
  | none => exact ⟨fun h => by simp at h, fun _ => ⟨none, rfl⟩⟩
  | some o =>
    have hread : Reads (do pure (some (← snapshotOf cfg clock o))) o :=
      (reads_snapshotOf cfg clock o).bind fun _ _ => ⟨_, rfl⟩
    obtain ⟨hok, hbad⟩ := hread w'
    rw [unresolved_congr hobj] at hok hbad
    constructor
    · intro h
      exact hbad (by simpa using h) hheld
    · intro h
      exact hok (by simpa using h)

theorem blocksWhen_getAllBreakerSnapshots {w : World} (hw : w.lockHeld = false) :
    BlocksWhen (getAllBreakerSnapshots cfg clock) w
      (ReadsUnresolved clock w .getAllBreakerSnapshots) := by
  apply blocksWhen_withLock hw
  intro w' hheld hobj
  have hread := exec_mapM_reads (f := id) (reads_snapshotOf cfg clock)
    (w.breakers.values (clock w.ticks)).1 hheld
  simp only [id, unresolved_congr hobj] at hread
  simp only [ReadsUnresolved, not_exists, not_and]
  exact hread

theorem blocksWhen_perDomainStats {w : World} (hw : w.lockHeld = false) :
    BlocksWhen (perDomainStats cfg clock) w (ReadsUnresolved clock w .perDomainStats) := by
  apply blocksWhen_withLock hw
  intro w' hheld hobj
  have hstats : ∀ e : String × Nat, Reads (do pure (e.1, ← statsOf cfg clock e.2)) e.2 :=
    fun e => (reads_statsOf e.2).bind fun _ _ => ⟨_, rfl⟩
  have hread := exec_mapM_reads hstats (w.breakers.items (clock w.ticks)).1 hheld
  simp only [unresolved_congr hobj] at hread
  simp only [ReadsUnresolved, not_exists, not_and]
  exact hread

theorem blocksWhen_perform {w : World} (hw : w.lockHeld = false) (c : Call) :
    BlocksWhen (perform cfg clock c) w (ReadsUnresolved clock w c) := by
  cases c with
  | getBreaker d => exact (blocksWhen_false (keeps_getBreaker d) hw).ignore
  | domainBreakerCheck d answer draw =>
    exact (blocksWhen_false (keeps_domainBreakerCheck d answer draw) hw).ignore
  | domainBreakerRecordSuccess d => exact blocksWhen_false (keeps_domainBreakerRecordSuccess d) hw
  | domainBreakerRecordFailure d isTimeout kind =>
    exact blocksWhen_false (keeps_domainBreakerRecordFailure d isTimeout kind) hw
  | getSnapshot d => exact (blocksWhen_getSnapshot hw d).ignore
  | getAllBreakerSnapshots => exact (blocksWhen_getAllBreakerSnapshots hw).ignore
  | perDomainStats => exact (blocksWhen_perDomainStats hw).ignore
  | getAllBreakerStates => exact (blocksWhen_false keeps_getAllBreakerStates hw).ignore
  | clearAllBreakers => exact blocksWhen_false keeps_clearAllBreakers hw

/-! ### Runs -/

/-- No call of the run asks for the lock while it holds it. -/
def NeverSelfDeadlocks (cfg : RegistryConfig) (clock : Nat → ℚ) (w : World) (calls : List Call) :
    Prop :=
  ∀ pre c, pre ++ [c] <+: calls →
    (exec (perform cfg clock c) (pre.foldl (step cfg clock) w)).1 ≠ .error .deadlock

theorem lockHeld_run {w : World} (hw : w.lockHeld = false) {calls : List Call}
    (h : StepsMeet (step cfg clock) (fun w c => ¬ ReadsUnresolved clock w c) w calls) :
    (calls.foldl (step cfg clock) w).lockHeld = false :=
  h.invariant (I := fun w => w.lockHeld = false)
    (fun _ c hw hc => (blocksWhen_perform hw c).2 hc) hw

/-- A run of registry calls never blocks on its own lock exactly when no call reads, under the
lock, an object that has not found its Python half. -/
theorem neverSelfDeadlocks_iff (cfg : RegistryConfig) (clock : Nat → ℚ)
    (rust : Option RustBackend) (calls : List Call) :
    NeverSelfDeadlocks cfg clock (.initial cfg rust) calls ↔
      StepsMeet (step cfg clock) (fun w c => ¬ ReadsUnresolved clock w c) (.initial cfg rust)
        calls := by
  have hw : (World.initial cfg rust).lockHeld = false := rfl
  constructor
  · intro h
    induction calls using List.reverseRecOn with
    | nil => trivial
    | append_singleton calls c ih =>
      have hpre := ih fun pre a hp => h pre a (hp.trans (List.prefix_append calls [c]))
      refine stepsMeet_concat.2 ⟨hpre, fun hc => ?_⟩
      exact h calls c (List.prefix_refl _)
        ((blocksWhen_perform (lockHeld_run hw hpre) c).1.2 hc)
  · rintro h pre c ⟨rest, rfl⟩ hd
    obtain ⟨hpre, hc⟩ := stepsMeet_concat.1 (stepsMeet_append.1 h).1
    exact hc ((blocksWhen_perform (lockHeld_run hw hpre) c).1.1 hd)

/-- A check without Rust lets the object find its Python half, so the snapshot after it returns. -/
theorem neverSelfDeadlocks_check_then_snapshot :
    NeverSelfDeadlocks .default (fun n => n) (.initial .default none)
      [.domainBreakerCheck "a.example" none 0, .getSnapshot "a.example", .perDomainStats] :=
  (neverSelfDeadlocks_iff .default (fun n => n) none _).2 (by decide +kernel)

/-- A breaker that was only ever fetched has not found its Python half; its snapshot blocks. -/
theorem not_neverSelfDeadlocks_fetch_then_snapshot :
    ¬ NeverSelfDeadlocks .default (fun n => n) (.initial .default none)
      [.getBreaker "a.example", .getSnapshot "a.example"] := by
  intro h
  apply h [.getBreaker "a.example"] (.getSnapshot "a.example") (List.prefix_refl _)
  exact (blocksWhen_perform (by decide +kernel) (.getSnapshot "a.example")).1.2
    (by decide +kernel)

end Hledac.Transport.Registry
