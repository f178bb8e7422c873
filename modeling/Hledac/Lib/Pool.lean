import Mathlib.Algebra.BigOperators.Group.List.Basic
import Mathlib.Algebra.GroupWithZero.Nat
import Hledac.Lib.Machine

/-!
# Pools of tasks

Tasks that start and end in any order, no more of them at a time than there are slots. What a task comes to is stored
when it ends, at its place, so a pool whose tasks have all ended has the same results whatever the order was. A pool
with a slot can always be brought to its end.
-/

namespace Hledac.Lib

universe u

/-- A task waits for a slot, runs, or has ended. -/
inductive PoolPhase where
  | waiting
  | running
  | ended
  deriving DecidableEq, Repr

/-- A task with what it comes to, and the place for it. -/
structure PoolTask (ρ : Type u) where
  outcome : ρ
  phase : PoolPhase := .waiting
  result : Option ρ := none

/-- The tasks; without slots there is no bound. -/
structure Pool (ρ : Type u) where
  slots : Option Nat
  tasks : List (PoolTask ρ)

/-- A task gets its slot, or ends. -/
inductive PoolEvent where
  | start (task : Nat)
  | finish (task : Nat)
  deriving DecidableEq, Repr

/-- A list whose sum gets less where one of its elements does. -/
theorem sum_map_set_lt {γ : Type u} {f : γ → Nat} {l : List γ} {i : Nat} {x y : γ} (hx : l[i]? = some x)
    (h : f y < f x) : ((l.set i y).map f).sum < (l.map f).sum := by
  induction l generalizing i with
  | nil => cases hx
  | cons a l ih =>
    cases i with
    | zero =>
      obtain rfl : a = x := Option.some_inj.1 hx
      simp only [List.set_cons_zero, List.map_cons, List.sum_cons]
      omega
    | succ i =>
      have hlt := ih hx
      simp only [List.set_cons_succ, List.map_cons, List.sum_cons]
      omega

namespace Pool

variable {ρ : Type u} {p : Pool ρ} {outcomes : List ρ}

/-- There is a slot that no task has. -/
def HasSlot (p : Pool ρ) : Prop := ∀ n ∈ p.slots, (p.tasks.countP fun t => decide (t.phase = .running)) < n

instance (p : Pool ρ) : Decidable p.HasSlot := inferInstanceAs (Decidable (∀ n ∈ p.slots, _))

def start (p : Pool ρ) (i : Nat) : Pool ρ :=
  match p.tasks[i]? with
  | none => p
  | some t =>
    if t.phase = .waiting ∧ p.HasSlot then { p with tasks := p.tasks.set i { t with phase := .running } } else p

def finish (p : Pool ρ) (i : Nat) : Pool ρ :=
  match p.tasks[i]? with
  | none => p
  | some t =>
    if t.phase = .running then
      { p with tasks := p.tasks.set i { t with phase := .ended, result := some t.outcome } }
    else p

def step (p : Pool ρ) : PoolEvent → Pool ρ
  | .start i => p.start i
  | .finish i => p.finish i

/-- A pool of tasks that wait. -/
def init (slots : Option Nat) (outcomes : List ρ) : Pool ρ where
  slots := slots
  tasks := outcomes.map fun outcome => { outcome := outcome }

def run (slots : Option Nat) (outcomes : List ρ) (events : List PoolEvent) : Pool ρ :=
  events.foldl step (init slots outcomes)

/-- All tasks have ended. -/
def Complete (p : Pool ρ) : Prop := ∀ t ∈ p.tasks, t.phase = .ended

instance (p : Pool ρ) : Decidable p.Complete := inferInstanceAs (Decidable (∀ t ∈ p.tasks, _))

/-- What has been stored, in the order of the tasks. -/
def results (p : Pool ρ) : List (Option ρ) := p.tasks.map PoolTask.result

/-! ### Events -/

/-- What an event does to a task. -/
inductive Moves (t : PoolTask ρ) : PoolTask ρ → Prop where
  | start (h : t.phase = .waiting) : Moves t { t with phase := .running }
  | finish (h : t.phase = .running) : Moves t { t with phase := .ended, result := some t.outcome }

/-- An event changes nothing, or one task. -/
theorem step_cases (p : Pool ρ) (e : PoolEvent) : p.step e = p ∨
    ∃ i t t', p.tasks[i]? = some t ∧ Moves t t' ∧ p.step e = { p with tasks := p.tasks.set i t' } := by
  cases e with
  | start i =>
    rw [step, start]
    cases ht : p.tasks[i]? with
    | none => exact .inl rfl
    | some t =>
      simp only
      split
      · next h => exact .inr ⟨i, t, _, ht, .start h.1, rfl⟩
      · exact .inl rfl
  | finish i =>
    rw [step, finish]
    cases ht : p.tasks[i]? with
    | none => exact .inl rfl
    | some t =>
      simp only
      split
      · next h => exact .inr ⟨i, t, _, ht, .finish h, rfl⟩
      · exact .inl rfl

@[simp] theorem slots_step (p : Pool ρ) (e : PoolEvent) : (p.step e).slots = p.slots := by
  rcases p.step_cases e with hsame | ⟨i, t, t', -, -, hstep⟩
  · rw [hsame]
  · rw [hstep]

/-- What the task comes to is stored when it has ended, and only then. -/
def Stored (t : PoolTask ρ) : Prop := t.result = if t.phase = .ended then some t.outcome else none

theorem Moves.stored {t t' : PoolTask ρ} (h : Moves t t') (ht : Stored t) : Stored t' := by
  cases h with
  | start h =>
    rw [Stored, h] at ht
    exact ht
  | finish h => rfl

theorem Moves.outcome {t t' : PoolTask ρ} (h : Moves t t') : t'.outcome = t.outcome := by
  cases h <;> rfl

/-- The tasks are those of the outcomes, and what has been stored is what they come to. -/
structure Sound (outcomes : List ρ) (p : Pool ρ) : Prop where
  outcomes : p.tasks.map PoolTask.outcome = outcomes
  stored : ∀ t ∈ p.tasks, Stored t

theorem sound_init (slots : Option Nat) (outcomes : List ρ) : (init slots outcomes).Sound outcomes where
  outcomes := by
    rw [init, List.map_map]
    exact List.map_id _
  stored t ht := by
    obtain ⟨o, -, rfl⟩ := List.mem_map.1 ht
    rfl

theorem Sound.step (h : p.Sound outcomes) (e : PoolEvent) : (p.step e).Sound outcomes := by
  rcases p.step_cases e with hsame | ⟨i, t, t', ht, hmoves, hstep⟩
  · rw [hsame]
    exact h
  · obtain ⟨hlt, hget⟩ := List.getElem?_eq_some_iff.1 ht
    rw [hstep]
    constructor
    · have hsame : p.tasks.set i t = p.tasks := by
        rw [← hget]
        exact List.set_getElem_self hlt
      rw [List.map_set, hmoves.outcome, ← List.map_set, hsame, h.outcomes]
    · intro x hx
      cases List.mem_or_eq_of_mem_set hx with
      | inl hold => exact h.stored x hold
      | inr hnew =>
        rw [hnew]
        exact hmoves.stored (h.stored t (List.mem_of_getElem? ht))

theorem sound_run (slots : Option Nat) (outcomes : List ρ) (events : List PoolEvent) :
    (run slots outcomes events).Sound outcomes :=
  foldl_invariant (fun _ e hs => hs.step e) events (sound_init slots outcomes)

theorem length_tasks_run (slots : Option Nat) (outcomes : List ρ) (events : List PoolEvent) :
    (run slots outcomes events).tasks.length = outcomes.length := by
  rw [← List.length_map (f := PoolTask.outcome), (sound_run slots outcomes events).outcomes]

/-- A complete pool has stored what its tasks come to, whatever the order was. -/
theorem Sound.results_of_complete (h : p.Sound outcomes) (hcomplete : p.Complete) :
    p.results = outcomes.map some := by
  rw [results, ← h.outcomes, List.map_map]
  apply List.map_congr_left
  intro t ht
  have hstored := h.stored t ht
  rw [Stored, if_pos (hcomplete t ht)] at hstored
  exact hstored

/-! ### Coming to the end -/

/-- How many events a task has before it. -/
def eventsLeft : PoolPhase → Nat
  | .waiting => 2
  | .running => 1
  | .ended => 0

/-- How many events the pool has before it. -/
def left (p : Pool ρ) : Nat := (p.tasks.map fun t => eventsLeft t.phase).sum

/-- A pool that is not complete, and has slots, has an event that brings it on. -/
theorem exists_step (hslots : ∀ n ∈ p.slots, 0 < n) (h : ¬ p.Complete) : ∃ e, (p.step e).left < p.left := by
  by_cases hrunning : ∃ t ∈ p.tasks, t.phase = .running
  · obtain ⟨t, ht, hphase⟩ := hrunning
    obtain ⟨i, hi⟩ := List.mem_iff_getElem?.1 ht
    refine ⟨.finish i, ?_⟩
    rw [step, finish, hi]
    simp only [hphase, if_true]
    exact sum_map_set_lt hi (by rw [hphase]; exact Nat.one_pos)
  · rw [Complete] at h
    push Not at hrunning h
    obtain ⟨t, ht, hended⟩ := h
    obtain ⟨i, hi⟩ := List.mem_iff_getElem?.1 ht
    have hphase : t.phase = .waiting := by
      cases hp : t.phase with
      | waiting => rfl
      | running => exact absurd hp (hrunning t ht)
      | ended => exact absurd hp hended
    -- none runs, so all slots are free
    have hslot : p.HasSlot := by
      intro n hn
      have hnone : (p.tasks.countP fun t => decide (t.phase = .running)) = 0 := by
        rw [List.countP_eq_zero]
        intro x hx
        simpa using hrunning x hx
      rw [hnone]
      exact hslots n hn
    refine ⟨.start i, ?_⟩
    rw [step, start, hi]
    simp only [hphase, hslot, and_self, if_true]
    exact sum_map_set_lt hi (by rw [hphase]; exact Nat.lt_succ_self 1)

/-- A pool that has slots can be brought to its end. -/
theorem exists_complete (hslots : ∀ n ∈ p.slots, 0 < n) :
    ∃ events : List PoolEvent, (events.foldl step p).Complete := by
  induction hleft : p.left using Nat.strongRecOn generalizing p with
  | _ n ih =>
    by_cases hcomplete : p.Complete
    · exact ⟨[], hcomplete⟩
    · obtain ⟨e, he⟩ := exists_step hslots hcomplete
      obtain ⟨events, hevents⟩ := ih _ (hleft ▸ he) (by rwa [slots_step]) rfl
      exact ⟨e :: events, hevents⟩

theorem slots_run (slots : Option Nat) (outcomes : List ρ) (events : List PoolEvent) :
    (run slots outcomes events).slots = slots := by
  have hstep (p : Pool ρ) (e : PoolEvent) (h : p.slots = slots) : (p.step e).slots = slots := by
    rw [slots_step, h]
  exact foldl_invariant hstep events rfl

theorem exists_complete_run {slots : Option Nat} (hslots : ∀ n ∈ slots, 0 < n) (outcomes : List ρ)
    (events : List PoolEvent) : ∃ more, (run slots outcomes (events ++ more)).Complete := by
  obtain ⟨more, hmore⟩ := exists_complete (p := run slots outcomes events) (by rwa [slots_run])
  refine ⟨more, ?_⟩
  rw [run, List.foldl_append]
  exact hmore

end Pool

end Hledac.Lib
