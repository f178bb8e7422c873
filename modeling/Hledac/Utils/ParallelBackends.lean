import Mathlib.Algebra.BigOperators.Group.List.Basic
import Mathlib.Algebra.GroupWithZero.Nat
import Hledac.Lib.Machine

/-!
# The two backends of `parallel`

`parallel(coros, policy="collect")` gathers its awaitables with `return_exceptions`, or runs them in a
task group that is left by the first exception; `utils/asyncx/_parallel.py:449-678`. The gather waits for
everything, so it is a function of what the awaitables come to. The group is a run of events.
-/

namespace Hledac.Utils

open Hledac.Lib

/-- What an awaitable returns: `None`, an exception object, the object of a `BaseException` that is no
`Exception`, or anything else. -/
inductive Returned (α ε β : Type) where
  | none
  | value (a : α)
  | exception (e : ε)
  | baseException (b : β)
  deriving DecidableEq, Repr

variable {α ε β : Type}

namespace Returned

/-- `isinstance(item, BaseException)`. -/
def isException : Returned α ε β → Bool
  | .exception _ => true
  | .baseException _ => true
  | _ => false

/-- `isinstance(item, Exception)`. -/
def exception? : Returned α ε β → Option ε
  | .exception e => some e
  | _ => Option.none

def baseException? : Returned α ε β → Option β
  | .baseException b => some b
  | _ => Option.none

/-- `r is not None and not isinstance(r, BaseException)`. -/
def isKept : Returned α ε β → Bool
  | .value _ => true
  | _ => false

end Returned

/-- What becomes of an awaitable that is left alone: it returns, or raises an `Exception`. -/
abbrev Outcome (α ε β : Type) := Except ε (Returned α ε β)

/-- `ParallelResult` without names. -/
structure ParallelResult (α ε β : Type) where
  ok : List (Returned α ε β)
  errors : List ε
  deriving DecidableEq

/-! ### The gather -/

/-- An element of what `asyncio.gather(…, return_exceptions=True)` returns. -/
def gathered : Outcome α ε β → Returned α ε β
  | .ok r => r
  | .error e => .exception e

/-- `_classify_gathered`; lines 283-346. -/
def classifyGathered (raw : List (Returned α ε β)) : List (Returned α ε β) × List ε × Option β :=
  if raw.all fun r => !r.isException then (raw, [], none)
  else (raw.filter fun r => !r.isException, raw.filterMap Returned.exception?,
    raw.findSome? Returned.baseException?)

/-- `parallel(coros, policy="collect")` with its gather, and `_build_parallel_result`, which raises what
has to be raised again; lines 640-678, lines 503-529. -/
def gatherBackend (coros : List (Outcome α ε β)) : Except β (ParallelResult α ε β) :=
  match classifyGathered (coros.map gathered) with
  | (_, _, some b) => .error b
  | (ok, errors, none) => .ok ⟨ok, errors⟩

/-! ### The group -/

/-- A task of the group: it waits for a slot, runs, has ended, has ended and the group knows of it, or
has been cancelled. -/
inductive TaskPhase where
  | waiting
  | running
  | ended
  | left
  | cancelled
  deriving DecidableEq, Repr

/-- A task with its place in `results`. -/
structure GroupTask (α ε β : Type) where
  outcome : Outcome α ε β
  phase : TaskPhase := .waiting
  result : Returned α ε β := .none

/-- The tasks of the group and the exceptions of those that it knows to have ended. -/
structure TaskGroup (α ε β : Type) where
  slots : Option Nat
  tasks : List (GroupTask α ε β)
  errors : List ε := []
  aborting : Bool := false

/-- What happens in the event loop while the group is entered. -/
inductive GroupEvent where
  | start (task : Nat)
  | finish (task : Nat)
  | notice (task : Nat)
  | cancel (task : Nat)
  deriving DecidableEq, Repr

/-- What an awaitable puts into `results`. -/
def returned : Outcome α ε β → Returned α ε β
  | .ok r => r
  | .error _ => .none

/-- What an awaitable raises. -/
def raised : Outcome α ε β → List ε
  | .ok _ => []
  | .error e => [e]

namespace TaskGroup

/-- The semaphore has a slot. -/
def HasSlot (g : TaskGroup α ε β) : Prop :=
  ∀ n ∈ g.slots, (g.tasks.countP fun t => decide (t.phase = .running)) < n

instance (g : TaskGroup α ε β) : Decidable g.HasSlot := inferInstanceAs (Decidable (∀ n ∈ g.slots, _))

/-- Task number `i` changes. -/
def put (g : TaskGroup α ε β) (i : Nat) (t : GroupTask α ε β) : TaskGroup α ε β :=
  { g with tasks := g.tasks.set i t }

/-- `_run` gets its slot and waits for the awaitable; lines 468-473. -/
def start (g : TaskGroup α ε β) (i : Nat) : TaskGroup α ε β :=
  match g.tasks[i]? with
  | none => g
  | some t =>
    if t.phase = .waiting ∧ g.aborting = false ∧ g.HasSlot then g.put i { t with phase := .running } else g

/-- The awaitable comes to its end, and its result is stored. -/
def finish (g : TaskGroup α ε β) (i : Nat) : TaskGroup α ε β :=
  match g.tasks[i]? with
  | none => g
  | some t =>
    if t.phase = .running then
      g.put i { t with
        phase := .ended
        result := match t.outcome with
          | .ok r => r
          | .error _ => t.result }
    else g

/-- The group learns that the task has ended; an exception makes it abort. -/
def notice (g : TaskGroup α ε β) (i : Nat) : TaskGroup α ε β :=
  match g.tasks[i]? with
  | none => g
  | some t =>
    if t.phase = .ended then
      match t.outcome with
      | .ok _ => g.put i { t with phase := .left }
      | .error e => { g.put i { t with phase := .left } with errors := g.errors ++ [e], aborting := true }
    else g

/-- A task that is not done ends by its cancellation. -/
def cancel (g : TaskGroup α ε β) (i : Nat) : TaskGroup α ε β :=
  match g.tasks[i]? with
  | none => g
  | some t =>
    if g.aborting = true ∧ (t.phase = .waiting ∨ t.phase = .running)
      then g.put i { t with phase := .cancelled } else g

def step (g : TaskGroup α ε β) : GroupEvent → TaskGroup α ε β
  | .start i => g.start i
  | .finish i => g.finish i
  | .notice i => g.notice i
  | .cancel i => g.cancel i

/-- The group as it is entered, with the slots of `asyncio.Semaphore(concurrency)`;
lines 640-645, lines 459-479. -/
def init (concurrency : Option ℤ) (coros : List (Outcome α ε β)) : TaskGroup α ε β where
  slots := concurrency.map fun n => (max 1 n).toNat
  tasks := coros.map fun outcome => { outcome := outcome }

def run (concurrency : Option ℤ) (coros : List (Outcome α ε β)) (events : List GroupEvent) :
    TaskGroup α ε β :=
  events.foldl step (init concurrency coros)

/-- The group can be left. -/
def Complete (g : TaskGroup α ε β) : Prop := ∀ t ∈ g.tasks, t.phase = .left ∨ t.phase = .cancelled

instance (g : TaskGroup α ε β) : Decidable g.Complete := inferInstanceAs (Decidable (∀ t ∈ g.tasks, _))

/-- What `_parallel_taskgroup` returns; the exceptions are all `Exception`s; lines 480-497. -/
def result (g : TaskGroup α ε β) : ParallelResult α ε β where
  ok := (g.tasks.map GroupTask.result).filter Returned.isKept
  errors := g.errors

end TaskGroup

/-! ### What they are for -/

/-- Both backends return, and their results are the same up to the order of the exceptions and account for
every awaitable. -/
def BackendsAgree (coros : List (Outcome α ε β)) (g : TaskGroup α ε β) : Prop :=
  ∃ r, gatherBackend coros = .ok r ∧ g.result.ok = r.ok ∧ g.result.errors.Perm r.errors ∧
    r.ok.length + r.errors.length = coros.length ∧
    g.result.ok.length + g.result.errors.length = coros.length

/-- The awaitable raises, or returns something that is neither `None` nor an exception. -/
def Plain (o : Outcome α ε β) : Prop := (returned o).isKept = true ∨ (raised o).isEmpty = false

instance (o : Outcome α ε β) : Decidable (Plain o) := inferInstanceAs (Decidable (_ ∨ _))

namespace TaskGroup

/-- The event does not cancel a task. -/
def CancelsNone (g : TaskGroup α ε β) : GroupEvent → Prop
  | .cancel i => ∀ t ∈ g.tasks[i]?, ¬ (g.aborting = true ∧ (t.phase = .waiting ∨ t.phase = .running))
  | _ => True

instance (g : TaskGroup α ε β) : ∀ e, Decidable (g.CancelsNone e)
  | .start _ => .isTrue trivial
  | .finish _ => .isTrue trivial
  | .notice _ => .isTrue trivial
  | .cancel i => inferInstanceAs (Decidable (∀ t ∈ g.tasks[i]?, _))

/-! ### Events -/

/-- What an event does to a task, and what it reports. -/
inductive Moves (t : GroupTask α ε β) : GroupTask α ε β → List ε → Prop where
  | start (h : t.phase = .waiting) : Moves t { t with phase := .running } []
  | finish (h : t.phase = .running) : Moves t { t with
      phase := .ended
      result := match t.outcome with
        | .ok r => r
        | .error _ => t.result } []
  | notice (h : t.phase = .ended) : Moves t { t with phase := .left } (raised t.outcome)
  | cancel (h : t.phase = .waiting ∨ t.phase = .running) : Moves t { t with phase := .cancelled } []

theorem step_cases (g : TaskGroup α ε β) (e : GroupEvent) :
    g.step e = g ∨ ∃ i t t' new, g.tasks[i]? = some t ∧ Moves t t' new ∧
      (g.step e).tasks = g.tasks.set i t' ∧ (g.step e).errors = g.errors ++ new ∧ (g.step e).slots = g.slots := by
  cases e with
  | start i =>
    rw [step, start]
    cases ht : g.tasks[i]? with
    | none => exact .inl rfl
    | some t =>
      simp only
      split
      · next h => exact .inr ⟨i, t, _, _, ht, .start h.1, rfl, (List.append_nil _).symm, rfl⟩
      · exact .inl rfl
  | finish i =>
    rw [step, finish]
    cases ht : g.tasks[i]? with
    | none => exact .inl rfl
    | some t =>
      simp only
      split
      · next h => exact .inr ⟨i, t, _, _, ht, .finish h, rfl, (List.append_nil _).symm, rfl⟩
      · exact .inl rfl
  | notice i =>
    rw [step, notice]
    cases ht : g.tasks[i]? with
    | none => exact .inl rfl
    | some t =>
      simp only
      split
      · next h =>
        refine .inr ⟨i, t, _, _, ht, .notice h, ?_⟩
        cases t.outcome with
        | ok r => exact ⟨rfl, (List.append_nil _).symm, rfl⟩
        | error e => exact ⟨rfl, rfl, rfl⟩
      · exact .inl rfl
  | cancel i =>
    rw [step, cancel]
    cases ht : g.tasks[i]? with
    | none => exact .inl rfl
    | some t =>
      simp only
      split
      · next h => exact .inr ⟨i, t, _, _, ht, .cancel h.2, rfl, (List.append_nil _).symm, rfl⟩
      · exact .inl rfl

/-! ### The accounts of the group -/

/-- What the group knows of the task. -/
def reported (t : GroupTask α ε β) : List ε := if t.phase = .left then raised t.outcome else []

/-- The place of the task in `results` has been written exactly when its awaitable has ended. -/
def Written (t : GroupTask α ε β) : Prop :=
  t.result = if t.phase = .ended ∨ t.phase = .left then returned t.outcome else .none

theorem Moves.outcome {t t' : GroupTask α ε β} {new : List ε} (h : Moves t t' new) :
    t'.outcome = t.outcome := by
  cases h <;> rfl

theorem Moves.written {t t' : GroupTask α ε β} {new : List ε} (h : Moves t t' new) (ht : Written t) :
    Written t' := by
  rw [Written] at ht ⊢
  cases h with
  | start h => simpa [h] using ht
  | finish h =>
    simp only [h, reduceCtorEq, or_self, if_false] at ht
    cases ho : t.outcome with
    | ok r => simp [returned]
    | error e => simp [returned, ht]
  | notice h => simpa [h] using ht
  | cancel h =>
    have hnot : ¬ (t.phase = .ended ∨ t.phase = .left) := by
      cases h with
      | inl h => simp [h]
      | inr h => simp [h]
    simpa [hnot] using ht

theorem Moves.reported {t t' : GroupTask α ε β} {new : List ε} (h : Moves t t' new) :
    reported t' = reported t ++ new := by
  cases h with
  | start h => simp [TaskGroup.reported, h]
  | finish h => simp [TaskGroup.reported, h]
  | notice h => simp [TaskGroup.reported, h]
  | cancel h =>
    have hnot : t.phase ≠ .left := by
      cases h with
      | inl h => simp [h]
      | inr h => simp [h]
    simp [TaskGroup.reported, hnot]

private theorem flatMap_set_perm {γ δ : Type} (f : γ → List δ) {l : List γ} {i : Nat} {x y : γ}
    {new : List δ} (hx : l[i]? = some x) (h : f y = f x ++ new) :
    ((l.set i y).flatMap f).Perm (l.flatMap f ++ new) := by
  induction l generalizing i with
  | nil => cases hx
  | cons a l ih =>
    cases i with
    | zero =>
      obtain rfl : a = x := Option.some_inj.1 hx
      rw [List.set_cons_zero, List.flatMap_cons, List.flatMap_cons, h, List.append_assoc,
        List.append_assoc]
      exact List.Perm.append_left _ List.perm_append_comm
    | succ i =>
      rw [List.set_cons_succ, List.flatMap_cons, List.flatMap_cons, List.append_assoc]
      exact List.Perm.append_left _ (ih hx)

/-- The tasks are those of the awaitables, what has been stored and what is known is what they have come
to. -/
structure Sound (coros : List (Outcome α ε β)) (g : TaskGroup α ε β) : Prop where
  outcomes : g.tasks.map GroupTask.outcome = coros
  written : ∀ t ∈ g.tasks, Written t
  errors : g.errors.Perm (g.tasks.flatMap reported)

section Sound

variable {coros : List (Outcome α ε β)} {g : TaskGroup α ε β}

theorem sound_init (concurrency : Option ℤ) (coros : List (Outcome α ε β)) :
    (init concurrency coros).Sound coros where
  outcomes := by
    rw [init, List.map_map]
    exact List.map_id _
  written t ht := by
    obtain ⟨o, _, rfl⟩ := List.mem_map.1 ht
    rfl
  errors := by
    have hnone : ((init concurrency coros).tasks.flatMap reported) = [] := by
      rw [List.flatMap_eq_nil_iff]
      intro t ht
      obtain ⟨o, _, rfl⟩ := List.mem_map.1 ht
      rfl
    rw [hnone]
    exact List.Perm.refl _

theorem Sound.step (h : g.Sound coros) (e : GroupEvent) : (g.step e).Sound coros := by
  rcases g.step_cases e with hsame | ⟨i, t, t', new, ht, hmoves, htasks, herrors, -⟩
  · rw [hsame]
    exact h
  · have hmem := List.mem_of_getElem? ht
    constructor
    · obtain ⟨hlt, hget⟩ := List.getElem?_eq_some_iff.1 ht
      have hsame : g.tasks.set i t = g.tasks := by
        rw [← hget]
        exact List.set_getElem_self hlt
      rw [htasks, List.map_set, hmoves.outcome, ← List.map_set, hsame, h.outcomes]
    · intro x hx
      rw [htasks] at hx
      cases List.mem_or_eq_of_mem_set hx with
      | inl hold => exact h.written x hold
      | inr hnew => rw [hnew]; exact hmoves.written (h.written t hmem)
    · rw [herrors, htasks]
      exact (h.errors.append_right new).trans (flatMap_set_perm reported ht hmoves.reported).symm

theorem Sound.run (concurrency : Option ℤ) (coros : List (Outcome α ε β)) (events : List GroupEvent) :
    (run concurrency coros events).Sound coros :=
  foldl_invariant (fun _ e hs => hs.step e) events (sound_init concurrency coros)

/-! ### Cancellation -/

/-- No task has been cancelled. -/
def NoneCancelled (g : TaskGroup α ε β) : Prop := ∀ t ∈ g.tasks, t.phase ≠ .cancelled

theorem noneCancelled_step_iff (g : TaskGroup α ε β) (e : GroupEvent) (h : g.NoneCancelled) :
    (g.step e).NoneCancelled ↔ g.CancelsNone e := by
  have hset {i : Nat} {t : GroupTask α ε β} (hphase : t.phase ≠ .cancelled) :
      (g.put i t).NoneCancelled := by
    intro x hx
    cases List.mem_or_eq_of_mem_set hx with
    | inl hold => exact h x hold
    | inr hnew => rw [hnew]; exact hphase
  cases e with
  | start i =>
    refine iff_of_true ?_ trivial
    rw [step, start]
    cases g.tasks[i]? with
    | none => exact h
    | some t =>
      simp only
      split
      · exact hset nofun
      · exact h
  | finish i =>
    refine iff_of_true ?_ trivial
    rw [step, finish]
    cases g.tasks[i]? with
    | none => exact h
    | some t =>
      simp only
      split
      · exact hset nofun
      · exact h
  | notice i =>
    refine iff_of_true ?_ trivial
    rw [step, notice]
    cases g.tasks[i]? with
    | none => exact h
    | some t =>
      simp only
      split
      · split
        · exact hset nofun
        · have hput : (g.put i { t with phase := .left }).NoneCancelled := hset nofun
          exact hput
      · exact h
  | cancel i =>
    rw [step, cancel, CancelsNone]
    cases ht : g.tasks[i]? with
    | none => exact iff_of_true h nofun
    | some t =>
      simp only [Option.mem_def, Option.some_inj, forall_eq']
      split
      · next hcancels =>
        refine iff_of_false ?_ (not_not_intro hcancels)
        intro hnone
        obtain ⟨hlt, _⟩ := List.getElem?_eq_some_iff.1 ht
        have hmem : { t with phase := .cancelled } ∈ (g.put i { t with phase := .cancelled }).tasks :=
          List.mem_set hlt _
        exact hnone _ hmem rfl
      · next hcancels => exact iff_of_true h hcancels

theorem noneCancelled_of_step {g : TaskGroup α ε β} {e : GroupEvent} (h : (g.step e).NoneCancelled) :
    g.NoneCancelled := by
  rcases g.step_cases e with hsame | ⟨i, t, t', new, ht, hmoves, htasks, _⟩
  · rw [hsame] at h
    exact h
  · intro x hx hcancelled
    obtain ⟨j, hj, hget⟩ := List.mem_iff_getElem.1 hx
    have hjx : g.tasks[j]? = some x := by rw [← hget]; exact List.getElem?_eq_getElem hj
    by_cases hij : i = j
    · -- the task that moves was not cancelled
      subst hij
      obtain rfl := Option.some_inj.1 (ht.symm.trans hjx)
      cases hmoves with
      | start hphase => simp [hcancelled] at hphase
      | finish hphase => simp [hcancelled] at hphase
      | notice hphase => simp [hcancelled] at hphase
      | cancel hphase => simp [hcancelled] at hphase
    · have hstays : (g.step e).tasks[j]? = some x := by
        rw [htasks, List.getElem?_set_ne hij]
        exact hjx
      exact h x (List.mem_of_getElem? hstays) hcancelled

theorem noneCancelled_run_iff (concurrency : Option ℤ) (coros : List (Outcome α ε β))
    (events : List GroupEvent) :
    (run concurrency coros events).NoneCancelled ↔
      StepsMeet step CancelsNone (init concurrency coros) events := by
  have hinit : (init concurrency coros).NoneCancelled := by
    intro t ht
    obtain ⟨o, _, rfl⟩ := List.mem_map.1 ht
    exact nofun
  rw [← forall_prefix_iff_stepsMeet (I := NoneCancelled) (J := fun _ => True) (fun _ _ _ => trivial)
    (fun g e _ hg => noneCancelled_step_iff g e hg) trivial hinit events]
  constructor
  · intro h pre hpre
    obtain ⟨rest, rfl⟩ := hpre
    rw [TaskGroup.run, List.foldl_append] at h
    induction rest using List.reverseRecOn with
    | nil => exact h
    | append_singleton rest e ih =>
      rw [List.foldl_append] at h
      exact ih (noneCancelled_of_step h)
  · intro h
    exact h events (List.prefix_refl _)

/-! ### Every awaitable is accounted for once -/

/-- How often the result of the group accounts for the task. -/
def accounts (t : GroupTask α ε β) : Nat := (if t.result.isKept then 1 else 0) + (reported t).length

theorem length_result (g : TaskGroup α ε β) :
    ((g.tasks.map GroupTask.result).filter Returned.isKept).length + (g.tasks.flatMap reported).length =
      (g.tasks.map accounts).sum := by
  induction g.tasks with
  | nil => rfl
  | cons t rest ih =>
    rw [List.map_cons, List.filter_cons, List.flatMap_cons, List.length_append, List.map_cons,
      List.sum_cons, accounts]
    split
    · rw [List.length_cons]
      omega
    · omega

theorem accounts_eq {t : GroupTask α ε β} (hwritten : Written t)
    (hphase : t.phase = .left ∨ t.phase = .cancelled) :
    accounts t ≤ 1 ∧ (accounts t = 1 ↔ t.phase ≠ .cancelled ∧ Plain t.outcome) := by
  rw [Written] at hwritten
  rw [accounts, reported, hwritten]
  cases hphase with
  | inl hleft =>
    cases ho : t.outcome with
    | error e => simp [hleft, returned, raised, Plain, Returned.isKept]
    | ok r => cases r <;> simp [hleft, returned, raised, Plain, Returned.isKept]
  | inr hcancelled => simp [hcancelled, Returned.isKept]

private theorem forall_eq_one_of_sum {γ : Type} {f : γ → Nat} {l : List γ} (hle : ∀ x ∈ l, f x ≤ 1) :
    (l.map f).sum ≤ l.length ∧ ((l.map f).sum = l.length → ∀ x ∈ l, f x = 1) := by
  induction l with
  | nil => exact ⟨Nat.le_refl _, fun _ => nofun⟩
  | cons a l ih =>
    obtain ⟨ha, hl⟩ := List.forall_mem_cons.1 hle
    obtain ⟨hrest, hone⟩ := ih hl
    rw [List.map_cons, List.sum_cons, List.length_cons]
    constructor
    · omega
    · intro hsum
      exact List.forall_mem_cons.2 ⟨by omega, hone (by omega)⟩

theorem length_result_eq_iff (h : g.Sound coros) (hcomplete : g.Complete) :
    g.result.ok.length + g.result.errors.length = coros.length ↔
      g.NoneCancelled ∧ ∀ o ∈ coros, Plain o := by
  have hlength : g.tasks.length = coros.length := by rw [← h.outcomes, List.length_map]
  have haccounts (t : GroupTask α ε β) (ht : t ∈ g.tasks) :=
    accounts_eq (h.written t ht) (hcomplete t ht)
  have hplain : (∀ o ∈ coros, Plain o) ↔ ∀ t ∈ g.tasks, Plain t.outcome := by
    rw [← h.outcomes, List.forall_mem_map]
  show ((g.tasks.map GroupTask.result).filter Returned.isKept).length + g.errors.length = _ ↔ _
  rw [h.errors.length_eq, length_result, ← hlength, hplain]
  constructor
  · intro hsum
    have hone := (forall_eq_one_of_sum fun t ht => (haccounts t ht).1).2 hsum
    exact ⟨fun t ht => ((haccounts t ht).2.1 (hone t ht)).1, fun t ht => ((haccounts t ht).2.1 (hone t ht)).2⟩
  · intro hall
    have hone : ∀ t ∈ g.tasks, accounts t = 1 := fun t ht => (haccounts t ht).2.2 ⟨hall.1 t ht, hall.2 t ht⟩
    rw [List.map_congr_left hone]
    simp

end Sound

end TaskGroup

/-! ### The gather -/

section Gather

variable {coros : List (Outcome α ε β)}

theorem classifyGathered_eq (raw : List (Returned α ε β)) :
    classifyGathered raw = (raw.filter fun r => !r.isException, raw.filterMap Returned.exception?,
      raw.findSome? Returned.baseException?) := by
  rw [classifyGathered]
  split
  · next hall =>
    rw [List.all_eq_true] at hall
    have hnone (r : Returned α ε β) (hr : r ∈ raw) : r.exception? = none ∧ r.baseException? = none := by
      have hr' := hall r hr
      cases r with
      | none => exact ⟨rfl, rfl⟩
      | value a => exact ⟨rfl, rfl⟩
      | exception e => cases hr'
      | baseException b => cases hr'
    rw [List.filter_eq_self.2 hall, List.filterMap_eq_nil_iff.2 fun r hr => (hnone r hr).1,
      List.findSome?_eq_none_iff.2 fun r hr => (hnone r hr).2]
  · rfl

theorem gatherBackend_of_plain (h : ∀ o ∈ coros, Plain o) :
    gatherBackend coros =
      .ok ⟨(coros.map returned).filter Returned.isKept, coros.flatMap raised⟩ := by
  have hbase : (coros.map gathered).findSome? Returned.baseException? = none := by
    rw [List.findSome?_eq_none_iff]
    intro r hr
    obtain ⟨o, ho, rfl⟩ := List.mem_map.1 hr
    have hplain := h o ho
    cases o with
    | error e => rfl
    | ok r => cases r <;> simp_all [Plain, returned, raised, Returned.isKept, gathered,
        Returned.baseException?]
  have hok : (coros.map gathered).filter (fun r => !r.isException) =
      (coros.map returned).filter Returned.isKept := by
    clear hbase
    induction coros with
    | nil => rfl
    | cons o rest ih =>
      obtain ⟨ho, hrest⟩ := List.forall_mem_cons.1 h
      rw [List.map_cons, List.map_cons, List.filter_cons, List.filter_cons, ih hrest]
      cases o with
      | error e => rfl
      | ok r => cases r <;> simp_all [Plain, returned, raised, Returned.isKept, gathered,
          Returned.isException]
  have herrors : (coros.map gathered).filterMap Returned.exception? = coros.flatMap raised := by
    clear hbase hok
    induction coros with
    | nil => rfl
    | cons o rest ih =>
      obtain ⟨ho, hrest⟩ := List.forall_mem_cons.1 h
      rw [List.map_cons, List.filterMap_cons, List.flatMap_cons, ih hrest]
      cases o with
      | error e => rfl
      | ok r => cases r <;> simp_all [Plain, returned, raised, Returned.isKept, gathered,
          Returned.exception?]
  rw [gatherBackend, classifyGathered_eq, hbase, hok, herrors]

end Gather

/-! ### The two together -/

namespace TaskGroup

variable {coros : List (Outcome α ε β)} {g : TaskGroup α ε β}

theorem Sound.result_eq (h : g.Sound coros) (hcomplete : g.Complete) (hnone : g.NoneCancelled) :
    g.result.ok = (coros.map returned).filter Returned.isKept ∧
      g.result.errors.Perm (coros.flatMap raised) := by
  have hleft (t : GroupTask α ε β) (ht : t ∈ g.tasks) : t.phase = .left :=
    (hcomplete t ht).resolve_right (hnone t ht)
  constructor
  · have hresults : g.tasks.map GroupTask.result = coros.map returned := by
      rw [← h.outcomes, List.map_map]
      apply List.map_congr_left
      intro t ht
      exact (h.written t ht).trans (if_pos (.inr (hleft t ht)))
    rw [result, hresults]
  · have hreported : g.tasks.flatMap reported = coros.flatMap raised := by
      rw [← h.outcomes, List.flatMap_map]
      apply List.flatMap_congr
      intro t ht
      exact if_pos (hleft t ht)
    rw [← hreported]
    exact h.errors

end TaskGroup

/-- The backends agree exactly when no awaitable comes to `None` or to an exception object and the group
cancels none. -/
theorem backendsAgree_iff (concurrency : Option ℤ) (coros : List (Outcome α ε β))
    {events : List GroupEvent} (hcomplete : (TaskGroup.run concurrency coros events).Complete) :
    BackendsAgree coros (TaskGroup.run concurrency coros events) ↔
      (∀ o ∈ coros, Plain o) ∧
        StepsMeet TaskGroup.step TaskGroup.CancelsNone (TaskGroup.init concurrency coros) events := by
  have hsound := TaskGroup.Sound.run concurrency coros events
  have hlength := TaskGroup.length_result_eq_iff hsound hcomplete
  rw [← TaskGroup.noneCancelled_run_iff]
  constructor
  · intro h
    obtain ⟨_, _, _, _, _, hall⟩ := h
    exact (hlength.1 hall).symm
  · intro h
    obtain ⟨hplain, hnone⟩ := h
    obtain ⟨hok, herrors⟩ := hsound.result_eq hcomplete hnone
    have hall := hlength.2 ⟨hnone, hplain⟩
    refine ⟨_, gatherBackend_of_plain hplain, hok, herrors, ?_, hall⟩
    rw [← hok, ← herrors.length_eq]
    exact hall

/-- Two awaitables, the second of which raises when the first has returned. -/
theorem backendsAgree_returned_first :
    BackendsAgree ([.ok (.value 1), .error "boom"] : List (Outcome Nat String Empty))
      (TaskGroup.run (some 2) [.ok (.value 1), .error "boom"]
        [.start 0, .start 1, .finish 0, .notice 0, .finish 1, .notice 1]) :=
  (backendsAgree_iff (some 2) _ (by decide)).2 (by decide)

/-- The exception of the first cancels the second, which the gather waits for. -/
theorem not_backendsAgree_raised_first :
    ¬ ∀ (coros : List (Outcome Nat String Empty)) (concurrency : Option ℤ) (events : List GroupEvent),
      coros ≠ [] → (TaskGroup.run concurrency coros events).Complete →
        BackendsAgree coros (TaskGroup.run concurrency coros events) := by
  intro h
  obtain ⟨_, _, _, _, _, hall⟩ := h [.error "boom", .ok (.value 1)] none
    [.start 0, .start 1, .finish 0, .notice 0, .cancel 1] (by decide) (by decide)
  revert hall
  decide

end Hledac.Utils
