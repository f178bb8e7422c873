import Mathlib.Algebra.Order.Ring.Rat
import Hledac.Lib.Dict
import Hledac.Lib.Pool
import Hledac.Utils.ParallelBackends

/-!
# The policies of `parallel`

`parallel` of `utils/asyncx/_parallel.py` for every policy. Its tasks are gathered, gathered until a deadline, or run
in a group, and one of two functions makes the answer out of what they come to. The policy `log` is documented to
answer with a list of the successes.
-/

namespace Hledac.Utils

open Hledac.Lib

variable {α ε β : Type}

/-- The exception policies, and any other text. -/
inductive Policy where
  | raise
  | first
  | collect
  | log
  | other
  deriving DecidableEq, Repr

/-- `ParallelResult`; lines 210-224. -/
structure NamedResult (α ε β : Type) where
  ok : List (Returned α ε β)
  byName : Dict String (Returned α ε β) := .empty
  errors : List ε := []

/-- What `parallel` returns. -/
inductive ParallelValue (α ε β : Type) where
  | result (r : NamedResult α ε β)
  | list (rs : List (Returned α ε β))
  | none

/-- What `parallel` raises. -/
inductive ParallelRaised (ε β : Type) where
  | base (b : β)
  | exception (e : ε)
  | group (message : String) (errors : List ε)

namespace Parallel

/-- `' ' + ctx if ctx else ''`. -/
def ctxText (ctx : String) : String := if ctx = "" then "" else " " ++ ctx

/-- `_build_by_name`; lines 276-280. -/
def buildByName (results : List (Returned α ε β)) (names : List String) : Dict String (Returned α ε β) :=
  Dict.empty.insertAll (names.zip results)

/-- `_build_parallel_result`; lines 503-541. -/
def buildParallelResult (ok : List (Returned α ε β)) (errors : List ε) (reRaise : Option β)
    (byName : Dict String (Returned α ε β)) (policy : Policy) (ctx : String) :
    Except (ParallelRaised ε β) (ParallelValue α ε β) :=
  match reRaise with
  | some b => .error (.base b)
  | none =>
    match policy with
    | .raise =>
      match errors with
      | [] => .ok (.result { ok, byName })
      | [e] => .error (.exception e)
      | _ => .error (.group ("parallel" ++ ctxText ctx) errors)
    | .first =>
      match errors with
      | [] => .ok (.result { ok, byName })
      | e :: _ => .error (.exception e)
    | .collect => .ok (.result { ok, byName, errors })
    -- without errors the arm ends without a `return`
    | .log => if errors.isEmpty then .ok .none else .ok (.list ok)
    | .other => .ok (.result { ok, byName, errors })

/-- `_apply_policy`; lines 411-446. -/
def applyPolicy (ok : List (Returned α ε β)) (errors : List ε) (policy : Policy) (ctx : String)
    (byName : Dict String (Returned α ε β)) : Except (ParallelRaised ε β) (ParallelValue α ε β) :=
  match policy with
  | .raise =>
    match errors with
    | [] => .ok (.result { ok, byName })
    | [e] => .error (.exception e)
    | _ => .error (.group ("parallel(taskgroup)" ++ ctxText ctx) errors)
  | .first =>
    match errors with
    | [] => .ok (.result { ok, byName })
    | e :: _ => .error (.exception e)
  | .collect => .ok (.result { ok, byName, errors })
  | .log => .ok (.result { ok, byName })
  | .other => .ok .none

/-- An element of `raw`; a task that has not ended at the deadline is a `TimeoutError`; lines 653-672. -/
def rawItem (timeoutError : ε) : Option (Outcome α ε β) → Returned α ε β
  | some o => gathered o
  | none => .exception timeoutError

/-- The gather, and what is made of it; lines 653-678. -/
def parallelGather (policy : Policy) (names : List String) (ctx : String) (timeoutError : ε)
    (p : Pool (Outcome α ε β)) : Except (ParallelRaised ε β) (ParallelValue α ε β) :=
  if p.results.any Option.isNone ∧ (policy = .raise ∨ policy = .first) then .error (.exception timeoutError)
  else
    let raw := p.results.map (rawItem timeoutError)
    match classifyGathered raw with
    | (ok, errors, reRaise) => buildParallelResult ok errors reRaise (buildByName raw names) policy ctx

/-- `_parallel_taskgroup`, once the group is left; lines 480-497. -/
def parallelTaskgroup (policy : Policy) (names : List String) (ctx : String) (g : TaskGroup α ε β) :
    Except (ParallelRaised ε β) (ParallelValue α ε β) :=
  applyPolicy g.result.ok g.result.errors policy ctx (buildByName (g.tasks.map GroupTask.result) names)

/-- What happens to the tasks: they are gathered, until a deadline where there is one, or run in a group, which knows
of no deadline. -/
inductive Backend where
  | gather (timeout : Option ℚ) (events : List PoolEvent)
  | taskgroup (events : List GroupEvent)

/-- The tasks of the gather after some events; lines 635-650. -/
def gatherRun (concurrency : Option ℤ) (coros : List (Outcome α ε β)) (events : List PoolEvent) :
    Pool (Outcome α ε β) :=
  Pool.run (concurrency.map fun n => (max 1 n).toNat) coros events

/-- The tasks have ended, or their deadline may have passed. -/
def Backend.Ends (concurrency : Option ℤ) (coros : List (Outcome α ε β)) : Backend → Prop
  | .gather timeout events => (∃ t ∈ timeout, 0 < t) ∨ (gatherRun concurrency coros events).Complete
  | .taskgroup events => (TaskGroup.run concurrency coros events).Complete

/-- More may have happened. -/
def Backend.Extends : Backend → Backend → Prop
  | .gather timeout events, .gather timeout' later => timeout' = timeout ∧ events <+: later
  | .taskgroup events, .taskgroup later => events <+: later
  | _, _ => False

/-- `parallel`; lines 580-678. -/
def parallel (policy : Policy) (concurrency : Option ℤ) (names : List String) (ctx : String) (timeoutError : ε)
    (coros : List (Outcome α ε β)) (backend : Backend) : Except (ParallelRaised ε β) (ParallelValue α ε β) :=
  if coros.isEmpty then .ok (.result { ok := [] })
  else
    match backend with
    | .gather _ events => parallelGather policy names ctx timeoutError (gatherRun concurrency coros events)
    | .taskgroup events => parallelTaskgroup policy names ctx (TaskGroup.run concurrency coros events)

/-! ### What should hold -/

/-- What an awaitable has returned, where it has ended without an exception. -/
def succeeded : Option (Outcome α ε β) → Option (Returned α ε β)
  | some (.ok r) => some r
  | _ => none

/-- What the awaitables that completed successfully have returned, in their order. -/
def successes (concurrency : Option ℤ) (coros : List (Outcome α ε β)) : Backend → List (Returned α ε β)
  | .gather _ events => (gatherRun concurrency coros events).results.filterMap succeeded
  | .taskgroup events => (TaskGroup.run concurrency coros events).tasks.filterMap fun t =>
      if t.phase = .left then succeeded (some t.outcome) else none

/-- The policy `log` answers with the successes. -/
def ReturnsSuccesses (concurrency : Option ℤ) (names : List String) (ctx : String) (timeoutError : ε)
    (coros : List (Outcome α ε β)) (backend : Backend) : Prop :=
  parallel .log concurrency names ctx timeoutError coros backend = .ok (.list (successes concurrency coros backend))

/-- The tasks are gathered, some awaitable has raised or not ended, and none of the others has returned an exception
object. -/
def SomeFails (concurrency : Option ℤ) (coros : List (Outcome α ε β)) : Backend → Prop
  | .gather timeout events => (∃ o ∈ (gatherRun concurrency coros events).results, succeeded o = none) ∧
      ∀ r ∈ successes concurrency coros (.gather timeout events), r.isException = false
  | .taskgroup _ => False

/-! ### The gather -/

section Gather

variable (timeoutError : ε) (xs : List (Option (Outcome α ε β)))

theorem filter_rawItem : (xs.map (rawItem timeoutError)).filter (fun r => !r.isException) =
    (xs.filterMap succeeded).filter fun r => !r.isException := by
  induction xs with
  | nil => rfl
  | cons x xs ih =>
    cases x with
    | none => exact ih
    | some o =>
      cases o with
      | error e => exact ih
      | ok r =>
        show (r :: xs.map (rawItem timeoutError)).filter _ = (r :: xs.filterMap succeeded).filter _
        rw [List.filter_cons, List.filter_cons, ih]

variable {timeoutError xs}

theorem findSome?_rawItem (h : ∀ r ∈ xs.filterMap succeeded, r.isException = false) :
    (xs.map (rawItem timeoutError)).findSome? Returned.baseException? = none := by
  rw [List.findSome?_eq_none_iff]
  intro r hr
  obtain ⟨x, hx, rfl⟩ := List.mem_map.1 hr
  cases x with
  | none => rfl
  | some o =>
    cases o with
    | error e => rfl
    | ok r =>
      have hr := h r (List.mem_filterMap.2 ⟨_, hx, rfl⟩)
      cases r with
      | none => rfl
      | value a => rfl
      | exception e => cases hr
      | baseException b => cases hr

theorem filterMap_rawItem_ne_nil_iff (h : ∀ r ∈ xs.filterMap succeeded, r.isException = false) :
    (xs.map (rawItem timeoutError)).filterMap Returned.exception? ≠ [] ↔ ∃ x ∈ xs, succeeded x = none := by
  rw [Ne, List.filterMap_eq_nil_iff]
  push Not
  constructor
  · rintro ⟨r, hr, he⟩
    obtain ⟨x, hx, rfl⟩ := List.mem_map.1 hr
    refine ⟨x, hx, ?_⟩
    cases x with
    | none => rfl
    | some o =>
      cases o with
      | error e => rfl
      | ok r =>
        have hr := h r (List.mem_filterMap.2 ⟨_, hx, rfl⟩)
        cases r with
        | none => cases he rfl
        | value a => cases he rfl
        | exception e => cases hr
        | baseException b => cases hr
  · rintro ⟨x, hx, hnone⟩
    refine ⟨_, List.mem_map_of_mem hx, ?_⟩
    cases x with
    | none => exact Option.some_ne_none _
    | some o =>
      cases o with
      | error e => exact Option.some_ne_none _
      | ok r => cases hnone

end Gather

theorem parallelGather_log (names : List String) (ctx : String) (timeoutError : ε) (p : Pool (Outcome α ε β)) :
    parallelGather .log names ctx timeoutError p = .ok (.list (p.results.filterMap succeeded)) ↔
      (∃ o ∈ p.results, succeeded o = none) ∧ ∀ r ∈ p.results.filterMap succeeded, r.isException = false := by
  rw [parallelGather, if_neg (by simp)]
  simp only [classifyGathered_eq, filter_rawItem, buildParallelResult]
  constructor
  · intro h
    cases hbase : (p.results.map (rawItem timeoutError)).findSome? Returned.baseException? with
    | some b =>
      rw [hbase] at h
      cases h
    | none =>
      rw [hbase] at h
      simp only at h
      split at h
      · cases h
      · next herrors =>
        have hsame : (p.results.filterMap succeeded).filter (fun r => !r.isException) =
            p.results.filterMap succeeded := by
          injection h with h
          injection h
        have hplain : ∀ r ∈ p.results.filterMap succeeded, r.isException = false := by
          intro r hr
          simpa using List.filter_eq_self.1 hsame r hr
        exact ⟨(filterMap_rawItem_ne_nil_iff hplain).1 (fun hnil => herrors (List.isEmpty_iff.2 hnil)), hplain⟩
  · rintro ⟨hfails, hplain⟩
    have herrors : (p.results.map (rawItem timeoutError)).filterMap Returned.exception? ≠ [] :=
      (filterMap_rawItem_ne_nil_iff hplain).2 hfails
    have hsame : (p.results.filterMap succeeded).filter (fun r => !r.isException) =
        p.results.filterMap succeeded := by
      rw [List.filter_eq_self]
      intro r hr
      simp [hplain r hr]
    rw [findSome?_rawItem hplain, hsame]
    exact if_neg (fun hnil => herrors (List.isEmpty_iff.1 hnil))

/-! ### Coming to the end -/

section Ends

variable (concurrency : Option ℤ) (coros : List (Outcome α ε β))

theorem slots_pos : ∀ n ∈ concurrency.map fun n => (max 1 n).toNat, 0 < n := by
  intro n hn
  obtain ⟨m, -, rfl⟩ := Option.map_eq_some_iff.1 hn
  omega

/-- How many events a task of the group has before it. -/
def eventsLeft : TaskPhase → Nat
  | .waiting => 3
  | .running => 2
  | .ended => 1
  | .left => 0
  | .cancelled => 0

def left (g : TaskGroup α ε β) : Nat := (g.tasks.map fun t => eventsLeft t.phase).sum

theorem slots_step (g : TaskGroup α ε β) (e : GroupEvent) : (g.step e).slots = g.slots := by
  rcases g.step_cases e with hsame | ⟨i, t, t', new, -, -, -, -, hslots⟩
  · rw [hsame]
  · exact hslots

theorem exists_step {g : TaskGroup α ε β} (hslots : ∀ n ∈ g.slots, 0 < n) (h : ¬ g.Complete) :
    ∃ e, left (g.step e) < left g := by
  by_cases hended : ∃ t ∈ g.tasks, t.phase = .ended
  · obtain ⟨t, ht, hphase⟩ := hended
    obtain ⟨i, hi⟩ := List.mem_iff_getElem?.1 ht
    refine ⟨.notice i, ?_⟩
    rw [TaskGroup.step, TaskGroup.notice, hi]
    simp only [hphase, if_true]
    split
    all_goals exact sum_map_set_lt hi (by rw [hphase]; exact Nat.one_pos)
  · by_cases hrunning : ∃ t ∈ g.tasks, t.phase = .running
    · obtain ⟨t, ht, hphase⟩ := hrunning
      obtain ⟨i, hi⟩ := List.mem_iff_getElem?.1 ht
      refine ⟨.finish i, ?_⟩
      rw [TaskGroup.step, TaskGroup.finish, hi]
      simp only [hphase, if_true]
      exact sum_map_set_lt hi (by rw [hphase]; exact Nat.lt_succ_self 1)
    · rw [TaskGroup.Complete] at h
      push Not at hended hrunning h
      obtain ⟨t, ht, hleft, hcancelled⟩ := h
      obtain ⟨i, hi⟩ := List.mem_iff_getElem?.1 ht
      have hphase : t.phase = .waiting := by
        cases hp : t.phase with
        | waiting => rfl
        | running => exact absurd hp (hrunning t ht)
        | ended => exact absurd hp (hended t ht)
        | left => exact absurd hp hleft
        | cancelled => exact absurd hp hcancelled
      cases haborting : g.aborting with
      | true =>
        refine ⟨.cancel i, ?_⟩
        rw [TaskGroup.step, TaskGroup.cancel, hi]
        simp only [hphase, haborting, true_or, and_self, if_true]
        exact sum_map_set_lt hi (by rw [hphase]; exact Nat.zero_lt_succ 2)
      | false =>
        -- none runs, so all slots are free
        have hslot : g.HasSlot := by
          intro n hn
          have hnone : (g.tasks.countP fun t => decide (t.phase = .running)) = 0 := by
            rw [List.countP_eq_zero]
            intro x hx
            simpa using hrunning x hx
          rw [hnone]
          exact hslots n hn
        refine ⟨.start i, ?_⟩
        rw [TaskGroup.step, TaskGroup.start, hi]
        simp only [hphase, haborting, hslot, and_self, if_true]
        exact sum_map_set_lt hi (by rw [hphase]; exact Nat.lt_succ_self 2)

theorem exists_complete {g : TaskGroup α ε β} (hslots : ∀ n ∈ g.slots, 0 < n) :
    ∃ events : List GroupEvent, (events.foldl TaskGroup.step g).Complete := by
  induction hleft : left g using Nat.strongRecOn generalizing g with
  | _ n ih =>
    by_cases hcomplete : g.Complete
    · exact ⟨[], hcomplete⟩
    · obtain ⟨e, he⟩ := exists_step hslots hcomplete
      obtain ⟨events, hevents⟩ := ih _ (hleft ▸ he) (by rwa [slots_step]) rfl
      exact ⟨e :: events, hevents⟩

theorem exists_ends (backend : Backend) : ∃ later, backend.Extends later ∧ later.Ends concurrency coros := by
  cases backend with
  | gather timeout events =>
    obtain ⟨more, hmore⟩ := Pool.exists_complete_run (slots_pos concurrency) coros events
    exact ⟨.gather timeout (events ++ more), ⟨rfl, List.prefix_append _ _⟩, .inr hmore⟩
  | taskgroup events =>
    have hstep (g : TaskGroup α ε β) (e : GroupEvent) (h : g.slots = (TaskGroup.init concurrency coros).slots) :
        (g.step e).slots = (TaskGroup.init concurrency coros).slots := by
      rw [slots_step, h]
    have hslots : (TaskGroup.run concurrency coros events).slots = (TaskGroup.init concurrency coros).slots :=
      foldl_invariant hstep events rfl
    obtain ⟨more, hmore⟩ := exists_complete (g := TaskGroup.run concurrency coros events) (by
      rw [hslots]
      exact slots_pos concurrency)
    refine ⟨.taskgroup (events ++ more), List.prefix_append _ _, ?_⟩
    rw [Backend.Ends, TaskGroup.run, List.foldl_append]
    exact hmore

end Ends

/-- The tasks can always come to their end, and then the policy `log` answers with the successes when and only when
they are gathered, some awaitable has raised or not ended in time, and none has returned an exception object. -/
theorem returnsSuccesses_iff (concurrency : Option ℤ) (names : List String) (ctx : String) (timeoutError : ε)
    (coros : List (Outcome α ε β)) (backend : Backend) :
    (∃ later, backend.Extends later ∧ later.Ends concurrency coros) ∧ (backend.Ends concurrency coros →
      (ReturnsSuccesses concurrency names ctx timeoutError coros backend ↔ SomeFails concurrency coros backend)) := by
  refine ⟨exists_ends concurrency coros backend, fun hends => ?_⟩
  rw [ReturnsSuccesses, parallel.eq_def]
  cases hempty : coros.isEmpty with
  | true =>
    refine iff_of_false nofun ?_
    cases backend with
    | taskgroup events => exact id
    | gather timeout events =>
      rintro ⟨⟨o, ho, -⟩, -⟩
      rw [List.isEmpty_iff] at hempty
      subst hempty
      have hlength := Pool.length_tasks_run (concurrency.map fun n => (max 1 n).toNat)
        ([] : List (Outcome α ε β)) events
      obtain ⟨t, ht, -⟩ := List.mem_map.1 ho
      rw [gatherRun, List.eq_nil_of_length_eq_zero hlength] at ht
      cases ht
  | false =>
    rw [if_neg Bool.false_ne_true]
    cases backend with
    | gather timeout events => exact parallelGather_log names ctx timeoutError _
    | taskgroup events => exact iff_of_false nofun id

/-- One awaitable that returns. -/
theorem not_returnsSuccesses : ¬ ∀ (concurrency : Option ℤ) (names : List String) (ctx : String)
    (timeoutError : String) (coros : List (Outcome Nat String Empty)) (backend : Backend),
    backend.Ends concurrency coros → ReturnsSuccesses concurrency names ctx timeoutError coros backend := by
  intro h
  have hreturns := h none [] "" "" [.ok (.value 1)] (.gather none [.start 0, .finish 0]) (.inr (by decide))
  injection hreturns with hvalue
  cases hvalue

end Parallel

end Hledac.Utils
