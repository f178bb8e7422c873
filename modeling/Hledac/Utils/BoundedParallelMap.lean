import Mathlib.Data.List.ReduceOption
import Hledac.Lib.Chunks
import Hledac.Lib.Pool
import Hledac.Utils.ParallelBackends

/-!
# Mapping items with bounded concurrency

`bounded_parallel_map` of `utils/asyncx/_parallel.py`. Its tasks catch whatever an item raises and return it beside the
number of the item. The scan for what has to be raised again looks at what the gather returns, where the exceptions of
the items are out of its sight.
-/

namespace Hledac.Utils

open Hledac.Lib

variable {α ε β : Type}

/-- What `await coro_fn(item)` comes to: it returns, raises an `Exception`, or raises `CancelledError` or another
`BaseException` that is no `Exception`. -/
inductive ItemOutcome (α ε β : Type) where
  | returns (r : Returned α ε β)
  | raises (e : ε)
  | raisesBase (b : β)
  deriving DecidableEq, Repr

/-- An element of what the gather returns: the pair that a task returns, or what it raises. -/
inductive MapItem (α ε β : Type) where
  | pair (idx : Nat) (result : Returned α ε β)
  | exception (e : ε)
  | baseException (b : β)
  deriving DecidableEq, Repr

/-- What the call raises: an exception again, or the `TypeError` of an element that is no pair. -/
inductive MapRaised (β : Type) where
  | again (b : β)
  | noPair
  deriving DecidableEq, Repr

/-- The states of the memory that a budget depends on. -/
inductive UmaState where
  | ok
  | warn
  | critical
  | emergency
  deriving DecidableEq, Repr

/-- `isinstance(item, CancelledError)`, or a `BaseException` that is no `Exception`; `_parallel.py:947-953`. -/
def MapItem.again : MapItem α ε β → Option β
  | .baseException b => some b
  | _ => none

/-- The result and its number. -/
def MapItem.unpacked : MapItem α ε β → Option (Returned α ε β × Nat)
  | .pair idx result => some (result, idx)
  | _ => none

/-- What the item raises beside an `Exception`. -/
def ItemOutcome.base : ItemOutcome α ε β → Option β
  | .raisesBase b => some b
  | _ => none

/-- The place of the item in the result. -/
def ItemOutcome.entry : ItemOutcome α ε β → Returned α ε β
  | .returns r => r
  | _ => .none

/-- The item raises nothing beside an `Exception`, and returns no exception object. -/
def ItemOutcome.Plain : ItemOutcome α ε β → Prop
  | .returns r => r.isException = false
  | .raises _ => True
  | .raisesBase _ => False

namespace BoundedMap

/-- `concurrency_budget(SCRAPE_GENERAL)`; `_core/concurrency_registry.py:381`, `398-407`. -/
def concurrencyBudget : UmaState → Nat
  | .ok => 10
  | .warn => 5
  | .critical => 3
  | .emergency => 1

/-- The slots of the semaphore; `_parallel.py:910-920`. -/
def slots (state : UmaState) : Option ℤ → Nat
  | some concurrency => (max 1 concurrency).toNat
  | none => concurrencyBudget state

/-- `_run`; `_parallel.py:922-942`. -/
def runItem (idx : Nat) : ItemOutcome α ε β → MapItem α ε β
  | .returns r => .pair idx r
  | .raises e => .pair idx (.exception e)
  | .raisesBase b => .pair idx (.baseException b)

/-- `None if isinstance(result, Exception) else result`. -/
def kept : Returned α ε β → Returned α ε β
  | .exception _ => .none
  | r => r

/-- What is made of the elements of the gather; `_parallel.py:947-961`. -/
def finished (ordered : Bool) (raw : List (MapItem α ε β)) : Except (MapRaised β) (List (Returned α ε β)) :=
  match raw.findSome? MapItem.again with
  | some b => .error (.again b)
  | none =>
    match raw.mapM MapItem.unpacked with
    | none => .error .noPair
    | some pairs => .ok ((if ordered then pairs.mergeSort fun x y => decide (x.2 ≤ y.2) else pairs).map (kept ·.1))

/-- The tasks of the items after some events. -/
def mapRun (concurrency : Option ℤ) (state : UmaState) (items : List (ItemOutcome α ε β)) (events : List PoolEvent) :
    Pool (MapItem α ε β) :=
  Pool.run (some (slots state concurrency)) (items.zipIdx.map fun p => runItem p.2 p.1) events

/-- `bounded_parallel_map`, once the tasks have ended; `_parallel.py:890-961`. -/
def boundedParallelMap (ordered : Bool) (p : Pool (MapItem α ε β)) : Except (MapRaised β) (List (Returned α ε β)) :=
  finished ordered p.results.reduceOption

/-! ### What should hold -/

/-- The call ends, keeps every value at its place, raises what is no `Exception` again and returns no exception
object, whatever the order of the tasks is. -/
structure KeepsPositions (concurrency : Option ℤ) (state : UmaState) (ordered : Bool)
    (items : List (ItemOutcome α ε β)) : Prop where
  ends : ∀ events, ∃ more, (mapRun concurrency state items (events ++ more)).Complete
  positions : (∀ o ∈ items, o.base = none) → ∀ events, (mapRun concurrency state items events).Complete →
    boundedParallelMap ordered (mapRun concurrency state items events) = .ok (items.map ItemOutcome.entry)
  raises : ∀ o ∈ items, o.base.isSome = true → ∀ events,
    (mapRun concurrency state items events).Complete →
      ∃ b ∈ items.filterMap ItemOutcome.base,
        boundedParallelMap ordered (mapRun concurrency state items events) = .error (.again b)
  noException : ∀ events, (mapRun concurrency state items events).Complete → ∀ rs,
    boundedParallelMap ordered (mapRun concurrency state items events) = .ok rs → ∀ r ∈ rs, r.isException = false

/-! ### What the call returns -/

section Call

variable (concurrency : Option ℤ) (state : UmaState) (ordered : Bool) (items : List (ItemOutcome α ε β))

/-- What a task returns beside its number. -/
def taskResult : ItemOutcome α ε β → Returned α ε β
  | .returns r => r
  | .raises e => .exception e
  | .raisesBase b => .baseException b

theorem runItem_eq (idx : Nat) (o : ItemOutcome α ε β) : runItem idx o = .pair idx (taskResult o) := by
  cases o <;> rfl

theorem slots_pos : 0 < slots state concurrency := by
  cases concurrency with
  | none => cases state <;> decide
  | some n =>
    rw [slots]
    omega

theorem exists_complete_mapRun (events : List PoolEvent) :
    ∃ more, (mapRun concurrency state items (events ++ more)).Complete := by
  apply Pool.exists_complete_run
  intro n hn
  obtain rfl := Option.some.inj hn
  exact slots_pos concurrency state

theorem finished_runItem : finished ordered (items.zipIdx.map fun p => runItem p.2 p.1) =
    .ok (items.map fun o => kept (taskResult o)) := by
  have hagain : (items.zipIdx.map fun p => runItem p.2 p.1).findSome? MapItem.again = none := by
    rw [List.findSome?_eq_none_iff]
    intro x hx
    obtain ⟨p, -, rfl⟩ := List.mem_map.1 hx
    rw [runItem_eq]
    rfl
  have hpairs : (items.zipIdx.map fun p => runItem p.2 p.1).mapM MapItem.unpacked =
      some (items.map taskResult).zipIdx := by
    rw [List.mapM_map, List.zipIdx_map]
    have hsome : (fun p : ItemOutcome α ε β × Nat => MapItem.unpacked (runItem p.2 p.1)) =
        fun p => some (Prod.map taskResult id p) := by
      funext p
      rw [runItem_eq]
      rfl
    rw [Function.comp_def, hsome]
    exact List.mapM_pure
  have hsorted : (if ordered then (items.map taskResult).zipIdx.mergeSort fun x y => decide (x.2 ≤ y.2)
      else (items.map taskResult).zipIdx) = (items.map taskResult).zipIdx := by
    split
    · exact mergeSort_eq_zipIdx (List.Perm.refl _)
    · rfl
  rw [finished, hagain, hpairs]
  simp only
  rw [hsorted]
  congr 1
  rw [← Function.comp_def kept Prod.fst, ← List.map_map, List.zipIdx_map_fst, List.map_map]
  rfl

theorem boundedParallelMap_of_complete {events : List PoolEvent}
    (h : (mapRun concurrency state items events).Complete) :
    boundedParallelMap ordered (mapRun concurrency state items events) =
      .ok (items.map fun o => kept (taskResult o)) := by
  have hresults : (mapRun concurrency state items events).results =
      (items.zipIdx.map fun p => runItem p.2 p.1).map some := (Pool.sound_run _ _ events).results_of_complete h
  have hreduce : ∀ xs : List (MapItem α ε β), (xs.map some).reduceOption = xs := by
    intro xs
    rw [List.reduceOption, List.filterMap_map]
    exact List.filterMap_some
  rw [boundedParallelMap, hresults, hreduce, finished_runItem]

end Call

end BoundedMap

end Hledac.Utils
