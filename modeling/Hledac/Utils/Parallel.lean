import Mathlib.Data.List.Enum

/-!
# Running tasks together

`parallel(coros, taskgroup=True, policy="collect")`; `utils/asyncx/_parallel.py:411-504`. A task
comes to a value or to an exception. The first exception cancels the tasks that are still
running, and the result keeps neither these nor the ones that raised.
-/

namespace Hledac.Utils

universe u

variable {ε α : Type u}

/-- `results[idx]` once the group is left, for task number `idx`. -/
def groupResult (failed : Bool) (finished : Nat → Bool) (idx : Nat) :
    Except ε α → Option (Except ε α)
  | .ok a => if failed && !finished idx then none else some (.ok a)
  | .error _ => none

/-- The `.ok` of the `ParallelResult`; lines 490-504. `outcomes` says what each task comes to
when it is left alone, and `finished` which tasks had returned before the first one raised. -/
def parallelOk (finished : Nat → Bool) (outcomes : List (Except ε α)) : List (Except ε α) :=
  let failed := outcomes.any fun o => !o.isOk
  outcomes.zipIdx.filterMap fun p => groupResult failed finished p.2 p.1

theorem parallelOk_of_forall_ok (finished : Nat → Bool) (xs : List α) :
    parallelOk (ε := ε) finished (xs.map .ok) = xs.map .ok := by
  have hfailed : ((xs.map Except.ok).any fun o : Except ε α => !o.isOk) = false := by
    simp [Except.isOk, Except.toBool]
  rw [parallelOk, hfailed]
  rw [List.filterMap_congr (g := fun p => some p.1)]
  · rw [List.filterMap_eq_map', List.zipIdx_map_fst]
  · rintro ⟨o, i⟩ hp
    obtain ⟨a, _, rfl⟩ := List.mem_map.1 (List.fst_mem_of_mem_zipIdx hp)
    rfl

theorem length_parallelOk_lt (finished : Nat → Bool) {outcomes : List (Except ε α)} {e : ε}
    (h : .error e ∈ outcomes) : (parallelOk finished outcomes).length < outcomes.length := by
  rw [parallelOk]
  have hi : ∃ i, (Except.error e, i) ∈ outcomes.zipIdx := by
    obtain ⟨i, hi, hx⟩ := List.mem_iff_getElem.1 h
    exact ⟨i, List.mem_zipIdx_iff_getElem?.2 (by rw [← hx]; exact List.getElem?_eq_getElem hi)⟩
  obtain ⟨i, hi⟩ := hi
  calc _ < outcomes.zipIdx.length := by
        apply List.length_filterMap_lt_length_iff_exists.2
        exact ⟨_, hi, rfl⟩
    _ = outcomes.length := List.length_zipIdx

end Hledac.Utils
