import Hledac.Lib.Dict
import Hledac.Lib.Firsts
import Hledac.Knowledge.StartupReplay

/-!
# The two selections of pending markers

`_deduplicate_and_limit_markers` was taken out of the startup replay; `async_replay_all_pending_duckdb_sync` has a loop
of its own. The loop keeps the first marker of each id. The helper notes which ids there are and keeps every marker that
has one of them. Markers are of any type, with the id that `m.get("id", "")` gives.
-/

namespace Hledac.Knowledge.MarkerSelection

open Hledac.Lib

variable {M : Type*} (id : M → String)

/-- `xs[:n]`. -/
def sliceTo (n : Int) (xs : List M) : List M :=
  if 0 ≤ n then xs.take n.toNat else xs.take (xs.length + n).toNat

/-- One turn of the loop of the helper: the first place of an id is noted. -/
def noteFirst (seen : Dict String Nat) (p : M × Nat) : Dict String Nat :=
  if id p.1 ≠ "" ∧ id p.1 ∉ seen.keys then seen.insert (id p.1) p.2 else seen

/-- `_deduplicate_and_limit_markers`; `knowledge/duckdb_store.py:11568-11590`. -/
def deduplicateAndLimitMarkers (markers : List M) (limit : Int) : List M :=
  let seen := markers.zipIdx.foldl (noteFirst id) .empty
  sliceTo limit (markers.filter fun m => decide (id m ∈ seen.keys))

/-- One turn of the loop of `async_replay_all_pending_duckdb_sync`: `seen_ids` and `unique_markers`. -/
def keepUnique (acc : List String × List M) (m : M) : List String × List M :=
  if id m ≠ "" ∧ id m ∉ acc.1 then (id m :: acc.1, acc.2 ++ [m]) else acc

/-- The markers that `async_replay_all_pending_duckdb_sync` goes through; lines 11764-11776. -/
def replayedMarkers (markers : List M) (limit : Option Int) : List M :=
  let unique := (markers.foldl (keepUnique id) ([], [])).2
  match limit with
  | none => unique
  | some limit => sliceTo limit unique

/-- The markers that have an id. -/
def identified (markers : List M) : List M := markers.filter fun m => decide (id m ≠ "")

/-- The helper selects what the loop selects, so many at most, and no id twice. -/
structure SelectsAlike (markers : List M) (limit : Int) : Prop where
  agrees : deduplicateAndLimitMarkers id markers limit = replayedMarkers id markers (some limit)
  limited : ((deduplicateAndLimitMarkers id markers limit).length : Int) ≤ limit
  distinct : ((deduplicateAndLimitMarkers id markers limit).map id).Nodup

section Spec

variable {id} {markers : List M} {limit : Int}

theorem mem_keys_noteFirst {seen : Dict String Nat} {p : M × Nat} {k : String} :
    k ∈ (noteFirst id seen p).keys ↔ k ∈ seen.keys ∨ (k ≠ "" ∧ k = id p.1) := by
  rw [noteFirst]
  split
  · next h =>
    rw [Dict.mem_keys_insert, or_comm]
    apply or_congr_right
    constructor
    · intro hk
      exact ⟨hk ▸ h.1, hk⟩
    · exact And.right
  · next h =>
    constructor
    · exact .inl
    · intro hk
      cases hk with
      | inl hk => exact hk
      | inr hk =>
        by_contra hnot
        exact h ⟨hk.2 ▸ hk.1, hk.2 ▸ hnot⟩

theorem mem_keys_foldl_noteFirst (ps : List (M × Nat)) (seen : Dict String Nat) {k : String} :
    k ∈ (ps.foldl (noteFirst id) seen).keys ↔ k ∈ seen.keys ∨ (k ≠ "" ∧ k ∈ ps.map fun p => id p.1) := by
  induction ps generalizing seen with
  | nil => simp
  | cons p ps ih =>
    rw [List.foldl_cons, ih, mem_keys_noteFirst, List.map_cons, List.mem_cons]
    tauto

theorem deduplicateAndLimitMarkers_eq (markers : List M) (limit : Int) :
    deduplicateAndLimitMarkers id markers limit = sliceTo limit (identified id markers) := by
  rw [deduplicateAndLimitMarkers, identified]
  congr 1
  apply List.filter_congr
  intro m hm
  have hmem : id m ∈ markers.zipIdx.map fun p => id p.1 := by
    have hids : (markers.zipIdx.map fun p => id p.1) = markers.map id := by
      rw [← Function.comp_def, ← List.map_map, List.zipIdx_map_fst]
    rw [hids]
    exact List.mem_map_of_mem hm
  rw [decide_eq_decide, mem_keys_foldl_noteFirst]
  simp [hmem]

theorem foldl_keepUnique (markers : List M) :
    (markers.foldl (keepUnique id) ([], [])).2 = firsts id (identified id markers) ∧
      ∀ k, k ∈ (markers.foldl (keepUnique id) ([], [])).1 ↔ k ∈ (identified id markers).map id := by
  induction markers using List.reverseRecOn with
  | nil => exact ⟨rfl, fun k => Iff.rfl⟩
  | append_singleton markers m ih =>
    have hconcat : identified id (markers ++ [m]) = identified id markers ++ if id m ≠ "" then [m] else [] := by
      rw [identified, List.filter_append, ← identified]
      by_cases h : id m = ""
      · simp [h]
      · simp [h]
    rw [List.foldl_append, List.foldl_cons, List.foldl_nil, keepUnique, hconcat]
    by_cases hid : id m = ""
    · simpa [hid] using ih
    · rw [if_pos hid, firsts_concat]
      by_cases hseen : id m ∈ (identified id markers).map id
      · rw [if_neg fun h => h.2 ((ih.2 _).2 hseen), if_pos hseen, List.append_nil]
        refine ⟨ih.1, fun k => ?_⟩
        rw [ih.2 k, List.map_append, List.mem_append]
        constructor
        · exact .inl
        · intro hk
          cases hk with
          | inl hk => exact hk
          | inr hk =>
            rw [List.map_singleton, List.mem_singleton] at hk
            exact hk ▸ hseen
      · rw [if_pos ⟨hid, fun h => hseen ((ih.2 _).1 h)⟩, if_neg hseen]
        refine ⟨congrArg (· ++ [m]) ih.1, fun k => ?_⟩
        rw [List.mem_cons, ih.2 k, List.map_append, List.mem_append, List.map_singleton, List.mem_singleton, or_comm]

theorem replayedMarkers_eq (markers : List M) (limit : Int) :
    replayedMarkers id markers (some limit) = sliceTo limit (firsts id (identified id markers)) := by
  rw [replayedMarkers, (foldl_keepUnique markers).1]

theorem deduplicateAndLimitMarkers_startup (markers : List (String × WalRecord)) (limit : Nat) :
    deduplicateAndLimitMarkers Prod.fst markers limit = Knowledge.deduplicateAndLimitMarkers markers limit := by
  rw [deduplicateAndLimitMarkers_eq, sliceTo, if_pos (Int.natCast_nonneg limit)]
  rfl

end Spec

/-- For every list of markers and every limit, the two selections agree within the limit and without a repeated id if
and only if the limit is not negative and no two of the first markers with an id, so many as the limit says, have the
same id. -/
theorem selectsAlike_iff (markers : List M) (limit : Int) :
    SelectsAlike id markers limit ↔
      0 ≤ limit ∧ (((identified id markers).take limit.toNat).map id).Nodup := by
  constructor
  · intro h
    have hlimit : 0 ≤ limit := (Int.natCast_nonneg _).trans h.limited
    have hdistinct := h.distinct
    rw [deduplicateAndLimitMarkers_eq, sliceTo, if_pos hlimit] at hdistinct
    exact ⟨hlimit, hdistinct⟩
  · intro h
    constructor
    · rw [deduplicateAndLimitMarkers_eq, replayedMarkers_eq, sliceTo, sliceTo, if_pos h.1, if_pos h.1]
      exact ((take_firsts_eq_iff _).2 h.2).symm
    · rw [deduplicateAndLimitMarkers_eq, sliceTo, if_pos h.1, List.length_take]
      omega
    · rw [deduplicateAndLimitMarkers_eq, sliceTo, if_pos h.1]
      exact h.2

/-- Of two markers of one id and one of another, with a limit of two, the helper keeps the first id twice. -/
theorem not_selectsAlike : ¬ SelectsAlike (fun m : String × Nat => m.1) [("f1", 1), ("f1", 1), ("f2", 2)] 2 := by
  intro h
  exact absurd h.agrees (by decide)

end Hledac.Knowledge.MarkerSelection
