import Mathlib.Algebra.Order.Ring.Rat
import Mathlib.Data.Char
import Mathlib.Data.Finset.Max
import Hledac.Lib.BoundedHeap
import Hledac.Lib.Dict
import Hledac.Lib.PrefixScan

/-!
# Eviction of pending markers

`WALManager._evict_lmdb_path` and `_evict_unified_path` of `knowledge/wal.py`. One keeps a bounded heap while it reads
the markers in the order of their keys, the other one sorts them by their timestamps and deletes what the scan returns,
which are keys without the part of the namespace.
-/

namespace Hledac.Knowledge

open Hledac.Lib

namespace WalEviction

/-- A key; the order of the characters is that of their UTF-8 bytes. -/
abbrev Key := List Char

/-- An environment in the order of insertion, with the entry `ts` of each value, where it has one. -/
abbrev Env := Dict Key (Option ℚ)

/-- `_key_pending_sync("")`; `knowledge/wal.py:166-168`. -/
def pendingHead : Key := "pending_duckdb_sync:".toList

/-- What the namespace `wal` puts before its keys; `knowledge/lmdb_subdb.py:166-176`. -/
def walHead : Key := "wal:".toList

/-- `value.get("ts", 0.0)`. -/
def timed (e : Key × Option ℚ) : Key × ℚ := (e.1, e.2.getD 0)

/-- The deletions of one transaction, and how many of the keys were there; `wal.py:620-626`. -/
def deleteAll (keys : List Key) (env : Env) : Nat × Env :=
  keys.foldl (fun r key => if key ∈ r.2.keys then (r.1 + 1, r.2.erase key) else r) (0, env)

/-- `_evict_lmdb_path`; `wal.py:566-626`. -/
def evictLmdbPath (env : Env) (head : Key) (keepCount : Nat) : Nat × Env :=
  let scanned := (prefixScan head env.entries).map timed
  if scanned.length ≤ keepCount then (0, env)
  else deleteAll ((heapOf (scanned.length - keepCount) scanned).map fun r => (ofLex r).2) env

/-- `scan_prefix`; `lmdb_subdb.py:262-294`. -/
def scanPrefix (env : Env) (head : Key) : List (Key × Option ℚ) :=
  (prefixScan (head ++ [':']) env.entries).map fun e => (e.1.drop (head.length + 1), e.2)

/-- `_evict_unified_path`; `wal.py:542-564`. -/
def evictUnifiedPath (env : Env) (keepCount : Nat) : Nat × Env :=
  let pending := (scanPrefix env "wal:pending_duckdb_sync".toList).map timed
  if pending.length ≤ keepCount then (0, env)
  else
    let toEvict := oldest (pending.length - keepCount) pending
    (toEvict.length, toEvict.foldl (fun env e => env.erase (walHead ++ e.1)) env)

/-! ### What should hold -/

/-- The markers under a head, in the order of insertion. -/
def markers (head : Key) (env : Env) : List (Key × ℚ) :=
  (env.entries.filter fun e => head.isPrefixOf e.1).map timed

/-- An entry as the namespace holds it. -/
def inNamespace (e : Key × ℚ) : Key × ℚ := (walHead ++ e.1, e.2)

/-- The unified store has the same markers, inserted in the same order. -/
def SameMarkers (env unified : Env) : Prop :=
  (markers pendingHead env).map inNamespace = markers (walHead ++ pendingHead) unified

instance (env unified : Env) : Decidable (SameMarkers env unified) := inferInstanceAs (Decidable (_ = _))

/-- The oldest markers are deleted, those of one time in the order of insertion, so many that the limit remains, and
both ways leave the same markers. -/
structure EvictsOldest (env unified : Env) (keepCount : Nat) : Prop where
  deleted : (evictLmdbPath env pendingHead keepCount).1 = (markers pendingHead env).length - keepCount
  survivors : markers pendingHead (evictLmdbPath env pendingHead keepCount).2 =
    (markers pendingHead env).filter fun e =>
      decide (e ∉ oldest ((markers pendingHead env).length - keepCount) (markers pendingHead env))
  same : (markers pendingHead (evictLmdbPath env pendingHead keepCount).2).map inNamespace =
    markers (walHead ++ pendingHead) (evictUnifiedPath unified keepCount).2

/-! ### The two selections -/

section Selections

variable {K T : Type} [LinearOrder K] [LinearOrder T] {room : Nat} {stored scanned : List (K × T)}
  {root least : T ×ₗ K} {rest : List (T ×ₗ K)}

theorem exists_not_mem_of_length_eq {α : Type} [DecidableEq α] {xs ys : List α} (hxs : xs.Nodup) (hys : ys.Nodup)
    (h : xs.length = ys.length) {y : α} (hy : y ∈ ys) (hyx : y ∉ xs) : ∃ x ∈ xs, x ∉ ys := by
  by_contra hall
  push Not at hall
  have hsub : xs.toFinset ⊆ ys.toFinset := by
    intro x hx
    exact List.mem_toFinset.2 (hall x (List.mem_toFinset.1 hx))
  have heq := Finset.eq_of_subset_of_card_le hsub (by
    rw [List.toFinset_card_of_nodup hxs, List.toFinset_card_of_nodup hys, h])
  rw [← List.mem_toFinset, heq, List.mem_toFinset] at hyx
  exact hyx hy

/-- Where the heap has kept the oldest entries, the one of them with the greatest key is also among the oldest when
ties are broken by the keys. -/
theorem mem_oldest_of_kept (hnodup : stored.Nodup) (hperm : scanned.Perm stored)
    (hsorted : scanned.Pairwise fun a b => a.1 < b.1) (hroom : room ≤ stored.length)
    (hkept : Kept room scanned root least rest)
    (hheap : ∀ e ∈ stored, rank e ∈ root :: rest ↔ e ∈ oldest room stored) {d : K × T}
    (hd : d ∈ oldest room stored) (hmax : ∀ e ∈ oldest room stored, e.1 ≤ d.1) : d ∈ oldest room scanned := by
  by_contra hnot
  have hlength : (oldest room scanned).length = (oldest room stored).length := by
    rw [length_oldest hroom, length_oldest (by rwa [hperm.length_eq])]
  obtain ⟨t, ht, htnot⟩ := exists_not_mem_of_length_eq (nodup_oldest (hperm.nodup_iff.2 hnodup) room)
    (nodup_oldest hnodup room) hlength hd hnot
  have hdstored := mem_of_mem_oldest hd
  have htscanned := mem_of_mem_oldest ht
  have htstored := hperm.mem_iff.1 htscanned
  have hrank : rank t ≤ rank d := rank_le_of_mem_oldest hsorted ht (hperm.mem_iff.2 hdstored) hnot
  have htime : d.2 ≤ t.2 := le_of_mem_oldest hd htstored htnot
  have hne : t ≠ d := fun heq => htnot (heq ▸ hd)
  have hkey : t.1 < d.1 := by
    rcases rank_le_iff.1 hrank with hlt | ⟨heq, hle⟩
    · exact absurd hlt (not_lt.2 htime)
    · exact lt_of_le_of_ne hle fun hkey => hne (Prod.ext hkey heq)
  rcases List.mem_cons.1 ((hheap d hdstored).2 hd) with hroot | hrest
  · -- the root is the least of all, and `t` is not above it
    have hle := hkept.root_le (rank t) (List.mem_map_of_mem htscanned)
    rw [← hroot] at hle
    exact hne (rank_injective (le_antisymm hrank hle))
  · have hfirst : ∀ e ∈ scanned, e.1 ≤ d.1 → e ∈ scanned.take room := by
      intro e he hle
      by_contra hlate
      obtain ⟨x, hx, hxd⟩ := List.mem_map.1 (hkept.first.mem_iff.1 (List.mem_cons_of_mem least hrest))
      obtain rfl := rank_injective hxd
      rw [← List.take_append_drop room scanned] at hsorted he
      have hlt := (List.pairwise_append.1 hsorted).2.2 x hx e ((List.mem_append.1 he).resolve_left hlate)
      exact absurd hlt (not_lt.2 hle)
    -- `t` is one of the first, but the heap has not kept it
    have hleast : rank t = least := by
      have hmem := hkept.first.mem_iff.2 (List.mem_map_of_mem (hfirst t htscanned hkey.le))
      rcases List.mem_cons.1 hmem with heq | hmem
      · exact heq
      · exact absurd ((hheap t htstored).1 (List.mem_cons_of_mem root hmem)) htnot
    obtain ⟨m, hm, hmroot⟩ := List.mem_map.1 hkept.root_mem
    have hmstored := hperm.mem_iff.1 hm
    have hmold := (hheap m hmstored).1 (by rw [hmroot]; exact List.mem_cons_self)
    have hmem := hkept.first.mem_iff.2 (List.mem_map_of_mem (hfirst m hm (hmax m hmold)))
    have hle : least ≤ rank m := by
      rcases List.mem_cons.1 hmem with heq | hmem
      · exact heq.ge
      · exact hkept.least_le _ hmem
    have hge := hkept.root_le (rank t) (List.mem_map_of_mem htscanned)
    rw [← hmroot] at hge
    rw [← hleast] at hle
    exact htnot (rank_injective (le_antisymm hge hle) ▸ hmold)

/-- The heap does not keep the oldest entries where the oldest by the keys are what a shift of the keys makes of
them. -/
theorem not_shifted {shift : K → K} (hmono : StrictMono shift) (hne : ∀ k, shift k ≠ k)
    (hkeys : (stored.map Prod.fst).Nodup) (hperm : scanned.Perm stored)
    (hsorted : scanned.Pairwise fun a b => a.1 < b.1) (hpos : 0 < room)
    (hroom : room ≤ stored.length) (hkept : Kept room scanned root least rest)
    (hheap : ∀ e ∈ stored, rank e ∈ root :: rest ↔ e ∈ oldest room stored)
    (hshift : ∀ d ∈ oldest room stored, ∃ t ∈ oldest room scanned, t.1 = shift d.1) : False := by
  have hnodup : stored.Nodup := hkeys.of_map _
  have hlength : (oldest room stored).length = room := length_oldest hroom
  have hscanned : (oldest room scanned).length = room := length_oldest (by rwa [hperm.length_eq])
  have hnodup' := nodup_oldest (hperm.nodup_iff.2 hnodup) room
  obtain ⟨d, hd, hmax⟩ : ∃ d ∈ oldest room stored, ∀ e ∈ oldest room stored, e.1 ≤ d.1 := by
    have hnonempty : (oldest room stored).toFinset.Nonempty := by
      rw [List.toFinset_nonempty_iff]
      exact List.ne_nil_of_length_pos (by omega)
    obtain ⟨d, hd, hmax⟩ := Finset.exists_max_image _ Prod.fst hnonempty
    exact ⟨d, List.mem_toFinset.1 hd, fun e he => hmax e (List.mem_toFinset.2 he)⟩
  have hold := mem_oldest_of_kept hnodup hperm hsorted hroom hkept hheap hd hmax
  obtain ⟨t, ht, htkey⟩ := hshift d hd
  -- every key of the other selection is a shifted one
  have hsurj : ∀ x ∈ oldest room scanned, ∃ e ∈ oldest room stored, x.1 = shift e.1 := by
    have hshifted : ((oldest room stored).map fun e => shift e.1).Nodup := by
      have hfst : ((oldest room stored).map Prod.fst).Nodup :=
        (((List.mergeSort_perm stored _).map Prod.fst).nodup_iff.2 hkeys).sublist
          ((List.take_sublist room _).map Prod.fst)
      rw [← Function.comp_def shift Prod.fst, ← List.map_map]
      exact hfst.map hmono.injective
    have hfst : ((oldest room scanned).map Prod.fst).Nodup := by
      have hall : (scanned.map Prod.fst).Nodup := (hperm.map Prod.fst).nodup_iff.2 hkeys
      exact (((List.mergeSort_perm scanned _).map Prod.fst).nodup_iff.2 hall).sublist
        ((List.take_sublist room _).map Prod.fst)
    intro x hx
    by_contra hnone
    have hxnot : x.1 ∉ (oldest room stored).map fun e => shift e.1 := by
      intro hmem
      obtain ⟨e, he, heq⟩ := List.mem_map.1 hmem
      exact hnone ⟨e, he, heq.symm⟩
    obtain ⟨y, hy, hynot⟩ := exists_not_mem_of_length_eq hshifted hfst (by simp [hlength, hscanned])
      (List.mem_map_of_mem hx) hxnot
    obtain ⟨e, he, rfl⟩ := List.mem_map.1 hy
    obtain ⟨t, ht, hte⟩ := hshift e he
    exact hynot (hte ▸ List.mem_map_of_mem ht)
  have hlt : d.1 < t.1 := by
    obtain ⟨e, he, hde⟩ := hsurj d hold
    apply lt_of_le_of_ne
    · calc d.1 = shift e.1 := hde
        _ ≤ shift d.1 := hmono.monotone (hmax e he)
        _ = t.1 := htkey.symm
    · rw [htkey]
      exact (hne d.1).symm
  have htnot : t ∉ oldest room stored := fun hmem => absurd hlt (not_lt.2 (hmax t hmem))
  obtain ⟨x, hx, hxnot⟩ := exists_not_mem_of_length_eq (nodup_oldest hnodup room) hnodup'
    (hlength.trans hscanned.symm) ht htnot
  have hxstored := mem_of_mem_oldest hx
  have hrank := rank_le_of_mem_oldest hsorted ht (hperm.mem_iff.2 hxstored) hxnot
  have htime := le_of_mem_oldest hx (hperm.mem_iff.1 (mem_of_mem_oldest ht)) htnot
  rcases rank_le_iff.1 hrank with holder | ⟨-, hle⟩
  · exact absurd holder (not_lt.2 htime)
  · exact absurd hlt (not_lt.2 (hle.trans (hmax x hx)))

end Selections

/-! ### What both ways delete -/

section Deletes

variable {env unified : Env} {keepCount : Nat} {head : Key}

theorem markers_perm (head : Key) (env : Env) :
    ((prefixScan head env.entries).map timed).Perm (markers head env) :=
  (prefixScan_perm head env.entries).map timed

theorem pairwise_scanned (head : Key) (env : Env) :
    ((prefixScan head env.entries).map timed).Pairwise fun a b => a.1 < b.1 :=
  List.pairwise_map.2 (pairwise_prefixScan head env.nodup_keys)

theorem nodup_markers (head : Key) (env : Env) : ((markers head env).map Prod.fst).Nodup := by
  rw [markers, List.map_map]
  exact env.nodup_keys.sublist (List.filter_sublist.map Prod.fst)

theorem isPrefix_of_mem_markers {e : Key × ℚ} (h : e ∈ markers head env) : head <+: e.1 := by
  obtain ⟨x, hx, rfl⟩ := List.mem_map.1 h
  exact List.isPrefixOf_iff_prefix.1 (List.mem_filter.1 hx).2

theorem markers_of_entries {env' : Env} {keys : List Key}
    (h : env'.entries = env.entries.filter fun e => decide (e.1 ∉ keys)) :
    markers head env' = (markers head env).filter fun e => decide (e.1 ∉ keys) := by
  rw [markers, markers, h, List.filter_comm, List.filter_map]
  rfl

theorem entries_foldl_erase (keys : List Key) (env : Env) :
    (keys.foldl (fun env key => env.erase key) env).entries =
      env.entries.filter fun e => decide (e.1 ∉ keys) := by
  induction keys generalizing env with
  | nil => simp
  | cons key keys ih =>
    rw [List.foldl_cons, ih, Dict.erase, List.filter_filter]
    apply List.filter_congr
    intro e _
    simp only [List.mem_cons, not_or, Bool.decide_and, decide_not, Bool.and_comm]

theorem deleteAll_snd (keys : List Key) (env : Env) :
    (deleteAll keys env).2 = keys.foldl (fun env key => env.erase key) env := by
  have hfold (n : Nat) : (keys.foldl (fun r key => if key ∈ r.2.keys then (r.1 + 1, r.2.erase key) else r)
      (n, env)).2 = keys.foldl (fun env key => env.erase key) env := by
    induction keys generalizing env n with
    | nil => rfl
    | cons key keys ih =>
      rw [List.foldl_cons, List.foldl_cons]
      split
      · exact ih _ _
      · next hkey => rw [ih, Dict.erase_of_notMem hkey]
  exact hfold 0

theorem scanned_unified (h : SameMarkers env unified) :
    (scanPrefix unified "wal:pending_duckdb_sync".toList).map timed =
      ((prefixScan pendingHead env.entries).map timed).map fun e => (e.1.drop pendingHead.length, e.2) := by
  have hscan : (prefixScan (walHead ++ pendingHead) unified.entries).map timed =
      ((prefixScan pendingHead env.entries).map timed).map inNamespace := by
    have hperm := (markers_perm (walHead ++ pendingHead) unified).trans
      (h ▸ ((markers_perm pendingHead env).map inNamespace).symm)
    have hsorted : (((prefixScan pendingHead env.entries).map timed).map inNamespace).Pairwise fun a b => a.1 < b.1 :=
      List.pairwise_map.2 ((pairwise_scanned _ env).imp fun hlt => strictMono_append walHead hlt)
    apply hperm.eq_of_pairwise _ (pairwise_scanned _ unified) hsorted
    intro a b _ _ hab hba
    exact absurd hab hba.asymm
  have hdrop : (scanPrefix unified "wal:pending_duckdb_sync".toList).map timed =
      ((prefixScan (walHead ++ pendingHead) unified.entries).map timed).map fun e =>
        (e.1.drop (walHead ++ pendingHead).length, e.2) := by
    rw [scanPrefix, List.map_map, List.map_map]
    rfl
  rw [hdrop, hscan, List.map_map]
  apply List.map_congr_left
  intro e _
  rw [Function.comp_apply, inNamespace, List.length_append, ← List.drop_drop, List.drop_left]

theorem oldest_map_drop (n : Nat) (xs : List (Key × ℚ)) :
    oldest n (xs.map fun e => (e.1.drop pendingHead.length, e.2)) =
      (oldest n xs).map fun e => (e.1.drop pendingHead.length, e.2) := by
  rw [oldest, oldest, List.map_take, List.map_mergeSort]
  intro a _ b _
  rfl

theorem length_scanned (env : Env) :
    ((prefixScan pendingHead env.entries).map timed).length = (markers pendingHead env).length :=
  (markers_perm pendingHead env).length_eq

theorem markers_evictLmdbPath (h : keepCount < (markers pendingHead env).length) :
    markers pendingHead (evictLmdbPath env pendingHead keepCount).2 = (markers pendingHead env).filter fun e =>
      decide (e.1 ∉ (heapOf ((markers pendingHead env).length - keepCount)
        ((prefixScan pendingHead env.entries).map timed)).map fun r => (ofLex r).2) := by
  have hmany : ¬ ((prefixScan pendingHead env.entries).map timed).length ≤ keepCount := by
    rw [length_scanned]
    exact Nat.not_le.2 h
  rw [evictLmdbPath, if_neg hmany, deleteAll_snd]
  apply markers_of_entries
  rw [entries_foldl_erase, length_scanned]

theorem markers_evictUnifiedPath (hsame : SameMarkers env unified) (h : keepCount < (markers pendingHead env).length) :
    markers (walHead ++ pendingHead) (evictUnifiedPath unified keepCount).2 =
      ((markers pendingHead env).filter fun e =>
        decide (e.1 ∉ (oldest ((markers pendingHead env).length - keepCount)
          ((prefixScan pendingHead env.entries).map timed)).map fun e => e.1.drop pendingHead.length)).map
        inNamespace := by
  have hmany : ¬ ((scanPrefix unified "wal:pending_duckdb_sync".toList).map timed).length ≤ keepCount := by
    rw [scanned_unified hsame, List.length_map, length_scanned]
    exact Nat.not_le.2 h
  have hkeys (toEvict : List (Key × ℚ)) : toEvict.foldl (fun env e => env.erase (walHead ++ e.1)) unified =
      (toEvict.map fun e => walHead ++ e.1).foldl (fun env key => env.erase key) unified := by
    rw [List.foldl_map]
  rw [evictUnifiedPath, if_neg hmany]
  simp only [hkeys]
  rw [markers_of_entries (entries_foldl_erase _ _), ← hsame, List.filter_map, scanned_unified hsame, List.length_map,
    length_scanned, oldest_map_drop, List.map_map]
  congr 1
  apply List.filter_congr
  intro e _
  apply decide_eq_decide.2
  rw [not_iff_not, List.mem_map, List.mem_map]
  constructor
  · rintro ⟨x, hx, hxe⟩
    exact ⟨x, hx, List.append_cancel_left hxe⟩
  · rintro ⟨x, hx, hxe⟩
    exact ⟨x, hx, congrArg (walHead ++ ·) hxe⟩

end Deletes

theorem not_evictsOldest_of_lt {env unified : Env} {keepCount : Nat} (hsame : SameMarkers env unified)
    (h : keepCount < (markers pendingHead env).length) : ¬ EvictsOldest env unified keepCount := by
  intro hevicts
  have hroom : (markers pendingHead env).length - keepCount ≤ (markers pendingHead env).length := Nat.sub_le _ _
  have hpos : 0 < (markers pendingHead env).length - keepCount := Nat.sub_pos_of_lt h
  have hperm := markers_perm pendingHead env
  have hsorted := pairwise_scanned pendingHead env
  obtain ⟨root, least, rest, hkept⟩ := exists_kept hpos (by rw [length_scanned]; exact hroom) hsorted
  have hsurvivors := hevicts.survivors
  have hunified := hevicts.same
  rw [hsurvivors, markers_evictUnifiedPath hsame h] at hunified
  rw [markers_evictLmdbPath h, hkept.heap] at hsurvivors
  apply not_shifted (strictMono_append pendingHead) ?_ (nodup_markers pendingHead env) hperm hsorted hpos hroom hkept
  · -- the heap keeps what the first way deletes
    intro e he
    have hmem : e.1 ∈ ((root :: rest).map fun r => (ofLex r).2) ↔ rank e ∈ root :: rest := by
      constructor
      · intro hmem
        obtain ⟨r, hr, hre⟩ := List.mem_map.1 hmem
        have hrank : r ∈ ((prefixScan pendingHead env.entries).map timed).map rank := by
          rcases List.mem_cons.1 hr with rfl | hr
          · exact hkept.root_mem
          · exact List.map_subset _ (List.take_subset _ _) (hkept.first.mem_iff.1 (List.mem_cons_of_mem _ hr))
        obtain ⟨y, hy, rfl⟩ := List.mem_map.1 hrank
        have hye : y = e := List.inj_on_of_nodup_map (nodup_markers pendingHead env) (hperm.mem_iff.1 hy) he hre
        rwa [← hye]
      · intro hmem
        exact List.mem_map.2 ⟨_, hmem, rfl⟩
    have hboth := congrArg (e ∈ ·) hsurvivors
    simp only [List.mem_filter, he, true_and, decide_eq_true_eq, eq_iff_iff] at hboth
    rw [← hmem]
    exact not_iff_not.1 hboth
  · -- and the second way deletes what the shifted keys name
    intro d hd
    have hdmem := mem_of_mem_oldest hd
    have hinjective : Function.Injective inNamespace := by
      intro a b hab
      have hkey := congrArg Prod.fst hab
      have htime := congrArg Prod.snd hab
      exact Prod.ext (List.append_cancel_left hkey) htime
    have hboth := congrArg (d ∈ ·) ((List.map_injective_iff.2 hinjective) hunified)
    simp only [List.mem_filter, hdmem, true_and, decide_eq_true_eq, eq_iff_iff] at hboth
    obtain ⟨t, ht, htd⟩ := List.mem_map.1 ((not_iff_not.1 hboth).1 hd)
    obtain ⟨id, hid⟩ := isPrefix_of_mem_markers (hperm.mem_iff.1 (mem_of_mem_oldest ht))
    refine ⟨t, ht, ?_⟩
    rw [← hid, List.drop_left] at htd
    rw [← hid, htd]
  · intro k heq
    have hlength := congrArg List.length heq
    rw [List.length_append] at hlength
    have hhead : pendingHead.length = 20 := by decide
    omega

/-- The oldest markers are evicted by both ways when and only when there are none to evict. -/
theorem evictsOldest_iff (env unified : Env) (keepCount : Nat) (hsame : SameMarkers env unified) :
    EvictsOldest env unified keepCount ↔ (markers pendingHead env).length ≤ keepCount := by
  constructor
  · intro h
    by_contra hmany
    exact not_evictsOldest_of_lt hsame (Nat.lt_of_not_le hmany) h
  · intro h
    have hlmdb : evictLmdbPath env pendingHead keepCount = (0, env) := by
      rw [evictLmdbPath, if_pos (by rw [length_scanned]; exact h)]
    have hunified : evictUnifiedPath unified keepCount = (0, unified) := by
      rw [evictUnifiedPath, if_pos (by rw [scanned_unified hsame, List.length_map, length_scanned]; exact h)]
    constructor
    · rw [hlmdb, Nat.sub_eq_zero_of_le h]
    · rw [hlmdb, Nat.sub_eq_zero_of_le h]
      exact (List.filter_eq_self.2 fun e _ => rfl).symm
    · rw [hlmdb, hunified]
      exact hsame

/-- A store with one entry for every key and timestamp. -/
def envOf (head : Key) : Env :=
  Dict.empty.insertAll [(head ++ ['a'], some 3), (head ++ ['b'], some 1), (head ++ ['c'], some 2)]

/-- Three markers, and room for three. -/
theorem evictsOldest_three : EvictsOldest (envOf pendingHead) (envOf (walHead ++ pendingHead)) 3 :=
  (evictsOldest_iff _ _ 3 (by decide)).2 (by decide)

/-- Three markers, and room for one. -/
theorem not_evictsOldest : ¬ ∀ (env unified : Env) (keepCount : Nat), SameMarkers env unified →
    EvictsOldest env unified keepCount := fun h =>
  have hsame : SameMarkers (envOf pendingHead) (envOf (walHead ++ pendingHead)) := by decide
  not_evictsOldest_of_lt hsame (by decide : 1 < _) (h _ _ _ hsame)

end WalEviction

end Hledac.Knowledge
