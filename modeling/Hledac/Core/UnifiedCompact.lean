import Mathlib.Data.List.Nodup
import Std.Data.String.ToNat
import Hledac.Core.UnifiedLmdb

/-!
# Compaction of a sub-database

`compact_subdb` copies the pairs of one sub-database into a file of its own and moves that file over the
file of the whole environment. Any of its operations may fail, the closing of the old environment apart,
whose failure changes nothing.
-/

namespace Hledac.Core

open Hledac.Lib

variable {maxDbs : Nat}

/-! ### The methods -/

/-- The operations of a compaction that may fail. -/
inductive CompactOp where
  | openSub
  | stat
  | tempDir
  | tempEnv
  | tempSub
  | copy
  | sync
  | closeTemp
  | unlinkLock
  | moveData
  | moveLock
  | reopen
  | restore
  | restoreSub (idx : Nat)
  | reopenSub (idx : Nat)
  deriving DecidableEq, Repr

/-- The operations on the temporary environment. -/
def copyOps : List CompactOp := [.tempDir, .tempEnv, .tempSub, .copy, .sync, .closeTemp]

/-- How the operations of a compaction come out. A move of the file that fails leaves `left` there. -/
structure Compaction where
  succeeds : CompactOp → Bool := fun _ => true
  left : DataFile := fun _ => ∅

/-- An operation that raises where it fails. -/
def Compaction.attempt (c : Compaction) (op : CompactOp) (operation : String) : UnifiedM maxDbs PUnit :=
  if c.succeeds op then return else throw (.lmdb operation)

/-- The swap leaves an open environment. -/
def Compaction.Swaps (c : Compaction) : Prop :=
  c.succeeds .unlinkLock = true ∧ c.succeeds .moveData = true ∧ c.succeeds .moveLock = true ∧
    (c.succeeds .reopen = true ∨ c.succeeds .restore = true)

/-- The loop over the cursor that puts every pair into a new sub-database. -/
def SubTable.copied (t : SubTable) : SubTable := t.toList.foldl (fun d p => d.insert p.1 p.2) ∅

/-- The file of a new environment with one sub-database. -/
def DataFile.single (name : String) (t : SubTable) : DataFile := fun n => if n = name then t else ∅

namespace UnifiedLMDB

/-- Whether the sub-database is found empty. What the transaction raises is swallowed;
`_core/lmdb_unified.py:774-785`. -/
def statEmpty (c : Compaction) (idx : ℤ) : UnifiedM maxDbs Bool :=
  tryCatch (do
      let i ← envBegin idx
      c.attempt .stat "stat"
      return ((← MonadState.get).table i).isEmpty)
    fun _ => return false

/-- The temporary environment with a copy of the sub-database: its file; lines 791-821. -/
def copyLive (c : Compaction) (idx : ℤ) : UnifiedM maxDbs DataFile := do
  c.attempt .tempDir "TemporaryDirectory"
  c.attempt .tempEnv "open"
  c.attempt .tempSub "open_db"
  let i ← envBegin idx
  let t := (← MonadState.get).table i
  c.attempt .copy "put"
  c.attempt .sync "sync"
  c.attempt .closeTemp "close"
  return .single (SubDB.name i) t.copied

/-- `_compact_atomic_swap`; lines 847-938. A store whose environment opens neither time is
closed. -/
def compactAtomicSwap (c : Compaction) (i : Fin maxDbs) (file : DataFile) : UnifiedM maxDbs PUnit := do
  let old ← MonadState.get
  modify fun s => { s with
    env := .none
    subDbs := fun _ => false }
  c.attempt .unlinkLock "unlink"
  modify fun s => { s with disk := if c.succeeds .moveData then file else c.left }
  c.attempt .moveData "move"
  c.attempt .moveLock "move"
  if c.succeeds .reopen || c.succeeds .restore then
    modify fun s => { s with
      env := .opened
      subDbs := fun j => !c.succeeds .reopen && c.succeeds (.restoreSub j) }
    c.attempt (.reopenSub i) "open_db"
    modify fun s => { s with
      subDbs := fun j => s.subDbs j || decide (j = i) || (old.subDbs j && c.succeeds (.reopenSub j)) }
  else modify fun s => { s with closed := true }

/-- `compact_subdb`; lines 741-845. -/
def compactSubdb (c : Compaction) (idx : ℤ) : UnifiedM maxDbs Bool := do
  let s ← MonadState.get
  if s.closed || !s.initialized then return false
  else
    let i ← openDb (c.succeeds .openSub) idx
    if ← statEmpty c idx then return true
    else
      tryCatch (do
          let file ← copyLive c idx
          compactAtomicSwap c i file
          return true)
        fun _ => return false

/-- `compact_all_subdbs`; lines 940-950. -/
def compactAllSubdbs (cs : Fin maxDbs → Compaction) : UnifiedM maxDbs (List (Fin maxDbs × Bool)) :=
  (List.finRange maxDbs).mapM fun i => do
    return (i, ← compactSubdb (cs i) i)

/-! ### What a compaction is for -/

/-- The store hands out an environment that a transaction can begin on; `env`,
lines 308-316. -/
def Usable (s : UnifiedLMDB maxDbs) : Prop :=
  ∃ t, (do ensureInit; useEnv "begin" : UnifiedM maxDbs PUnit).exec s = (.ok ⟨⟩, t)

/-- Every get returns in `t` what it returns in `s`, and the store is still usable if it was. -/
structure Preserves (s t : UnifiedLMDB maxDbs) : Prop where
  gets : ∀ idx key, ((get idx key).exec t).1 = ((get idx key).exec s).1
  usable : s.Usable → t.Usable

/-- The compaction comes to the swap of the files: the store is open, the sub-database is not found empty,
and its copy is made. -/
structure ReachesSwap (s : UnifiedLMDB maxDbs) (c : Compaction) (i : Fin maxDbs) : Prop where
  notClosed : s.closed = false
  initialized : s.initialized = true
  event : s.reopenEvent = true
  env : s.env = .opened
  handle : s.subDbs i = true ∨ c.succeeds .openSub = true
  notEmpty : c.succeeds .stat = true → (s.table i).isEmpty = false
  copied : ∀ op ∈ copyOps, c.succeeds op = true

/-- The files are not swapped, or they are swapped without a failure and every other sub-database is
empty. -/
def KeepsSubDbs (s : UnifiedLMDB maxDbs) (c : Compaction) (idx : ℤ) : Prop :=
  ∀ i : Fin maxDbs, (i : ℤ) = idx → s.ReachesSwap c i →
    c.Swaps ∧ ∀ j ≠ i, (s.table j).isEmpty = true

/-- Every compaction that is made keeps the sub-databases of the store it starts from. -/
def KeepsAllOf (cs : Fin maxDbs → Compaction) : List (Fin maxDbs) → UnifiedLMDB maxDbs → Prop
  | [], _ => True
  | i :: is, s => s.KeepsSubDbs (cs i) i ∧
    match (compactSubdb (cs i) i).exec s with
    | (.ok _, t) => KeepsAllOf cs is t
    | (.error _, _) => True

/-- Every compaction of `compact_all_subdbs` keeps the sub-databases of the store it starts from. -/
def KeepsAllSubDbs (s : UnifiedLMDB maxDbs) (cs : Fin maxDbs → Compaction) : Prop :=
  KeepsAllOf cs (List.finRange maxDbs) s

/-! ### Names and copies -/

private theorem not_unknown_of_mem {n : String} (h : n ∈ SubDB.names) (x : String) :
    n ≠ "unknown(" ++ x := by
  intro he
  have hhead : "unknown(".toList <+: n.toList := by
    rw [he, String.toList_append]
    exact List.prefix_append _ _
  have hnone : ∀ n ∈ SubDB.names, ¬ "unknown(".toList <+: n.toList := by decide
  exact hnone n h hhead

theorem name_injective {i j : Nat} (h : SubDB.name i = SubDB.name j) : i = j := by
  have hunknown : ∀ k, SubDB.names.length ≤ k → SubDB.name k = "unknown(" ++ toString k ++ ")" :=
    fun k hk => List.getD_eq_default _ _ hk
  have hknown : ∀ k (hk : k < SubDB.names.length), SubDB.name k = SubDB.names[k] :=
    fun k hk => List.getD_eq_getElem _ _ hk
  rcases Nat.lt_or_ge i SubDB.names.length with hi | hi
  · rw [hknown i hi] at h
    rcases Nat.lt_or_ge j SubDB.names.length with hj | hj
    · rw [hknown j hj] at h
      exact (List.Nodup.getElem_inj_iff (by decide)).1 h
    · rw [hunknown j hj, String.append_assoc] at h
      exact absurd h (not_unknown_of_mem (List.getElem_mem hi) _)
  · rw [hunknown i hi] at h
    rcases Nat.lt_or_ge j SubDB.names.length with hj | hj
    · rw [hknown j hj, String.append_assoc] at h
      exact absurd h.symm (not_unknown_of_mem (List.getElem_mem hj) _)
    · rw [hunknown j hj] at h
      have hrepr := (String.append_right_inj _).1 ((String.append_left_inj _).1 h)
      exact Nat.repr_inj.1 hrepr

theorem copied_eq (t : SubTable) : t.copied = t := by
  have hfold : t.copied = Std.ExtTreeMap.ofList t.toList compare := Std.ExtTreeMap.ofList_eq_foldl.symm
  have hdistinct : t.toList.Pairwise fun p q => ¬ compare p.1 q.1 = .eq :=
    Std.ExtTreeMap.distinct_keys_toList
  rw [hfold]
  apply Std.ExtTreeMap.ext_getElem?
  intro k
  cases hk : t[k]? with
  | some v =>
    have hmem : (k, v) ∈ t.toList := Std.ExtTreeMap.mem_toList_iff_getElem?_eq_some.2 hk
    exact Std.ExtTreeMap.getElem?_ofList_of_mem Std.ReflCmp.compare_self hdistinct hmem
  | none =>
    apply Std.ExtTreeMap.getElem?_ofList_of_contains_eq_false
    rw [Bool.eq_false_iff, ne_eq, List.contains_iff_mem, List.mem_map]
    intro h
    obtain ⟨p, hp, rfl⟩ := h
    rw [Std.ExtTreeMap.mem_toList_iff_getElem?_eq_some.1 hp] at hk
    cases hk

/-! ### What a get reads -/

section Reading

variable {s t : UnifiedLMDB maxDbs} {c : Compaction} {idx : ℤ} {i : Fin maxDbs}

theorem usable_iff : s.Usable ↔
    s.closed = false ∧ s.reopenEvent = true ∧ (s.initialized = true → s.env = .opened) := by
  constructor
  · intro h
    obtain ⟨t, ht⟩ := h
    have hready : ¬ (s.closed = true ∨ s.reopenEvent = false) := by
      intro hnot
      obtain ⟨e, he⟩ := exec_ensureInit_of_not hnot
      rw [Raising.exec_bind_error he] at ht
      cases ht
    rw [not_or, Bool.not_eq_true, Bool.not_eq_false] at hready
    refine ⟨hready.1, hready.2, ?_⟩
    intro hinit
    rw [Raising.exec_bind_ok (exec_ensureInit_of_initialized hready.1 hinit hready.2)] at ht
    by_contra henv
    obtain ⟨e, he⟩ := exec_useEnv_of_ne "begin" henv
    rw [he] at ht
    cases ht
  · intro h
    obtain ⟨hclosed, hevent, henv⟩ := h
    cases hinit : s.initialized with
    | true =>
      refine ⟨s, ?_⟩
      rw [Raising.exec_bind_ok (exec_ensureInit_of_initialized hclosed hinit hevent)]
      exact exec_useEnv_of_opened "begin" (henv hinit)
    | false =>
      refine ⟨{ s with
        env := .opened
        subDbs := fun _ => true
        initialized := true }, ?_⟩
      rw [Raising.exec_bind_ok (exec_ensureInit_of_fresh hclosed hinit hevent)]
      exact exec_useEnv_of_opened "begin" rfl

theorem exec_ensureInit_of_usable (h : s.Usable) :
    ∃ handles, ensureInit.exec s = (.ok ⟨⟩, { s with
      env := .opened
      subDbs := handles
      initialized := true }) := by
  obtain ⟨hclosed, hevent, henv⟩ := usable_iff.1 h
  cases hinit : s.initialized with
  | true =>
    refine ⟨s.subDbs, ?_⟩
    rw [exec_ensureInit_of_initialized hclosed hinit hevent, ← hinit, ← henv hinit]
  | false => exact ⟨_, exec_ensureInit_of_fresh hclosed hinit hevent⟩

theorem exec_openDb (opens : Bool) (hidx : (i : ℤ) = idx)
    (hinit : ensureInit.exec s = (.ok ⟨⟩, t)) :
    (openDb opens idx).exec s = (do
      if t.subDbs i then return i
      else
        useEnv "open_db"
        if opens then
          modify fun s => { s with subDbs := Function.update s.subDbs i true }
          return i
        else throw (.lmdb "open_db") : UnifiedM maxDbs (Fin maxDbs)).exec t := by
  subst hidx
  have hsame : (⟨(i : ℤ).toNat, by omega⟩ : Fin maxDbs) = i := Fin.ext (by simp)
  rw [openDb, Raising.exec_bind_ok hinit, dif_pos ⟨by omega, by omega⟩,
    Raising.exec_bind_ok (Raising.exec_get t), hsame]

theorem exec_openDb_of_handle (opens : Bool) (hidx : (i : ℤ) = idx)
    (hinit : ensureInit.exec s = (.ok ⟨⟩, t)) (hi : t.subDbs i = true) :
    (openDb opens idx).exec s = (.ok i, t) := by
  rw [exec_openDb opens hidx hinit, if_pos hi]
  rfl

theorem exec_openDb_of_opens {opens : Bool} (hidx : (i : ℤ) = idx)
    (hinit : ensureInit.exec s = (.ok ⟨⟩, t)) (hi : t.subDbs i = false) (henv : t.env = .opened)
    (hopens : opens = true) :
    (openDb opens idx).exec s = (.ok i, { t with subDbs := Function.update t.subDbs i true }) := by
  rw [exec_openDb opens hidx hinit, if_neg (Bool.eq_false_iff.1 hi),
    Raising.exec_bind_ok (exec_useEnv_of_opened "open_db" henv), if_pos hopens]
  rfl

theorem exec_openDb_of_not {opens : Bool} (hidx : (i : ℤ) = idx)
    (hinit : ensureInit.exec s = (.ok ⟨⟩, t)) (hi : t.subDbs i = false)
    (hnot : t.env ≠ .opened ∨ opens = false) : ∃ e, (openDb opens idx).exec s = (.error e, t) := by
  rw [exec_openDb opens hidx hinit, if_neg (Bool.eq_false_iff.1 hi)]
  by_cases henv : t.env = .opened
  · rw [Raising.exec_bind_ok (exec_useEnv_of_opened "open_db" henv),
      if_neg (Bool.eq_false_iff.1 (hnot.resolve_left fun h => h henv))]
    exact ⟨_, rfl⟩
  · obtain ⟨e, he⟩ := exec_useEnv_of_ne "open_db" henv
    exact ⟨e, Raising.exec_bind_error he⟩

theorem exec_openDb_of_range (opens : Bool) (hidx : ∀ i : Fin maxDbs, (i : ℤ) ≠ idx)
    (hinit : ensureInit.exec s = (.ok ⟨⟩, t)) : ∃ e, (openDb opens idx).exec s = (.error e, t) := by
  have hrange : ¬ (0 ≤ idx ∧ idx < maxDbs) := by
    intro h
    exact hidx ⟨idx.toNat, by omega⟩ (Int.toNat_of_nonneg h.1)
  rw [openDb, Raising.exec_bind_ok hinit, dif_neg hrange]
  exact ⟨_, rfl⟩

theorem exec_envBegin_of_usable (h : s.Usable) (hidx : (i : ℤ) = idx) :
    ∃ handles, (envBegin idx).exec s = (.ok i, { s with
      env := .opened
      subDbs := handles
      initialized := true }) := by
  obtain ⟨handles, hinit⟩ := exec_ensureInit_of_usable h
  cases hi : handles i with
  | true =>
    refine ⟨handles, ?_⟩
    rw [envBegin, Raising.exec_bind_ok (exec_openDb_of_handle true hidx hinit hi),
      Raising.exec_bind_ok (exec_useEnv_of_opened "begin" rfl)]
    rfl
  | false =>
    refine ⟨Function.update handles i true, ?_⟩
    rw [envBegin, Raising.exec_bind_ok (exec_openDb_of_opens hidx hinit hi rfl rfl),
      Raising.exec_bind_ok (exec_useEnv_of_opened "begin" rfl)]
    rfl

theorem exec_envBegin_of_not_usable (h : ¬ s.Usable) (idx : ℤ) :
    ∃ e t, (envBegin idx).exec s = (.error e, t) := by
  by_cases hready : s.closed = true ∨ s.reopenEvent = false
  · obtain ⟨e, he⟩ := exec_ensureInit_of_not hready
    rw [envBegin, openDb]
    exact ⟨e, s, Raising.exec_bind_error (Raising.exec_bind_error he)⟩
  · rw [not_or, Bool.not_eq_true, Bool.not_eq_false] at hready
    have hinit : s.initialized = true := by
      by_contra hfresh
      exact h (usable_iff.2 ⟨hready.1, hready.2, fun hinit => absurd hinit hfresh⟩)
    have henv : s.env ≠ .opened := fun henv => h (usable_iff.2 ⟨hready.1, hready.2, fun _ => henv⟩)
    have hensure := exec_ensureInit_of_initialized hready.1 hinit hready.2
    rw [envBegin]
    by_cases hrange : ∃ i : Fin maxDbs, (i : ℤ) = idx
    · obtain ⟨i, hidx⟩ := hrange
      cases hi : s.subDbs i with
      | true =>
        obtain ⟨e, he⟩ := exec_useEnv_of_ne "begin" henv
        refine ⟨e, s, ?_⟩
        rw [Raising.exec_bind_ok (exec_openDb_of_handle true hidx hensure hi), Raising.exec_bind_error he]
      | false =>
        obtain ⟨e, he⟩ := exec_openDb_of_not hidx hensure hi (.inl henv)
        exact ⟨e, s, Raising.exec_bind_error he⟩
    · obtain ⟨e, he⟩ := exec_openDb_of_range true (not_exists.1 hrange) hensure
      exact ⟨e, s, Raising.exec_bind_error he⟩

theorem exec_envBegin_of_range (hidx : ∀ i : Fin maxDbs, (i : ℤ) ≠ idx) :
    ∃ e t, (envBegin idx).exec s = (.error e, t) := by
  by_cases h : s.Usable
  · obtain ⟨handles, hinit⟩ := exec_ensureInit_of_usable h
    obtain ⟨e, he⟩ := exec_openDb_of_range true hidx hinit
    exact ⟨e, _, Raising.exec_bind_error he⟩
  · exact exec_envBegin_of_not_usable h idx

theorem fst_get_of_usable (h : s.Usable) (hidx : (i : ℤ) = idx) (key : Bytes) :
    ((get idx key).exec s).1 = .ok (s.table i)[key]? := by
  obtain ⟨handles, hbegin⟩ := exec_envBegin_of_usable h hidx
  rw [get, Raising.exec_tryCatch, Raising.exec_bind_ok hbegin]
  rfl

theorem fst_get_of_error (h : ∃ e t, (envBegin idx).exec s = (.error e, t)) (key : Bytes) :
    ((get idx key).exec s).1 = .ok none := by
  obtain ⟨e, t, he⟩ := h
  rw [get, Raising.exec_tryCatch, Raising.exec_bind_error he]
  rfl

end Reading

/-! ### What a compaction does -/

section Course

variable {s : UnifiedLMDB maxDbs} {c : Compaction} {idx : ℤ} {i : Fin maxDbs}
  {α : Type}

/-- The store is open. -/
structure IsOpen (s : UnifiedLMDB maxDbs) : Prop where
  notClosed : s.closed = false
  initialized : s.initialized = true
  event : s.reopenEvent = true

theorem IsOpen.exec_ensureInit (h : s.IsOpen) : ensureInit.exec s = (.ok ⟨⟩, s) :=
  exec_ensureInit_of_initialized h.notClosed h.initialized h.event

theorem exec_attempt_bind (c : Compaction) (op : CompactOp) (operation : String)
    (f : PUnit → UnifiedM maxDbs α) (s : UnifiedLMDB maxDbs) :
    (c.attempt op operation >>= f).exec s =
      if c.succeeds op = true then (f ⟨⟩).exec s else (.error (.lmdb operation), s) := by
  rw [Compaction.attempt]
  split
  · rfl
  · rfl

theorem exec_envBegin_of_handle (hopen : s.IsOpen) (hidx : (i : ℤ) = idx) (hi : s.subDbs i = true) :
    if s.env = .opened then (envBegin idx).exec s = (.ok i, s)
    else ∃ e, (envBegin idx).exec s = (.error e, s) := by
  have hdb : (openDb true idx).exec s = (.ok i, s) :=
    exec_openDb_of_handle true hidx hopen.exec_ensureInit hi
  rw [envBegin]
  split
  · next henv =>
    rw [Raising.exec_bind_ok hdb, Raising.exec_bind_ok (exec_useEnv_of_opened "begin" henv)]
    rfl
  · next henv =>
    obtain ⟨e, he⟩ := exec_useEnv_of_ne "begin" henv
    refine ⟨e, ?_⟩
    rw [Raising.exec_bind_ok hdb, Raising.exec_bind_error he]

theorem exec_statEmpty (hopen : s.IsOpen) (hidx : (i : ℤ) = idx) (hi : s.subDbs i = true) :
    ∃ b, (statEmpty c idx).exec s = (.ok b, s) ∧
      (b = true ↔ s.env = .opened ∧ c.succeeds .stat = true ∧ (s.table i).isEmpty = true) := by
  have hbegin := exec_envBegin_of_handle hopen hidx hi
  rw [statEmpty, Raising.exec_tryCatch]
  by_cases henv : s.env = .opened
  · rw [if_pos henv] at hbegin
    rw [Raising.exec_bind_ok hbegin]
    rw [exec_attempt_bind]
    by_cases hstat : c.succeeds .stat = true
    · rw [if_pos hstat]
      exact ⟨(s.table i).isEmpty, rfl, by simp [henv, hstat]⟩
    · rw [if_neg hstat]
      exact ⟨false, rfl, by simp [hstat]⟩
  · rw [if_neg henv] at hbegin
    obtain ⟨e, he⟩ := hbegin
    rw [Raising.exec_bind_error he]
    exact ⟨false, rfl, by simp [henv]⟩

theorem exec_copyLive_of_copied (hopen : s.IsOpen) (hidx : (i : ℤ) = idx) (hi : s.subDbs i = true)
    (henv : s.env = .opened) (hops : ∀ op ∈ copyOps, c.succeeds op = true) :
    (copyLive c idx).exec s = (.ok (.single (SubDB.name i) (s.table i)), s) := by
  have hbegin := exec_envBegin_of_handle hopen hidx hi
  rw [if_pos henv] at hbegin
  rw [copyLive, exec_attempt_bind, if_pos (hops .tempDir (by simp [copyOps])), exec_attempt_bind,
    if_pos (hops .tempEnv (by simp [copyOps])), exec_attempt_bind,
    if_pos (hops .tempSub (by simp [copyOps])), Raising.exec_bind_ok hbegin,
    Raising.exec_bind_ok (Raising.exec_get s), exec_attempt_bind,
    if_pos (hops .copy (by simp [copyOps])), exec_attempt_bind,
    if_pos (hops .sync (by simp [copyOps])), exec_attempt_bind,
    if_pos (hops .closeTemp (by simp [copyOps])), copied_eq]
  rfl

theorem exec_copyLive_of_not (hopen : s.IsOpen) (hidx : (i : ℤ) = idx) (hi : s.subDbs i = true)
    (h : ¬ (s.env = .opened ∧ ∀ op ∈ copyOps, c.succeeds op = true)) :
    ∃ e, (copyLive c idx).exec s = (.error e, s) := by
  have hbegin := exec_envBegin_of_handle hopen hidx hi
  rw [copyLive, exec_attempt_bind]
  by_cases hdir : c.succeeds .tempDir = true
  case neg => exact ⟨_, if_neg hdir⟩
  rw [if_pos hdir, exec_attempt_bind]
  by_cases hnew : c.succeeds .tempEnv = true
  case neg => exact ⟨_, if_neg hnew⟩
  rw [if_pos hnew, exec_attempt_bind]
  by_cases hsub : c.succeeds .tempSub = true
  case neg => exact ⟨_, if_neg hsub⟩
  rw [if_pos hsub]
  by_cases henv : s.env = .opened
  case neg =>
    rw [if_neg henv] at hbegin
    obtain ⟨e, he⟩ := hbegin
    exact ⟨e, Raising.exec_bind_error he⟩
  rw [if_pos henv] at hbegin
  rw [Raising.exec_bind_ok hbegin, Raising.exec_bind_ok (Raising.exec_get s), exec_attempt_bind]
  by_cases hcopy : c.succeeds .copy = true
  case neg => exact ⟨_, if_neg hcopy⟩
  rw [if_pos hcopy, exec_attempt_bind]
  by_cases hsync : c.succeeds .sync = true
  case neg => exact ⟨_, if_neg hsync⟩
  rw [if_pos hsync, exec_attempt_bind]
  by_cases hclose : c.succeeds .closeTemp = true
  case neg => exact ⟨_, if_neg hclose⟩
  exact absurd ⟨henv, by simp [copyOps, hdir, hnew, hsub, hcopy, hsync, hclose]⟩ h

theorem final_compactAtomicSwap (c : Compaction) (hopen : s.IsOpen) (i : Fin maxDbs) (file : DataFile) :
    (c.Swaps → ((compactAtomicSwap c i file).exec s).2.Usable ∧
      ((compactAtomicSwap c i file).exec s).2.disk = file) ∧
    (¬ c.Swaps → ¬ ((compactAtomicSwap c i file).exec s).2.Usable) := by
  obtain ⟨hclosed, hinit, hevent⟩ := hopen
  rw [Compaction.Swaps, compactAtomicSwap, Raising.exec_bind_ok (Raising.exec_get s),
    Raising.exec_bind_ok (Raising.exec_modify _ s), exec_attempt_bind]
  by_cases hunlink : c.succeeds .unlinkLock = true
  case neg =>
    rw [if_neg hunlink]
    refine ⟨fun h => absurd h.1 hunlink, fun _ h => ?_⟩
    exact absurd ((usable_iff.1 h).2.2 hinit) nofun
  rw [if_pos hunlink, Raising.exec_bind_ok (Raising.exec_modify _ _), exec_attempt_bind]
  by_cases hmove : c.succeeds .moveData = true
  case neg =>
    rw [if_neg hmove]
    refine ⟨fun h => absurd h.2.1 hmove, fun _ h => ?_⟩
    exact absurd ((usable_iff.1 h).2.2 hinit) nofun
  rw [if_pos hmove, exec_attempt_bind]
  by_cases hlock : c.succeeds .moveLock = true
  case neg =>
    rw [if_neg hlock]
    refine ⟨fun h => absurd h.2.2.1 hlock, fun _ h => ?_⟩
    exact absurd ((usable_iff.1 h).2.2 hinit) nofun
  rw [if_pos hlock]
  by_cases hagain : (c.succeeds .reopen || c.succeeds .restore) = true
  · refine ⟨fun _ => ?_, fun h => absurd ⟨hunlink, hmove, hlock, by simpa using hagain⟩ h⟩
    rw [if_pos hagain, Raising.exec_bind_ok (Raising.exec_modify _ _), exec_attempt_bind, if_pos hmove]
    split
    · exact ⟨usable_iff.2 ⟨hclosed, hevent, fun _ => rfl⟩, rfl⟩
    · exact ⟨usable_iff.2 ⟨hclosed, hevent, fun _ => rfl⟩, rfl⟩
  · refine ⟨fun h => absurd (by simpa using h.2.2.2) hagain, fun _ h => ?_⟩
    rw [if_neg hagain] at h
    exact absurd (usable_iff.1 h).1 nofun

theorem snd_exec_tryCatch_return (x : UnifiedM maxDbs α) (a : α) (s : UnifiedLMDB maxDbs) :
    ((tryCatch x fun _ => return a : UnifiedM maxDbs α).exec s).2 = (x.exec s).2 := by
  rw [Raising.exec_tryCatch]
  rcases x.exec s with ⟨_ | _, t⟩ <;> rfl

private theorem final_of_handle (c : Compaction) (hopen : s.IsOpen) (hidx : (i : ℤ) = idx)
    (hi : s.subDbs i = true) :
    ¬ s.ReachesSwap c i ∧ ((do
          if ← statEmpty c idx then return true
          else
            tryCatch (do
                let file ← copyLive c idx
                compactAtomicSwap c i file
                return true)
              fun _ => return false : UnifiedM maxDbs Bool).exec s).2 = s ∨
      s.ReachesSwap c i ∧ ((do
          if ← statEmpty c idx then return true
          else
            tryCatch (do
                let file ← copyLive c idx
                compactAtomicSwap c i file
                return true)
              fun _ => return false : UnifiedM maxDbs Bool).exec s).2 =
        ((compactAtomicSwap c i (.single (SubDB.name i) (s.table i))).exec s).2 := by
  obtain ⟨b, hstat, hb⟩ := exec_statEmpty (c := c) hopen hidx hi
  rw [Raising.exec_bind_ok hstat]
  cases b with
  | true =>
    obtain ⟨-, hsucceeds, hempty⟩ := hb.1 rfl
    refine .inl ⟨?_, rfl⟩
    intro h
    rw [h.notEmpty hsucceeds] at hempty
    cases hempty
  | false =>
    rw [if_neg nofun, snd_exec_tryCatch_return]
    by_cases h : s.env = .opened ∧ ∀ op ∈ copyOps, c.succeeds op = true
    · refine .inr ⟨⟨hopen.notClosed, hopen.initialized, hopen.event, h.1, .inl hi, ?_, h.2⟩, ?_⟩
      · intro hsucceeds
        rw [Bool.eq_false_iff]
        intro hempty
        cases hb.2 ⟨h.1, hsucceeds, hempty⟩
      · rw [Raising.exec_bind_ok (exec_copyLive_of_copied hopen hidx hi h.1 h.2), Raising.exec_bind]
        rcases (compactAtomicSwap c i (.single (SubDB.name i) (s.table i))).exec s with ⟨_ | _, t⟩ <;> rfl
    · obtain ⟨e, he⟩ := exec_copyLive_of_not hopen hidx hi h
      refine .inl ⟨fun hreach => h ⟨hreach.env, hreach.copied⟩, ?_⟩
      rw [Raising.exec_bind_error he]

theorem final_compactSubdb (c : Compaction) (idx : ℤ) (s : UnifiedLMDB maxDbs) :
    (∀ i : Fin maxDbs, (i : ℤ) = idx → ¬ s.ReachesSwap c i) ∧
        (∃ handles, ((compactSubdb c idx).exec s).2 = { s with subDbs := handles }) ∨
      ∃ i : Fin maxDbs, (i : ℤ) = idx ∧ s.ReachesSwap c i ∧ ∃ handles,
        ((compactSubdb c idx).exec s).2 =
          ((compactAtomicSwap c i (.single (SubDB.name i) (s.table i))).exec
            { s with subDbs := handles }).2 := by
  rw [compactSubdb, Raising.exec_bind_ok (Raising.exec_get s)]
  by_cases hready : (s.closed || !s.initialized) = true
  · rw [if_pos hready]
    refine .inl ⟨?_, s.subDbs, rfl⟩
    intro i _ h
    rw [h.notClosed, h.initialized] at hready
    cases hready
  · rw [if_neg hready]
    simp only [Bool.or_eq_true, Bool.not_eq_true', not_or, Bool.not_eq_true, Bool.not_eq_false] at hready
    by_cases hevent : s.reopenEvent = true
    case neg =>
      obtain ⟨e, he⟩ := exec_ensureInit_of_not (.inr (Bool.eq_false_iff.2 hevent))
      have hdb : (openDb (c.succeeds .openSub) idx).exec s = (.error e, s) := by
        rw [openDb]
        exact Raising.exec_bind_error he
      rw [Raising.exec_bind_error hdb]
      exact .inl ⟨fun i _ h => hevent h.event, s.subDbs, rfl⟩
    case pos =>
      have hopen : s.IsOpen := ⟨hready.1, hready.2, hevent⟩
      by_cases hrange : ∃ i : Fin maxDbs, (i : ℤ) = idx
      case neg =>
        have hnone := not_exists.1 hrange
        obtain ⟨e, he⟩ := exec_openDb_of_range (c.succeeds .openSub) hnone hopen.exec_ensureInit
        rw [Raising.exec_bind_error he]
        exact .inl ⟨fun i hi _ => hnone i hi, s.subDbs, rfl⟩
      obtain ⟨i, hidx⟩ := hrange
      have honly : ∀ j : Fin maxDbs, (j : ℤ) = idx → j = i :=
        fun j hj => Fin.ext (by omega)
      by_cases hi : s.subDbs i = true
      case pos =>
        rw [Raising.exec_bind_ok (exec_openDb_of_handle _ hidx hopen.exec_ensureInit hi)]
        cases final_of_handle c hopen hidx hi with
        | inl h =>
          refine .inl ⟨?_, s.subDbs, h.2⟩
          intro j hj
          rw [honly j hj]
          exact h.1
        | inr h => exact .inr ⟨i, hidx, h.1, s.subDbs, h.2⟩
      case neg =>
        have hfalse := Bool.eq_false_iff.2 hi
        by_cases hnew : s.env = .opened ∧ c.succeeds .openSub = true
        · have hhandle : Function.update s.subDbs i true i = true := Function.update_self ..
          rw [Raising.exec_bind_ok (exec_openDb_of_opens hidx hopen.exec_ensureInit hfalse hnew.1 hnew.2)]
          cases final_of_handle (s := { s with subDbs := Function.update s.subDbs i true }) c
            ⟨hopen.1, hopen.2, hopen.3⟩ hidx hhandle with
          | inl h =>
            refine .inl ⟨?_, _, h.2⟩
            intro j hj hreach
            rw [honly j hj] at hreach
            exact h.1 ⟨hreach.1, hreach.2, hreach.3, hreach.4, .inl hhandle, hreach.6, hreach.7⟩
          | inr h =>
            refine .inr ⟨i, hidx, ?_, _, h.2⟩
            exact ⟨h.1.1, h.1.2, h.1.3, h.1.4, .inr hnew.2, h.1.6, h.1.7⟩
        · have hnot : s.env ≠ .opened ∨ c.succeeds .openSub = false := by
            rw [← Bool.not_eq_true]
            exact not_and_or.1 hnew
          obtain ⟨e, he⟩ := exec_openDb_of_not hidx hopen.exec_ensureInit hfalse hnot
          rw [Raising.exec_bind_error he]
          refine .inl ⟨?_, s.subDbs, rfl⟩
          intro j hj hreach
          rw [honly j hj] at hreach
          exact hnew ⟨hreach.env, hreach.handle.resolve_left hi⟩

end Course

/-! ### What it preserves -/

/-- The store `t` has nothing that `s` has not. -/
structure Loses (s t : UnifiedLMDB maxDbs) : Prop where
  usable : t.Usable → s.Usable
  tables : t.Usable → ∀ i, t.table i = s.table i ∨ t.table i = ∅

section Preserving

variable {s t u : UnifiedLMDB maxDbs} {c : Compaction} {idx : ℤ}

theorem Loses.refl (s : UnifiedLMDB maxDbs) : Loses s s := ⟨id, fun _ _ => .inl rfl⟩

theorem Loses.trans (h : Loses s t) (h' : Loses t u) : Loses s u := by
  refine ⟨fun hu => h.usable (h'.usable hu), ?_⟩
  intro hu i
  rcases h'.tables hu i with hi | hi
  · rw [hi]
    exact h.tables (h'.usable hu) i
  · exact .inr hi

theorem fst_get_of_not_usable (h : ¬ s.Usable) (idx : ℤ) (key : Bytes) :
    ((get idx key).exec s).1 = .ok none :=
  fst_get_of_error (exec_envBegin_of_not_usable h idx) key

theorem Loses.preserves_iff (h : Loses s t) :
    Preserves s t ↔ (s.Usable → t.Usable ∧ ∀ i, t.table i = s.table i) := by
  constructor
  · intro hp hs
    have ht := hp.usable hs
    refine ⟨ht, ?_⟩
    intro i
    apply Std.ExtTreeMap.ext_getElem?
    intro key
    have hget := hp.gets i key
    rw [fst_get_of_usable ht rfl, fst_get_of_usable hs rfl] at hget
    exact Except.ok.inj hget
  · intro hsame
    by_cases hs : s.Usable
    · obtain ⟨ht, htables⟩ := hsame hs
      refine ⟨?_, fun _ => ht⟩
      intro idx key
      by_cases hrange : ∃ i : Fin maxDbs, (i : ℤ) = idx
      · obtain ⟨i, hi⟩ := hrange
        rw [fst_get_of_usable ht hi, fst_get_of_usable hs hi, htables]
      · have hnone := not_exists.1 hrange
        rw [fst_get_of_error (exec_envBegin_of_range hnone), fst_get_of_error (exec_envBegin_of_range hnone)]
    · have ht : ¬ t.Usable := fun ht => hs (h.usable ht)
      refine ⟨?_, fun hs' => absurd hs' hs⟩
      intro idx key
      rw [fst_get_of_not_usable ht, fst_get_of_not_usable hs]

theorem Loses.preserves_trans_iff (h : Loses s t) (h' : Loses t u) :
    Preserves s u ↔ Preserves s t ∧ Preserves t u := by
  rw [(h.trans h').preserves_iff, h.preserves_iff, h'.preserves_iff]
  constructor
  · intro hsame
    have hkept : s.Usable → ∀ i, t.table i = s.table i := by
      intro hs i
      obtain ⟨hu, htables⟩ := hsame hs
      rcases h.tables (h'.usable hu) i with hi | hi
      · exact hi
      · rcases h'.tables hu i with hi' | hi'
        · rw [← hi', htables]
        · rw [← htables, hi', hi]
    refine ⟨fun hs => ⟨h'.usable (hsame hs).1, hkept hs⟩, ?_⟩
    intro ht
    have hs := h.usable ht
    refine ⟨(hsame hs).1, ?_⟩
    intro i
    rw [(hsame hs).2, hkept hs]
  · intro hboth hs
    obtain ⟨ht, htables⟩ := hboth.1 hs
    obtain ⟨hu, hutables⟩ := hboth.2 ht
    refine ⟨hu, ?_⟩
    intro i
    rw [hutables, htables]

theorem usable_handles (handles : Fin maxDbs → Bool) :
    Usable { s with subDbs := handles } ↔ s.Usable := by
  rw [usable_iff, usable_iff]

theorem table_single {t : SubTable} {i j : Fin maxDbs} (h : s.disk = .single (SubDB.name i) t) :
    s.table j = if j = i then t else ∅ := by
  rw [table, h, DataFile.single]
  by_cases hj : j = i
  · rw [if_pos hj, if_pos (by rw [hj])]
  · rw [if_neg hj, if_neg fun hname => hj (Fin.ext (name_injective hname))]

private theorem final_swap {i : Fin maxDbs} (hreach : s.ReachesSwap c i) {handles : Fin maxDbs → Bool}
    (ht : t = ((compactAtomicSwap c i (.single (SubDB.name i) (s.table i))).exec
      { s with subDbs := handles }).2) :
    s.Usable ∧ (t.Usable ↔ c.Swaps) ∧ (t.Usable → ∀ j, t.table j = if j = i then s.table i else ∅) := by
  have hswap := final_compactAtomicSwap (s := { s with subDbs := handles }) c
    ⟨hreach.notClosed, hreach.initialized, hreach.event⟩ i (.single (SubDB.name i) (s.table i))
  rw [← ht] at hswap
  have husable : t.Usable ↔ c.Swaps := by
    constructor
    · intro h
      by_contra hnot
      exact hswap.2 hnot h
    · intro h
      exact (hswap.1 h).1
  refine ⟨usable_iff.2 ⟨hreach.notClosed, hreach.event, fun _ => hreach.env⟩, husable, ?_⟩
  intro h j
  exact table_single (hswap.1 (husable.1 h)).2

theorem loses_compactSubdb (c : Compaction) (idx : ℤ) (s : UnifiedLMDB maxDbs) :
    Loses s ((compactSubdb c idx).exec s).2 := by
  rcases final_compactSubdb c idx s with ⟨-, handles, ht⟩ | ⟨i, -, hreach, handles, ht⟩
  · rw [ht]
    exact ⟨(usable_handles handles).1, fun _ _ => .inl rfl⟩
  · obtain ⟨hs, -, htables⟩ := final_swap hreach ht
    refine ⟨fun _ => hs, ?_⟩
    intro h j
    rw [htables h]
    by_cases hj : j = i
    · rw [if_pos hj, hj]
      exact .inl rfl
    · rw [if_neg hj]
      exact .inr rfl

theorem preserves_compactSubdb_iff (c : Compaction) (idx : ℤ) (s : UnifiedLMDB maxDbs) :
    Preserves s ((compactSubdb c idx).exec s).2 ↔ s.KeepsSubDbs c idx := by
  rw [(loses_compactSubdb c idx s).preserves_iff]
  rcases final_compactSubdb c idx s with ⟨hnot, handles, ht⟩ | ⟨i, hidx, hreach, handles, ht⟩
  · rw [ht]
    apply iff_of_true
    · intro hs
      exact ⟨(usable_handles handles).2 hs, fun _ => rfl⟩
    · intro i hi hreach
      exact absurd hreach (hnot i hi)
  · obtain ⟨hs, husable, htables⟩ := final_swap hreach ht
    rw [KeepsSubDbs]
    constructor
    · intro h i' hi' _
      obtain rfl : i' = i := Fin.ext (by omega)
      obtain ⟨hu, hsame⟩ := h hs
      refine ⟨husable.1 hu, ?_⟩
      intro j hj
      rw [Std.ExtTreeMap.isEmpty_iff, ← hsame j, htables hu, if_neg hj]
    · intro h _
      obtain ⟨hswaps, hempty⟩ := h i hidx hreach
      have hu := husable.2 hswaps
      refine ⟨hu, ?_⟩
      intro j
      rw [htables hu]
      by_cases hj : j = i
      · rw [if_pos hj, hj]
      · rw [if_neg hj]
        exact (Std.ExtTreeMap.isEmpty_iff.1 (hempty j hj)).symm

/-- A part of `compact_all_subdbs`. -/
private abbrev compactAll (cs : Fin maxDbs → Compaction) (is : List (Fin maxDbs)) :
    UnifiedM maxDbs (List (Fin maxDbs × Bool)) :=
  is.mapM fun i => do
    return (i, ← compactSubdb (cs i) i)

private theorem final_compactAll_cons (cs : Fin maxDbs → Compaction) (i : Fin maxDbs)
    (is : List (Fin maxDbs)) (s : UnifiedLMDB maxDbs) :
    ((compactAll cs (i :: is)).exec s).2 =
      match (compactSubdb (cs i) i).exec s with
      | (.ok _, t) => ((compactAll cs is).exec t).2
      | (.error _, t) => t := by
  rw [compactAll, List.mapM_cons, Raising.exec_bind, Raising.exec_bind]
  rcases (compactSubdb (cs i) i).exec s with ⟨_ | b, t⟩
  · rfl
  · simp only [Raising.exec_pure, Raising.exec_bind]
    rcases (compactAll cs is).exec t with ⟨_ | _, u⟩ <;> rfl

private theorem preserves_compactAll_iff (cs : Fin maxDbs → Compaction) (is : List (Fin maxDbs))
    (s : UnifiedLMDB maxDbs) :
    Loses s ((compactAll cs is).exec s).2 ∧
      (Preserves s ((compactAll cs is).exec s).2 ↔ KeepsAllOf cs is s) := by
  induction is generalizing s with
  | nil => exact ⟨Loses.refl s, iff_of_true ⟨fun _ _ => rfl, id⟩ trivial⟩
  | cons i is ih =>
    have hloses := loses_compactSubdb (cs i) i s
    have hiff := preserves_compactSubdb_iff (cs i) i s
    rw [final_compactAll_cons, KeepsAllOf]
    rcases hrun : (compactSubdb (cs i) i).exec s with ⟨_ | b, t⟩ <;> rw [hrun] at hloses hiff
    · exact ⟨hloses, hiff.trans (and_iff_left trivial).symm⟩
    · obtain ⟨hrest, hrestIff⟩ := ih t
      refine ⟨hloses.trans hrest, ?_⟩
      exact (hloses.preserves_trans_iff hrest).trans (and_congr hiff hrestIff)

/-- A compaction preserves the store exactly where it keeps the sub-databases, and so do all of them. -/
theorem preserves_iff_keepsSubDbs (s : UnifiedLMDB maxDbs) :
    (∀ c idx, Preserves s ((compactSubdb c idx).exec s).2 ↔ s.KeepsSubDbs c idx) ∧
      ∀ cs, Preserves s ((compactAllSubdbs cs).exec s).2 ↔ s.KeepsAllSubDbs cs :=
  ⟨fun c idx => preserves_compactSubdb_iff c idx s,
    fun cs => (preserves_compactAll_iff cs (List.finRange maxDbs) s).2⟩

/-- An open store with the same pair in both of its sub-databases. -/
def twoTables : UnifiedLMDB 2 where
  mapSizeDefault := mapSizeCeiling
  mapSizeCurrent := mapSizeCeiling
  initialized := true
  reopenEvent := true
  env := .opened
  disk := fun _ => Std.ExtTreeMap.empty.insert [107] [118]

/-- No operation fails, and the second sub-database is lost. -/
theorem not_preserves_twoTables :
    ¬ Preserves twoTables ((compactSubdb {} 0).exec twoTables).2 := by
  have hpair : ∀ i, (twoTables.table i).isEmpty = false := by
    intro i
    rw [Std.ExtTreeMap.isEmpty_eq_false_iff]
    exact Std.ExtTreeMap.insert_ne_empty
  rw [preserves_compactSubdb_iff]
  intro h
  have hempty := (h 0 rfl ⟨rfl, rfl, rfl, rfl, .inr rfl, fun _ => hpair 0, fun _ _ => rfl⟩).2 1 (by decide)
  rw [hpair] at hempty
  cases hempty

end Preserving

end UnifiedLMDB

end Hledac.Core
