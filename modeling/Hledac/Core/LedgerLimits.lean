import Mathlib.Algebra.Order.BigOperators.Group.List
import Hledac.Core.LedgerBalance

/-!
# The limits of the ledger

Every type passes one check with an increment of one. For types that are counted this keeps the limit;
for the temporary volume, which is measured in bytes, the size of the allocation is not looked at.
-/

namespace Hledac.Core

open Hledac.Lib

/-- The types that the ledger counts by their records. -/
def ResourceType.Counted (t : ResourceType) : Prop :=
  t = .childProcess ∨ t = .mmapRegion ∨ t = .thread

/-- The bytes that a record stands for. -/
def ResourceAllocation.bytes (a : ResourceAllocation) : ℤ := a.sizeBytes.getD 0

namespace Records

variable {r : Records} {a : ResourceAllocation} {t u : ResourceType} {handle : Handle}

/-- The bytes of the records of a type. -/
def bytes (r : Records) (t : ResourceType) : ℤ := (r.table t).total ResourceAllocation.bytes

theorem bytes_put : (r.put a).bytes t =
    if t = a.type then a.bytes + (r.erase t a.handle).bytes t else r.bytes t := by
  show (Function.update r.table a.type ((r.table a.type).insert a.handle a) t).total _ = _
  by_cases ht : t = a.type
  · subst ht
    have herase : (r.erase a.type a.handle).table a.type = (r.table a.type).erase a.handle :=
      Function.update_self _ _ _
    rw [Function.update_self, if_pos rfl, Dict.total_insert, bytes, herase]
  · rw [Function.update_of_ne ht, if_neg ht]
    rfl

theorem count_erase_le : (r.erase t handle).count u ≤ r.count u := by
  show (Function.update r.table t ((r.table t).erase handle) u).size ≤ (r.table u).size
  by_cases ht : u = t
  · subst ht
    rw [Function.update_self]
    exact List.length_filter_le _ _
  · rw [Function.update_of_ne ht]

/-- The records of the counted types and the bytes of the temporary volume are within the limits. -/
structure Within (limits : ResourceLimits) (r : Records) : Prop where
  childProcess : r.count .childProcess ≤ limits.maxChildProcesses
  mmapRegion : r.count .mmapRegion ≤ limits.maxMmapRegions
  thread : r.count .thread ≤ limits.maxThreads
  tmpVolume : r.bytes .tmpVolume ≤ limits.maxTmpVolumeBytes

/-- No record of the temporary volume is of a negative size. -/
def Sized (r : Records) : Prop := ∀ handle a, r.get? .tmpVolume handle = some a → 0 ≤ a.bytes

theorem Sized.erase (h : r.Sized) (t : ResourceType) (handle : Handle) : (r.erase t handle).Sized := by
  intro j a ha
  rw [get?_erase] at ha
  split at ha
  · cases ha
  · exact h j a ha

theorem Sized.bytes_erase_le (h : r.Sized) (t : ResourceType) (handle : Handle) :
    (r.erase t handle).bytes .tmpVolume ≤ r.bytes .tmpVolume := by
  show (Function.update r.table t ((r.table t).erase handle) .tmpVolume).total _ ≤ _
  by_cases ht : .tmpVolume = t
  · subst ht
    rw [Function.update_self, bytes]
    cases hget : (r.table .tmpVolume).get? handle with
    | none => rw [Dict.erase_of_notMem (Dict.notMem_keys_iff.2 hget)]
    | some a =>
      rw [Dict.total_eq_add_erase ResourceAllocation.bytes hget]
      have ha := h handle a hget
      omega
  · rw [Function.update_of_ne ht]
    exact le_refl _

theorem Within.erase {limits : ResourceLimits} (h : r.Within limits) (hs : r.Sized) (t : ResourceType)
    (handle : Handle) : (r.erase t handle).Within limits where
  childProcess := count_erase_le.trans h.childProcess
  mmapRegion := count_erase_le.trans h.mmapRegion
  thread := count_erase_le.trans h.thread
  tmpVolume := (hs.bytes_erase_le t handle).trans h.tmpVolume

theorem Sized.put (h : r.Sized) (ha : a.type = .tmpVolume → 0 ≤ a.bytes) : (r.put a).Sized := by
  intro j b hb
  rw [get?_put] at hb
  split at hb
  · next hk =>
    cases hb
    exact ha hk.1
  · exact h j b hb

theorem Within.put {limits : ResourceLimits} (h : r.Within limits) (hs : r.Sized)
    (hchild : a.type = .childProcess → r.count .childProcess + 1 ≤ limits.maxChildProcesses)
    (hmmap : a.type = .mmapRegion → r.count .mmapRegion + 1 ≤ limits.maxMmapRegions)
    (hthread : a.type = .thread → r.count .thread + 1 ≤ limits.maxThreads)
    (htmp : a.type = .tmpVolume → r.bytes .tmpVolume + a.bytes ≤ limits.maxTmpVolumeBytes) :
    (r.put a).Within limits where
  childProcess := by
    rw [count_put]
    split
    · next hk => exact hchild hk.1
    · exact h.childProcess
  mmapRegion := by
    rw [count_put]
    split
    · next hk => exact hmmap hk.1
    · exact h.mmapRegion
  thread := by
    rw [count_put]
    split
    · next hk => exact hthread hk.1
    · exact h.thread
  tmpVolume := by
    rw [bytes_put]
    split
    · next ht =>
      have hroom := htmp ht.symm
      have hless := hs.bytes_erase_le .tmpVolume a.handle
      omega
    · exact h.tmpVolume

end Records

namespace ResourceLedger

variable {s : ResourceLedger} {r : Readings} {t : ResourceType}

/-- The request for an amount of one type. -/
def Bundle.only (n : ℤ) : ResourceType → Bundle
  | .fileDescriptor => { fds := n }
  | .machPort => { machPorts := n }
  | .childProcess => { childProcesses := n }
  | .mmapRegion => { mmapRegions := n }
  | .metalCache => { metalCacheBytes := n }
  | .thread => { threads := n }
  | .tmpVolume => { tmpVolumeBytes := n }

theorem amount_only (n : ℤ) (t u : ResourceType) :
    (Bundle.only n t).amount u = if t = u then n else 0 := by
  cases t <;> cases u <;> rfl

private theorem canAdmitFrom_of_notMem (n : ℤ) {types : List ResourceType} (h : t ∉ types) :
    s.canAdmitFrom r (Bundle.only n t) types = (none, s) := by
  induction types with
  | nil => rfl
  | cons u rest ih =>
    rw [List.mem_cons, not_or] at h
    rw [canAdmitFrom, amount_only, if_neg h.1, if_pos (le_refl 0)]
    exact ih h.2

private theorem canAdmitFrom_only (n : ℤ) {types : List ResourceType} (h : t ∈ types)
    (hnodup : types.Nodup) :
    (s.canAdmitFrom r (Bundle.only n t) types).1.isNone =
      decide (n ≤ 0 ∨ (s.getCurrent r t).1 + n ≤ s.getLimit t) := by
  induction types with
  | nil => cases h
  | cons u rest ih =>
    rw [List.nodup_cons] at hnodup
    rw [canAdmitFrom, amount_only]
    by_cases htu : t = u
    · subst htu
      rw [if_pos rfl]
      by_cases hn : n ≤ 0
      · rw [if_pos hn, canAdmitFrom_of_notMem n hnodup.1]
        simp [hn]
      · rw [if_neg hn]
        by_cases hroom : (s.getCurrent r t).1 + n ≤ s.getLimit t
        · rw [if_neg (not_lt_of_ge hroom), canAdmitFrom_of_notMem n hnodup.1]
          simp [hroom]
        · rw [if_pos (lt_of_not_ge hroom)]
          simp [hn, hroom]
    · rw [if_neg htu, if_pos (le_refl 0)]
      exact ih ((List.mem_cons.1 h).resolve_left htu) hnodup.2

theorem canAdmit_only (r : Readings) (s : ResourceLedger) (n : ℤ) (t : ResourceType) :
    (s.canAdmit r (Bundle.only n t)).1.1 =
      decide (n ≤ 0 ∨ (s.getCurrent r t).1 + n ≤ s.getLimit t) := by
  rw [← canAdmitFrom_only n (ResourceType.mem_all t) ResourceType.nodup_all, canAdmit]
  cases (s.canAdmitFrom r (Bundle.only n t) ResourceType.all).1 <;> rfl

theorem fst_allocate (r : Readings) (s : ResourceLedger) (t : ResourceType) (handle : Handle)
    (owner : String) (sizeBytes : Option ℤ) (metadata : List (String × Nat)) :
    (s.allocate r t handle owner sizeBytes metadata).1 =
      decide ((s.getCurrent r t).1 + 1 ≤ s.getLimit t) := by
  rw [allocate, checkLimit]
  simp only
  split
  · next h => exact h.symm
  · next h => exact (Bool.eq_false_iff.2 h).symm

/-! ### What it is for -/

/-- The usage that the ledger counts is within its limits. -/
structure Within (s : ResourceLedger) : Prop where
  childProcess : s.countByType .childProcess ≤ s.limits.maxChildProcesses
  mmapRegion : s.countByType .mmapRegion ≤ s.limits.maxMmapRegions
  thread : s.countByType .thread ≤ s.limits.maxThreads
  tmpVolume : s.getTmpVolumeBytes ≤ s.limits.maxTmpVolumeBytes

/-- Allocations of one type under the given handles, one after the other. -/
def allocateAll (r : Readings) (t : ResourceType) (owner : String) :
    ResourceLedger → List Handle → List Bool × ResourceLedger
  | s, [] => ([], s)
  | s, handle :: rest =>
    let first := s.allocate r t handle owner
    let others := allocateAll r t owner first.2 rest
    (first.1 :: others.1, others.2)

/-- `can_admit` grants an amount of a counted type exactly where as many allocations under new handles
are recorded. -/
def AdmitsCounted (s : ResourceLedger) : Prop :=
  ∀ t : ResourceType, t.Counted → ∀ (r : Readings) (owner : String) (handles : List Handle), handles.Nodup →
    (∀ handle ∈ handles, s.allocations.get? t handle = none) →
    (s.canAdmit r (Bundle.only handles.length t)).1.1 = (s.allocateAll r t owner handles).1.all id

/-- A call that allocates what the ledger measures is accepted exactly where `can_admit` grants its
amount. -/
def AcceptsAdmitted (s : ResourceLedger) : LedgerCall → Prop
  | .allocate r t handle owner sizeBytes metadata =>
    (t.Counted → (s.allocate r t handle owner sizeBytes metadata).1 =
      (s.canAdmit r (Bundle.only 1 t)).1.1) ∧
    (t = .tmpVolume → (s.allocate r t handle owner sizeBytes metadata).1 =
      (s.canAdmit r (Bundle.only (sizeBytes.getD 0) t)).1.1)
  | .registerChildProcess r pid owner process =>
    (s.registerChildProcess r pid owner process).1 = (s.canAdmit r (Bundle.only 1 .childProcess)).1.1
  | _ => True

/-- Throughout the run the limits hold, and what is admitted is what is accepted. -/
structure KeepsLimits (s : ResourceLedger) (calls : List LedgerCall) : Prop where
  within : ∀ pre, pre <+: calls → (s.run pre).Within
  admits : ∀ pre, pre <+: calls → (s.run pre).AdmitsCounted
  accepts : ∀ pre call, pre ++ [call] <+: calls → (s.run pre).AcceptsAdmitted call

/-- The size of an allocation on the temporary volume fits, unless the volume is full already. -/
def FitsVolume (s : ResourceLedger) : LedgerCall → Prop
  | .allocate _ t _ _ sizeBytes _ => t = .tmpVolume →
    0 ≤ sizeBytes.getD 0 ∧
    (s.getTmpVolumeBytes < s.limits.maxTmpVolumeBytes →
      s.getTmpVolumeBytes + sizeBytes.getD 0 ≤ s.limits.maxTmpVolumeBytes) ∧
    (sizeBytes.getD 0 = 0 → s.getTmpVolumeBytes < s.limits.maxTmpVolumeBytes)
  | _ => True

/-! ### Counted types -/

theorem getCurrent_counted (ht : t.Counted) (r : Readings) (s : ResourceLedger) :
    s.getCurrent r t = ((s.countByType t : ℤ), s) := by
  obtain rfl | rfl | rfl := ht <;> rfl

/-- A counted type has room for as many new handles as are below its limit. -/
private theorem all_allocateAll (ht : t.Counted) (r : Readings) (owner : String) {handles : List Handle}
    (hnodup : handles.Nodup) (hfree : ∀ handle ∈ handles, s.allocations.get? t handle = none) :
    (s.allocateAll r t owner handles).1.all id =
      decide ((handles.length : ℤ) ≤ 0 ∨ (s.countByType t : ℤ) + handles.length ≤ s.getLimit t) := by
  induction handles generalizing s with
  | nil => rfl
  | cons handle rest ih =>
    rw [List.nodup_cons] at hnodup
    have hfirst := fst_allocate r s t handle owner none []
    rw [getCurrent_counted ht] at hfirst
    rw [allocateAll, List.all_cons, id]
    rcases allocate_cases r s t handle owner none [] with
      ⟨_, s', hs', halloc, _, hlimits⟩ | ⟨_, s', hs', halloc, _, hlimits⟩
    · -- a refusal: there is no room for one
      rw [hs'] at hfirst ⊢
      have hfull := of_decide_eq_false hfirst.symm
      rw [Bool.false_and, eq_comm, decide_eq_false_iff_not, List.length_cons]
      push_cast
      omega
    · rw [hs'] at hfirst ⊢
      have hroom := of_decide_eq_true hfirst.symm
      have hhandle := hfree handle List.mem_cons_self
      have hcount (a : ResourceAllocation) (ha : a.type = t ∧ a.handle = handle) :
          (s'.record a).countByType t = s.countByType t + 1 := by
        show (s'.allocations.put a).count t = _
        rw [Records.count_put, halloc, ha.1, ha.2, if_pos ⟨rfl, hhandle⟩]
        rfl
      have hlimit (a : ResourceAllocation) : (s'.record a).getLimit t = s.getLimit t := by
        show getLimit s' t = _
        rw [getLimit.eq_def, getLimit.eq_def, hlimits]
      rw [Bool.true_and, ih hnodup.2, hcount _ ⟨rfl, rfl⟩, hlimit, decide_eq_decide, List.length_cons]
      · push_cast
        omega
      · intro j hj
        show (s'.allocations.put _).get? t j = none
        rw [Records.get?_put, if_neg, halloc]
        · exact hfree j (List.mem_cons_of_mem _ hj)
        · intro hc
          have hj' : handle = j := hc.2
          exact hnodup.1 (hj' ▸ hj)

theorem admitsCounted (s : ResourceLedger) : s.AdmitsCounted := by
  intro t ht r owner handles hnodup hfree
  rw [canAdmit_only, getCurrent_counted ht, all_allocateAll ht r owner hnodup hfree]

theorem fst_allocate_eq_canAdmit (r : Readings) (s : ResourceLedger) (handle : Handle)
    (owner : String) (sizeBytes : Option ℤ) (metadata : List (String × Nat)) :
    (s.allocate r t handle owner sizeBytes metadata).1 = (s.canAdmit r (Bundle.only 1 t)).1.1 := by
  rw [fst_allocate, canAdmit_only, decide_eq_decide]
  omega

/-! ### Runs -/

/-- What a run has left: a ledger within its limits, with sizes that are not negative. -/
structure Kept (s : ResourceLedger) : Prop where
  within : s.allocations.Within s.limits
  sized : s.allocations.Sized

theorem Kept.toWithin (h : s.Kept) : s.Within :=
  ⟨h.within.childProcess, h.within.mmapRegion, h.within.thread, h.within.tmpVolume⟩

theorem kept_empty (limits : ResourceLimits) : ({ limits := limits } : ResourceLedger).Kept where
  within := ⟨Nat.zero_le _, Nat.zero_le _, Nat.zero_le _, Int.natCast_nonneg _⟩
  sized _ _ h := by cases h

theorem Kept.allocate (h : s.Kept) (r : Readings) {handle : Handle} {owner : String} {sizeBytes : Option ℤ}
    {metadata : List (String × Nat)}
    (hfits : s.FitsVolume (.allocate r t handle owner sizeBytes metadata)) :
    (s.allocate r t handle owner sizeBytes metadata).2.Kept := by
  have hfirst := fst_allocate r s t handle owner sizeBytes metadata
  rcases allocate_cases r s t handle owner sizeBytes metadata with
    ⟨_, s', hs', halloc, _, hlimits⟩ | ⟨_, s', hs', halloc, _, hlimits⟩
  · rw [hs']
    exact ⟨by rw [halloc, hlimits]; exact h.within, by rw [halloc]; exact h.sized⟩
  · rw [hs'] at hfirst ⊢
    have hroom := of_decide_eq_true hfirst.symm
    constructor
    · show (s'.allocations.put _).Within s'.limits
      rw [halloc, hlimits]
      apply h.within.put h.sized
      · intro ht
        rw [show t = .childProcess from ht, getCurrent_counted (.inl rfl)] at hroom
        have hcount : (s.allocations.count .childProcess : ℤ) + 1 ≤ s.limits.maxChildProcesses := hroom
        exact_mod_cast hcount
      · intro ht
        rw [show t = .mmapRegion from ht, getCurrent_counted (.inr (.inl rfl))] at hroom
        have hcount : (s.allocations.count .mmapRegion : ℤ) + 1 ≤ s.limits.maxMmapRegions := hroom
        exact_mod_cast hcount
      · intro ht
        rw [show t = .thread from ht, getCurrent_counted (.inr (.inr rfl))] at hroom
        have hcount : (s.allocations.count .thread : ℤ) + 1 ≤ s.limits.maxThreads := hroom
        exact_mod_cast hcount
      · intro ht
        rw [show t = .tmpVolume from ht] at hroom
        exact (hfits ht).2.1 (by
          have : s.getTmpVolumeBytes + 1 ≤ (s.limits.maxTmpVolumeBytes : ℤ) := hroom
          omega)
    · show (s'.allocations.put _).Sized
      rw [halloc]
      exact h.sized.put fun ht => (hfits ht).1

theorem Kept.release (h : s.Kept) (t : ResourceType) (handle : Handle) (force : Bool) :
    (s.release t handle force).2.Kept := by
  rw [ResourceLedger.release]
  cases hget : s.allocations.get? t handle with
  | none => exact h
  | some a =>
    have hkept : (s.allocations.erase t handle).Within s.limits ∧ (s.allocations.erase t handle).Sized :=
      ⟨h.within.erase h.sized t handle, h.sized.erase t handle⟩
    simp only [disown]
    cases s.ownerAllocations.get? a.owner with
    | none => exact ⟨hkept.1, hkept.2⟩
    | some allocs => exact ⟨hkept.1, hkept.2⟩

theorem Kept.releaseAll (h : s.Kept) (owner : String) : (s.releaseAll owner).2.Kept := by
  have hfold (allocs : List ResourceAllocation) (r : Records) (hr : r.Within s.limits ∧ r.Sized) :
      (allocs.foldl (fun r a => r.erase a.type a.handle) r).Within s.limits ∧
        (allocs.foldl (fun r a => r.erase a.type a.handle) r).Sized :=
    foldl_invariant (I := fun r : Records => r.Within s.limits ∧ r.Sized)
      (fun r a hr => ⟨hr.1.erase hr.2 a.type a.handle, hr.2.erase a.type a.handle⟩) allocs hr
  obtain ⟨hwithin, hsized⟩ := hfold (s.owned owner) s.allocations ⟨h.within, h.sized⟩
  exact ⟨hwithin, hsized⟩

theorem Kept.step (h : s.Kept) {call : LedgerCall} (hfits : s.FitsVolume call) : (s.step call).Kept := by
  cases call with
  | allocate r t handle owner sizeBytes metadata => exact h.allocate r hfits
  | release t handle force => exact h.release t handle force
  | releaseAll owner => exact h.releaseAll owner
  | registerChildProcess r pid owner process => exact h.allocate r nofun
  | unregisterChildProcess pid => exact h.release .childProcess (.num pid) false

theorem acceptsAdmitted_of_fitsVolume {call : LedgerCall} (hfits : s.FitsVolume call) :
    s.AcceptsAdmitted call := by
  cases call with
  | allocate r t handle owner sizeBytes metadata =>
    refine ⟨fun _ => fst_allocate_eq_canAdmit r s handle owner sizeBytes metadata, ?_⟩
    intro ht
    obtain ⟨hnonneg, hroom, hzero⟩ := hfits ht
    subst ht
    rw [fst_allocate, canAdmit_only, decide_eq_decide]
    show s.getTmpVolumeBytes + 1 ≤ (s.limits.maxTmpVolumeBytes : ℤ) ↔
      sizeBytes.getD 0 ≤ 0 ∨ s.getTmpVolumeBytes + sizeBytes.getD 0 ≤ s.limits.maxTmpVolumeBytes
    omega
  | registerChildProcess r pid owner process => exact fst_allocate_eq_canAdmit r s _ owner _ _
  | _ => trivial

/-- In a run whose sizes fit, the limits hold throughout, and `can_admit` grants what is accepted. -/
theorem keepsLimits_of_fitsVolume {limits : ResourceLimits} {calls : List LedgerCall}
    (h : StepsMeet step FitsVolume { limits := limits } calls) :
    KeepsLimits { limits := limits } calls := by
  have hkept {pre : List LedgerCall} (hp : pre <+: calls) : (run { limits := limits } pre).Kept := by
    obtain ⟨rest, rfl⟩ := hp
    exact (stepsMeet_append.1 h).1.invariant (fun _ _ hs hc => hs.step hc) (kept_empty limits)
  refine ⟨fun pre hp => (hkept hp).toWithin, fun _ _ => admitsCounted _, ?_⟩
  intro pre call hp
  exact acceptsAdmitted_of_fitsVolume (stepsMeet_iff_forall_concat.1 h pre call hp)

theorem keepsLimits_small_file : KeepsLimits {}
    [.allocate { now := 0 } .tmpVolume (.name "a") "tor" (some 1024) [],
      .allocate { now := 1 } .childProcess (.num 7) "tor" none [], .releaseAll "tor"] := by
  apply keepsLimits_of_fitsVolume
  refine ⟨fun _ => ?_, nofun, trivial, trivial⟩
  decide

/-- A file twice as large as the volume is recorded. -/
theorem not_keepsLimits_large_file : ¬ ∀ calls : List LedgerCall, KeepsLimits {} calls := by
  intro h
  have hwithin := ((h [.allocate { now := 0 } .tmpVolume (.name "a") "tor" (some 1073741824) []]).within
    _ (List.prefix_refl _)).tmpVolume
  revert hwithin
  decide

end ResourceLedger

end Hledac.Core
