import Hledac.Lib.Machine
import Hledac.Core.ResourceLedger

/-!
# The two indexes of the ledger

The list of an owner should hold the records that name the owner, each once. An allocation under a
handle that is still recorded replaces the record and leaves the old one in its owner's list.
-/

namespace Hledac.Core

open Hledac.Lib

namespace ResourceLedger

variable {s s' : ResourceLedger} {r : Readings} {t : ResourceType} {a : ResourceAllocation}
  {owner : String} {handle : Handle}

/-! ### The lists of the owners -/

/-- The list of each owner holds the records of the owner. -/
def Balanced (s : ResourceLedger) : Prop :=
  ∀ owner, (s.owned owner).Perm (s.allocations.toList.filter fun a => decide (a.owner = owner))

/-- `release_all` takes away the records of the owner and no others. -/
def ReleasesOwn (s : ResourceLedger) : Prop :=
  ∀ owner, (s.releaseAll owner).2.allocations.toList.Perm
    (s.allocations.toList.filter fun a => decide (a.owner ≠ owner))

theorem balanced_iff : s.Balanced ↔ ∀ owner, (s.owned owner).Nodup ∧
    ∀ a, a ∈ s.owned owner ↔ a.owner = owner ∧ s.allocations.get? a.type a.handle = some a := by
  have hmem (owner : String) (a : ResourceAllocation) :
      a ∈ s.allocations.toList.filter (fun a => decide (a.owner = owner)) ↔
        a.owner = owner ∧ s.allocations.get? a.type a.handle = some a := by
    rw [List.mem_filter, Records.mem_toList, decide_eq_true_iff, and_comm]
  have hnodup (owner : String) :
      (s.allocations.toList.filter fun a => decide (a.owner = owner)).Nodup :=
    Records.nodup_toList.filter _
  constructor
  · intro h owner
    refine ⟨(h owner).nodup_iff.2 (hnodup owner), ?_⟩
    intro a
    rw [(h owner).mem_iff, hmem]
  · intro h owner
    apply (List.perm_ext_iff_of_nodup (h owner).1 (hnodup owner)).2
    intro a
    rw [(h owner).2, hmem]

theorem owned_insert (d : Dict String (List ResourceAllocation)) (o : String)
    (l : List ResourceAllocation) :
    ((d.insert o l).get? owner).getD [] = if o = owner then l else (d.get? owner).getD [] := by
  rw [Dict.get?_insert]
  split <;> rfl

theorem getCurrent_frame (r : Readings) (s : ResourceLedger) (t : ResourceType) :
    ∃ count time, (s.getCurrent r t).2 = { s with systemFdCount := count, lastFdCheck := time } := by
  cases t with
  | fileDescriptor =>
    rw [getCurrent, countFds]
    split
    · exact ⟨_, _, rfl⟩
    · cases r.fds with
      | listed n => exact ⟨_, _, rfl⟩
      | rlimit n => exact ⟨_, _, rfl⟩
      | failed => exact ⟨_, _, rfl⟩
  | _ => exact ⟨s.systemFdCount, s.lastFdCheck, rfl⟩

theorem allocate_cases (r : Readings) (s : ResourceLedger) (t : ResourceType) (handle : Handle)
    (owner : String) (sizeBytes : Option ℤ) (metadata : List (String × Nat)) :
    ((s.checkLimit r t).1 = false ∧
      ∃ s' : ResourceLedger, s.allocate r t handle owner sizeBytes metadata = (false, s') ∧
        s'.allocations = s.allocations ∧ s'.ownerAllocations = s.ownerAllocations ∧
        s'.limits = s.limits) ∨
    ((s.checkLimit r t).1 = true ∧
      ∃ s' : ResourceLedger, s.allocate r t handle owner sizeBytes metadata = (true, s'.record
          { type := t
            handle := handle
            owner := owner
            allocatedAt := r.now
            sizeBytes := sizeBytes
            metadata := metadata }) ∧
        s'.allocations = s.allocations ∧ s'.ownerAllocations = s.ownerAllocations ∧
        s'.limits = s.limits) := by
  obtain ⟨count, time, hs⟩ := getCurrent_frame r s t
  rw [allocate, checkLimit]
  simp only
  rw [hs]
  cases decide ((s.getCurrent r t).1 + 1 ≤ (s.getLimit t : ℤ)) with
  | false => exact .inl ⟨rfl, _, rfl, rfl, rfl, rfl⟩
  | true => exact .inr ⟨rfl, _, rfl, rfl, rfl, rfl⟩

theorem Balanced.congr (h : s.Balanced) (ha : s'.allocations = s.allocations)
    (ho : s'.ownerAllocations = s.ownerAllocations) : s'.Balanced := by
  intro owner
  rw [owned, ha, ho]
  exact h owner

theorem Balanced.record (h : s.Balanced) (hfree : s.allocations.get? a.type a.handle = none) :
    (s.record a).Balanced := by
  rw [balanced_iff] at h ⊢
  intro owner
  obtain ⟨hnodup, hmem⟩ := h owner
  have hnew : a ∉ s.owned owner := by
    intro ha
    rw [(hmem a).1 ha |>.2] at hfree
    cases hfree
  have howned : (s.record a).owned owner =
      if a.owner = owner then s.owned owner ++ [a] else s.owned owner := by
    show ((s.ownerAllocations.insert a.owner _).get? owner).getD [] = _
    rw [owned_insert]
    split
    · next ho => rw [ho]
    · rfl
  have hget (b : ResourceAllocation) : (s.record a).allocations.get? b.type b.handle = some b ↔
      b = a ∨ s.allocations.get? b.type b.handle = some b := by
    show (s.allocations.put a).get? b.type b.handle = some b ↔ _
    rw [Records.get?_put]
    split
    · next hk =>
      rw [← hk.1, ← hk.2, hfree, Option.some_inj, eq_comm]
      simp
    · next hk =>
      constructor
      · exact .inr
      · intro hb
        apply hb.resolve_left
        intro hba
        exact hk (hba ▸ ⟨rfl, rfl⟩)
  rw [howned]
  split
  · next ho =>
    refine ⟨List.nodup_append_comm.1 (List.nodup_cons.2 ⟨hnew, hnodup⟩), ?_⟩
    intro b
    rw [List.mem_append, List.mem_singleton, hmem, hget]
    constructor
    · intro hb
      cases hb with
      | inl hb => exact ⟨hb.1, .inr hb.2⟩
      | inr hb => exact ⟨hb ▸ ho, .inl hb⟩
    · intro hb
      cases hb.2 with
      | inl hba => exact .inr hba
      | inr hb2 => exact .inl ⟨hb.1, hb2⟩
  · next ho =>
    refine ⟨hnodup, ?_⟩
    intro b
    rw [hmem, hget]
    constructor
    · intro hb
      exact ⟨hb.1, .inr hb.2⟩
    · intro hb
      refine ⟨hb.1, hb.2.resolve_left ?_⟩
      intro hba
      exact ho (hba ▸ hb.1)

theorem not_balanced_record {old : ResourceAllocation}
    (h : s.Balanced) (hused : s.allocations.get? a.type a.handle = some old) :
    ¬ (s.record a).Balanced := by
  intro hafter
  rw [balanced_iff] at h hafter
  obtain ⟨htype, hhandle⟩ := s.allocations.keyed _ _ _ hused
  have hold : old ∈ s.owned old.owner := by
    rw [(h old.owner).2, htype, hhandle]
    exact ⟨rfl, hused⟩
  have howned : (s.record a).owned old.owner =
      if a.owner = old.owner then s.owned old.owner ++ [a] else s.owned old.owner := by
    show ((s.ownerAllocations.insert a.owner _).get? old.owner).getD [] = _
    rw [owned_insert]
    split
    · next ho => rw [ho]
    · rfl
  have hstill : old ∈ (s.record a).owned old.owner := by
    rw [howned]
    split
    · exact List.mem_append_left _ hold
    · exact hold
  have hget := (((hafter old.owner).2 old).1 hstill).2
  have heq : a = old := by
    have hput : (s.record a).allocations.get? old.type old.handle = some a := by
      show (s.allocations.put a).get? old.type old.handle = some a
      rw [Records.get?_put, if_pos ⟨htype.symm, hhandle.symm⟩]
    exact Option.some_inj.1 (hput.symm.trans hget)
  -- the same record twice in one list
  have hnodup := (hafter old.owner).1
  rw [howned, if_pos (congrArg _ heq), heq] at hnodup
  exact List.disjoint_of_nodup_append hnodup hold List.mem_cons_self

theorem Balanced.release (h : s.Balanced) (t : ResourceType) (handle : Handle) (force : Bool) :
    (s.release t handle force).2.Balanced := by
  rw [ResourceLedger.release]
  cases hget : s.allocations.get? t handle with
  | none => exact h
  | some a =>
    obtain ⟨htype, hhandle⟩ := s.allocations.keyed t handle a hget
    have hb := balanced_iff.1 h
    have ha : a ∈ s.owned a.owner := by
      rw [(hb a.owner).2, htype, hhandle]
      exact ⟨rfl, hget⟩
    obtain ⟨allocs, hallocs⟩ : ∃ allocs, s.ownerAllocations.get? a.owner = some allocs := by
      cases ho : s.ownerAllocations.get? a.owner with
      | none =>
        rw [owned, ho] at ha
        cases ha
      | some allocs => exact ⟨allocs, rfl⟩
    have hlist : s.owned a.owner = allocs := by
      rw [owned, hallocs]
      rfl
    have hdisown : ({ s with allocations := s.allocations.erase t handle } : ResourceLedger).disown a =
        { s with
          allocations := s.allocations.erase t handle
          ownerAllocations := s.ownerAllocations.insert a.owner (allocs.erase a) } := by
      rw [disown]
      simp only [hallocs]
    simp only [hdisown]
    rw [balanced_iff]
    intro owner
    obtain ⟨hnodup, hmem⟩ := hb owner
    have howned : ((s.ownerAllocations.insert a.owner (allocs.erase a)).get? owner).getD [] =
        (s.owned owner).erase a := by
      rw [owned_insert]
      split
      · next ho => rw [← ho, hlist]
      · next ho =>
        rw [List.erase_of_not_mem]
        · rfl
        · intro hc
          exact ho ((hmem a).1 hc).1
    show (_ : List ResourceAllocation).Nodup ∧ ∀ b, b ∈ _ ↔ b.owner = owner ∧
      (s.allocations.erase t handle).get? b.type b.handle = some b
    rw [owned]
    simp only [howned]
    refine ⟨hnodup.erase a, ?_⟩
    intro b
    rw [hnodup.mem_erase_iff, hmem, Records.get?_erase]
    by_cases hk : t = b.type ∧ handle = b.handle
    · rw [if_pos hk]
      constructor
      · intro hb'
        rw [← hk.1, ← hk.2, hget] at hb'
        exact absurd (Option.some_inj.1 hb'.2.2).symm hb'.1
      · intro hb'
        cases hb'.2
    · rw [if_neg hk]
      constructor
      · exact And.right
      · intro hb'
        refine ⟨?_, hb'⟩
        intro hba
        exact hk (hba ▸ ⟨htype.symm, hhandle.symm⟩)

theorem get?_foldl_erase (allocs : List ResourceAllocation) (r : Records) :
    (allocs.foldl (fun r a => r.erase a.type a.handle) r).get? t handle =
      if ∃ a ∈ allocs, a.type = t ∧ a.handle = handle then none else r.get? t handle := by
  induction allocs generalizing r with
  | nil => simp
  | cons a allocs ih =>
    rw [List.foldl_cons, ih, Records.get?_erase]
    by_cases ha : a.type = t ∧ a.handle = handle <;> simp [ha]

theorem Balanced.get?_releaseAll (h : s.Balanced) (owner : String) (b : ResourceAllocation) :
    (s.releaseAll owner).2.allocations.get? b.type b.handle = some b ↔
      b.owner ≠ owner ∧ s.allocations.get? b.type b.handle = some b := by
  have hb := (balanced_iff.1 h owner).2
  show (Records.get? (List.foldl _ _ _) _ _) = some b ↔ _
  rw [get?_foldl_erase]
  split
  · next hex =>
    obtain ⟨a, ha, htype, hhandle⟩ := hex
    obtain ⟨ho, hget⟩ := (hb a).1 ha
    constructor
    · nofun
    · intro hc
      rw [← htype, ← hhandle, hget] at hc
      exact absurd (Option.some_inj.1 hc.2 ▸ ho) hc.1
  · next hex =>
    constructor
    · intro hget
      refine ⟨?_, hget⟩
      intro ho
      exact hex ⟨b, (hb b).2 ⟨ho, hget⟩, rfl, rfl⟩
    · exact And.right

theorem Balanced.releaseAll (h : s.Balanced) (owner : String) : (s.releaseAll owner).2.Balanced := by
  rw [balanced_iff]
  intro o
  obtain ⟨hnodup, hmem⟩ := balanced_iff.1 h o
  have howned : (s.releaseAll owner).2.owned o = if owner = o then [] else s.owned o := by
    show ((s.ownerAllocations.erase owner).get? o).getD [] = _
    rw [Dict.get?_erase]
    split <;> rfl
  rw [howned]
  split
  · next ho =>
    refine ⟨List.nodup_nil, ?_⟩
    intro b
    rw [h.get?_releaseAll, ho]
    constructor
    · nofun
    · intro hb
      exact absurd hb.1 hb.2.1
  · next ho =>
    refine ⟨hnodup, ?_⟩
    intro b
    rw [h.get?_releaseAll, hmem]
    constructor
    · intro hb
      refine ⟨hb.1, ?_, hb.2⟩
      rw [hb.1]
      exact fun hc => ho hc.symm
    · intro hb
      exact ⟨hb.1, hb.2.2⟩

theorem Balanced.releasesOwn (h : s.Balanced) : s.ReleasesOwn := by
  intro owner
  apply (List.perm_ext_iff_of_nodup Records.nodup_toList (Records.nodup_toList.filter _)).2
  intro b
  rw [Records.mem_toList, List.mem_filter, Records.mem_toList, h.get?_releaseAll, decide_eq_true_iff,
    and_comm]

theorem balanced_empty {limits : ResourceLimits} : ({ limits := limits } : ResourceLedger).Balanced :=
  fun _ => List.Perm.refl _

/-! ### Runs -/

/-- An allocation that is not refused takes a handle that is free. -/
def TakesFree (s : ResourceLedger) : LedgerCall → Prop
  | .allocate r t handle _ _ _ => (s.checkLimit r t).1 = true → s.allocations.get? t handle = none
  | .registerChildProcess r pid _ _ =>
    (s.checkLimit r .childProcess).1 = true → s.allocations.get? .childProcess (.num pid) = none
  | _ => True

theorem balanced_allocate_iff (h : s.Balanced) (sizeBytes : Option ℤ) (metadata : List (String × Nat)) :
    (s.allocate r t handle owner sizeBytes metadata).2.Balanced ↔
      ((s.checkLimit r t).1 = true → s.allocations.get? t handle = none) := by
  rcases allocate_cases r s t handle owner sizeBytes metadata with
    ⟨hcheck, s', hs', halloc, howner, _⟩ | ⟨hcheck, s', hs', halloc, howner, _⟩
  · rw [hs', hcheck]
    exact iff_of_true (h.congr halloc howner) nofun
  · have hbal := h.congr halloc howner
    rw [hs', hcheck, ← halloc]
    constructor
    · intro hafter _
      cases hget : s'.allocations.get? t handle with
      | none => rfl
      | some old => exact absurd hafter (not_balanced_record hbal hget)
    · intro hfree
      exact hbal.record (hfree rfl)

theorem balanced_step_iff (h : s.Balanced) (call : LedgerCall) :
    (s.step call).Balanced ↔ s.TakesFree call := by
  cases call with
  | allocate r t handle owner sizeBytes metadata => exact balanced_allocate_iff h sizeBytes metadata
  | release t handle force => exact iff_of_true (h.release t handle force) trivial
  | releaseAll owner => exact iff_of_true (h.releaseAll owner) trivial
  | registerChildProcess r pid owner process => exact balanced_allocate_iff h _ _
  | unregisterChildProcess pid => exact iff_of_true (h.release .childProcess (.num pid) false) trivial

/-- The indexes agree throughout a run, and `release_all` would at any time take away the records of its
owner, exactly when no handle is taken twice. -/
theorem balanced_run_iff (limits : ResourceLimits) (calls : List LedgerCall) :
    (∀ pre, pre <+: calls → (run { limits := limits } pre).Balanced ∧
      (run { limits := limits } pre).ReleasesOwn) ↔
      StepsMeet step TakesFree { limits := limits } calls := by
  have hstep (s : ResourceLedger) (call : LedgerCall) (_ : True) (hs : s.Balanced ∧ s.ReleasesOwn) :
      (s.step call).Balanced ∧ (s.step call).ReleasesOwn ↔ s.TakesFree call := by
    rw [← balanced_step_iff hs.1]
    exact ⟨And.left, fun h => ⟨h, h.releasesOwn⟩⟩
  exact forall_prefix_iff_stepsMeet (I := fun s : ResourceLedger => s.Balanced ∧ s.ReleasesOwn)
    (fun _ _ _ => trivial)
    hstep trivial ⟨balanced_empty, balanced_empty.releasesOwn⟩ calls

/-- A handle of one owner is recorded for another one, and released by the first. -/
theorem not_balanced_run_reused :
    ¬ ∀ (calls : List LedgerCall) (pre : List LedgerCall), pre <+: calls →
      (run {} pre).Balanced ∧ (run {} pre).ReleasesOwn := by
  intro h
  have hbal := (h [.allocate { now := 0 } .childProcess (.num 7) "tor" none [],
    .allocate { now := 1 } .childProcess (.num 7) "i2p" none []] _ (List.prefix_refl _)).1 "tor"
  have hlength := hbal.length_eq
  revert hlength
  decide

end ResourceLedger

end Hledac.Core
