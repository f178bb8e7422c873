import Hledac.Knowledge.Replay

/-!
# Pending markers over runs of replay attempts

Whatever fails, and wherever an attempt is cut short, a finding that had a marker keeps it or is settled.
It is given up in time only where every failure is one that is counted.
-/

namespace Hledac.Knowledge

open Hledac.Lib

namespace LMDBKVStore

variable {e : WalEnv} {ok : Bool} {k k' : WalKind} {id id' : String} {r : WalRecord}

theorem isSome_get_put (h : (e.get k' id').isSome = true) :
    ((put ok k id r e).2.get k' id').isSome = true := by
  rw [put]
  split
  · exact h
  · split
    · exact WalEnv.isSome_get_put h
    · exact h

theorem get_put_of_id_ne (h : id ≠ id') : (put ok k id r e).2.get k' id' = e.get k' id' := by
  rw [put]
  split
  · rfl
  · split
    · exact WalEnv.get_put_of_id_ne h
    · rfl

theorem get_delete_of_kind_ne (h : k' ≠ k) : (delete ok k id e).2.get k' id' = e.get k' id' := by
  rw [delete]
  split
  · exact WalEnv.get_erase_of_kind_ne h
  · rfl

theorem get_delete_of_id_ne (h : id ≠ id') : (delete ok k id e).2.get k' id' = e.get k' id' := by
  rw [delete]
  split
  · exact WalEnv.get_erase_of_id_ne h
  · rfl

end LMDBKVStore

/-! ### No marker is lost -/

/-- The finding has a marker or is settled. -/
def WalStore.Kept (s : WalStore) (id : String) : Prop := s.Pending id ∨ s.Settled id

section Kept

variable {id id' : String} {out : ReplayOutcomes} {C : WalOp → WalStore → Prop}

private theorem WalStore.Kept.put {s : WalStore} (h : s.Kept id) (ok : Bool) (k : WalKind) (id' : String)
    (r : WalRecord) : WalStore.Kept { s with shadow := (LMDBKVStore.put ok k id' r s.shadow).2 } id := by
  rcases h with h | h | h
  · exact .inl (LMDBKVStore.isSome_get_put h)
  · exact .inr (.inl h)
  · exact .inr (.inr (LMDBKVStore.isSome_get_put h))

private theorem survives_walGetPendingMarker {ok : Bool} {P : WalStore → Prop} :
    Steps.Survives P (walGetPendingMarker ok id') (fun _ => P) C :=
  Steps.survives_of_still (fun _ => rfl) fun _ h => h

private theorem survives_syncVerifyDuckdbRecord {P : WalStore → Prop} :
    Steps.Survives P (syncVerifyDuckdbRecord out id')
      (fun v s => P s ∧ (v = .ok true → s.Settled id')) C := by
  apply Steps.survives_of_still (fun _ => rfl)
  intro s h
  refine ⟨h, ?_⟩
  intro hv
  cases ho : out.verify with
  | answers =>
    rw [ho] at hv
    exact .inl (Except.ok.inj hv)
  | fails =>
    rw [ho] at hv
    cases Except.ok.inj hv
  | raised message =>
    rw [ho] at hv
    have herr : (Except.error message : Except String Bool) = .ok true := hv
    cases herr

private theorem survives_syncReplaySingleMarker {marker : WalRecord} :
    Steps.Survives (·.Kept id) (syncReplaySingleMarker out id' marker) (fun _ => (·.Kept id))
      (fun _ => (·.Kept id)) := by
  rw [syncReplaySingleMarker]
  split
  · exact Steps.survives_pure fun _ h => h
  · apply Steps.Survives.bind (R := fun _ => (·.Kept id))
    · apply Steps.survives_op
      · intro s h
        cases out.insert id' with
        | inserted =>
          rcases h with h | h | h
          · exact .inl h
          · refine .inr (.inl ?_)
            simp only [Std.ExtTreeMap.contains_insertIfNew, Bool.or_eq_true]
            exact .inr h
          · exact .inr (.inr h)
        | refused => exact h
        | raised message => exact h
      · exact fun _ h => h
    · intro v
      cases v <;> exact Steps.survives_pure fun _ h => h

private theorem survives_getAndBumpRetryCount :
    Steps.Survives (·.Kept id) (getAndBumpRetryCount out id') (fun _ => (·.Kept id))
      (fun _ => (·.Kept id)) := by
  rw [getAndBumpRetryCount]
  apply survives_walGetPendingMarker.bind
  intro marker
  cases marker with
  | none => exact Steps.survives_pure fun _ h => h
  | some marker =>
    apply Steps.Survives.bind (R := fun _ => (·.Kept id))
    · apply Steps.survives_op
      · exact fun s h => h.put _ _ _ _
      · exact fun _ h => h
    · exact fun _ => Steps.survives_pure fun _ h => h

private theorem survives_walWriteDeadletterMarker {query sourceType error : String} {confidence : ℚ}
    {retries : Nat} :
    Steps.Survives (·.Kept id)
      (walWriteDeadletterMarker out.toOutcomes id' query sourceType confidence error retries)
      (fun ok s => s.Kept id ∧ (ok = true → s.Settled id')) (fun _ => (·.Kept id)) := by
  rw [walWriteDeadletterMarker]
  apply Steps.survives_read_bind
  intro t
  split
  · apply Steps.survives_op
    · intro s h
      refine ⟨h.put _ _ _ _, ?_⟩
      intro hok
      refine .inr ?_
      revert hok
      rw [LMDBKVStore.put]
      split
      · intro h
        cases h
      · split
        · intro _
          rw [WalEnv.get_put_self]
          rfl
        · intro h
          cases h
    · exact fun _ h => h
  · apply Steps.survives_pure
    intro s h
    exact ⟨h, by simp⟩

private theorem survives_walClearPendingSyncMarker :
    Steps.Survives (fun s => s.Kept id ∧ s.Settled id') (walClearPendingSyncMarker out.toOutcomes id')
      (fun _ => (·.Kept id)) (fun _ => (·.Kept id)) := by
  rw [walClearPendingSyncMarker]
  apply Steps.survives_read_bind
  intro t
  split
  · apply Steps.survives_op
    · rintro s ⟨h, hsettled⟩
      by_cases hid : id' = id
      · rw [hid] at hsettled
        refine .inr ?_
        rcases hsettled with h | h
        · exact .inl h
        · refine .inr ?_
          show ((LMDBKVStore.delete _ _ _ _).2.get _ _).isSome = true
          rw [LMDBKVStore.get_delete_of_kind_ne WalKind.noConfusion]
          exact h
      · have hget : ∀ k, (LMDBKVStore.delete (out.lmdb (.delete .pendingSync id')) .pendingSync id'
            s.shadow).2.get k id = s.shadow.get k id := fun k => LMDBKVStore.get_delete_of_id_ne hid
        simpa only [WalStore.Kept, WalStore.Pending, WalStore.Settled, hget] using h
    · exact fun _ h => h.1
  · exact Steps.survives_pure fun _ h => h.1

private theorem survives_replayFailed {marker : WalRecord} {result : ReplayResult} :
    Steps.Survives (·.Kept id) (replayFailed out id' marker result) (fun _ => (·.Kept id))
      (fun _ => (·.Kept id)) := by
  rw [replayFailed]
  apply survives_getAndBumpRetryCount.bind
  intro retries
  split
  · exact Steps.survives_pure fun _ h => h
  · apply survives_walWriteDeadletterMarker.bind
    intro ok
    cases ok with
    | false => exact Steps.survives_pure fun _ h => h.1
    | true =>
      apply (survives_walClearPendingSyncMarker.imp (fun _ h => ⟨h.1, h.2 rfl⟩) (fun _ _ h => h)
        fun _ _ h => h).bind
      exact fun _ => Steps.survives_pure fun _ h => h

private theorem survives_replayWritten {result : ReplayResult} :
    Steps.Survives (·.Kept id) (replayWritten out id' result) (fun _ => (·.Kept id))
      (fun _ => (·.Kept id)) := by
  rw [replayWritten]
  apply survives_syncVerifyDuckdbRecord.bind
  intro v
  match v with
  | .error _ => exact Steps.survives_pure fun _ h => h.1
  | .ok false => exact Steps.survives_pure fun _ h => h.1
  | .ok true =>
    apply (survives_walClearPendingSyncMarker.imp (fun _ h => ⟨h.1, h.2 rfl⟩) (fun _ _ h => h)
      fun _ _ h => h).bind
    exact fun _ => Steps.survives_pure fun _ h => h

theorem survives_asyncReplaySinglePendingMarker (out : ReplayOutcomes) (id id' : String) :
    Steps.Survives (·.Kept id) (asyncReplaySinglePendingMarker out id') (fun _ => (·.Kept id))
      (fun _ => (·.Kept id)) := by
  rw [asyncReplaySinglePendingMarker]
  apply Steps.survives_read_bind
  intro t
  split
  · exact Steps.survives_pure fun _ h => h
  · apply survives_walGetPendingMarker.bind
    intro marker
    cases marker with
    | none =>
      apply survives_syncVerifyDuckdbRecord.bind
      intro v
      match v with
      | .error _ => exact Steps.survives_pure fun _ h => h.1
      | .ok false => exact Steps.survives_pure fun _ h => h.1
      | .ok true => exact Steps.survives_pure fun _ h => h.1
    | some marker =>
      simp only
      split
      · split
        · exact Steps.survives_pure fun _ h => h
        · rw [replayMarker]
          apply survives_syncReplaySingleMarker.bind
          intro v
          match v with
          | .error _ => exact survives_replayFailed
          | .ok false => exact survives_replayFailed
          | .ok true => exact survives_replayWritten
      · exact Steps.survives_pure fun _ h => h

end Kept

/-! ### Failures are counted -/

/-- The insert of the attempt goes through. -/
def ReplayOutcomes.inserts (out : ReplayOutcomes) (id : String) : Bool :=
  out.submits.isNone && out.insert id == .inserted

/-- The failures counted so far. -/
def WalStore.retries (s : WalStore) (id : String) : Nat :=
  ((s.shadow.get .pendingSync id).map WalRecord.retries).getD 0

/-- The attempt is made, and either comes through or fails in the insert, with its failure written to the
log. Where it is the last one, the finding is moved to the dead letters. -/
def ReplayAttempt.Counts (a : ReplayAttempt) (s : WalStore) : Prop :=
  (s.closed = false ∧ s.walLmdb = true) ∧
    (a.out.lmdb (.get .pendingSync a.id) = true ∧ a.out.lmdb (.get .finding a.id) = true ∧
      (s.shadow.get .finding a.id).isSome = true) ∧
    if a.out.inserts a.id then a.out.verify = .answers
    else
      (a.out.rereads = true ∧ Backend.shadow.accepts (a.out.lmdb (.put .pendingSync a.id)) s.shadow = true) ∧
        (maxRetryCount ≤ s.retries a.id + 1 →
          Backend.shadow.accepts (a.out.lmdb (.put .deadletter a.id)) s.shadow = true ∧
            a.out.lmdb (.delete .pendingSync a.id) = true)

section Counts

variable {s : WalStore} {a : ReplayAttempt} {id id' : String} {out : ReplayOutcomes}

private theorem keeps_walClearPendingSyncMarker (hid : id' ≠ id) :
    Steps.Keeps (fun s : WalStore => fun k => s.shadow.get k id)
      (walClearPendingSyncMarker out.toOutcomes id') := by
  rw [walClearPendingSyncMarker]
  apply Steps.keeps_read_bind
  intro t
  split
  · apply Steps.keeps_op
    intro s
    ext1 k
    exact LMDBKVStore.get_delete_of_id_ne hid
  · exact Steps.keeps_pure _

private theorem keeps_replayFailed {marker : WalRecord} {result : ReplayResult} (hid : id' ≠ id) :
    Steps.Keeps (fun s : WalStore => fun k => s.shadow.get k id) (replayFailed out id' marker result) := by
  have hbump : Steps.Keeps (fun s : WalStore => fun k => s.shadow.get k id)
      (getAndBumpRetryCount out id') := by
    rw [getAndBumpRetryCount]
    apply (Steps.keeps_of_still fun _ => rfl).bind
    intro marker
    cases marker with
    | none => exact Steps.keeps_pure _
    | some marker =>
      refine Steps.Keeps.bind ?_ fun _ => Steps.keeps_pure _
      apply Steps.keeps_op
      intro s
      ext1 k
      exact LMDBKVStore.get_put_of_id_ne hid
  have hdead : ∀ query sourceType confidence error retries,
      Steps.Keeps (fun s : WalStore => fun k => s.shadow.get k id)
        (walWriteDeadletterMarker out.toOutcomes id' query sourceType confidence error retries) := by
    intro query sourceType confidence error retries
    rw [walWriteDeadletterMarker]
    apply Steps.keeps_read_bind
    intro t
    split
    · apply Steps.keeps_op
      intro s
      ext1 k
      exact LMDBKVStore.get_put_of_id_ne hid
    · exact Steps.keeps_pure _
  rw [replayFailed]
  apply hbump.bind
  intro retries
  split
  · exact Steps.keeps_pure _
  · apply (hdead _ _ _ _ _).bind
    intro ok
    split
    · exact (keeps_walClearPendingSyncMarker hid).bind fun _ => Steps.keeps_pure _
    · exact Steps.keeps_pure _

private theorem keeps_asyncReplaySinglePendingMarker (out : ReplayOutcomes) (hid : id' ≠ id) :
    Steps.Keeps (fun s : WalStore => fun k => s.shadow.get k id)
      (asyncReplaySinglePendingMarker out id') := by
  have hreplay : ∀ marker, Steps.Keeps (fun s : WalStore => fun k => s.shadow.get k id)
      (syncReplaySingleMarker out id' marker) := by
    intro marker
    rw [syncReplaySingleMarker]
    split
    · exact Steps.keeps_pure _
    · apply Steps.Keeps.bind
      · apply Steps.keeps_op
        intro s
        cases out.insert id' <;> rfl
      · intro v
        cases v <;> exact Steps.keeps_pure _
  rw [asyncReplaySinglePendingMarker]
  apply Steps.keeps_read_bind
  intro t
  split
  · exact Steps.keeps_pure _
  · apply (Steps.keeps_of_still fun _ => rfl).bind
    intro marker
    cases marker with
    | none =>
      apply (Steps.keeps_of_still fun _ => rfl).bind
      intro v
      split <;> exact Steps.keeps_pure _
    | some marker =>
      simp only
      split
      · split
        · exact Steps.keeps_pure _
        · rw [replayMarker]
          apply (hreplay marker).bind
          intro v
          match v with
          | .error _ => exact keeps_replayFailed hid
          | .ok false => exact keeps_replayFailed hid
          | .ok true =>
            show Steps.Keeps _ (replayWritten out id' _)
            rw [replayWritten]
            apply (Steps.keeps_of_still fun _ => rfl).bind
            intro v
            match v with
            | .error _ => exact Steps.keeps_pure _
            | .ok false => exact Steps.keeps_pure _
            | .ok true => exact (keeps_walClearPendingSyncMarker hid).bind fun _ => Steps.keeps_pure _
      · exact Steps.keeps_pure _

private theorem final_of_not_pending (h : s.shadow.get .pendingSync id = none) :
    ((asyncReplaySinglePendingMarker out id).course s).final = s := by
  have hmarker : ∀ ok, (walGetPendingMarker ok id).course s = ⟨none, s, []⟩ := by
    intro ok
    rw [walGetPendingMarker, Steps.course_read_bind, h, ite_self]
    rfl
  rw [asyncReplaySinglePendingMarker, Steps.course_read_bind]
  split
  · rfl
  · rw [Steps.course_bind_of_nil (hmarker _)]
    simp only
    rw [Steps.final_bind]
    split <;> rfl

private theorem course_walGetPendingMarker {marker : WalRecord} (hopen : s.walLmdb = true)
    (hm : s.shadow.get .pendingSync id = some marker) :
    (walGetPendingMarker true id).course s = ⟨some marker, s, []⟩ := by
  rw [walGetPendingMarker, Steps.course_read_bind, hopen, hm]
  rfl

private theorem put_of_accepts {e : WalEnv} {ok : Bool} (h : Backend.shadow.accepts ok e = true)
    (k : WalKind) (id : String) (r : WalRecord) : LMDBKVStore.put ok k id r e = (true, e.put k id r) :=
  (Backend.put_eq .shadow ok k id r e).trans (if_pos h)

private theorem course_getAndBumpRetryCount {marker : WalRecord} (hopen : s.walLmdb = true)
    (hm : s.shadow.get .pendingSync id = some marker) (hread : out.rereads = true)
    (hput : Backend.shadow.accepts (out.lmdb (.put .pendingSync id)) s.shadow = true) :
    (getAndBumpRetryCount out id).course s =
      ⟨marker.retries + 1, { s with shadow := s.shadow.put .pendingSync id marker.bumped },
        [(.put .pendingSync id, s)]⟩ := by
  rw [getAndBumpRetryCount, hread, Steps.course_bind_of_nil (course_walGetPendingMarker hopen hm)]
  simp only
  rw [walLmdbOp, Steps.course_bind, Steps.course_op, put_of_accepts hput]
  rfl

private theorem course_walWriteDeadletterMarker {query sourceType error : String} {confidence : ℚ}
    {retries : Nat} (hopen : s.walLmdb = true)
    (hput : Backend.shadow.accepts (out.lmdb (.put .deadletter id)) s.shadow = true) :
    ∃ r, (walWriteDeadletterMarker out.toOutcomes id query sourceType confidence error retries).course s =
      ⟨true, { s with shadow := s.shadow.put .deadletter id r }, [(.put .deadletter id, s)]⟩ := by
  rw [walWriteDeadletterMarker, Steps.course_read_bind, if_pos hopen, walLmdbOp, Steps.course_op,
    put_of_accepts hput]
  exact ⟨_, rfl⟩

private theorem final_walClearPendingSyncMarker (hopen : s.walLmdb = true)
    (hclear : out.lmdb (.delete .pendingSync id) = true) :
    ((walClearPendingSyncMarker out.toOutcomes id).course s).final =
      { s with shadow := s.shadow.erase .pendingSync id } := by
  rw [walClearPendingSyncMarker, Steps.course_read_bind, if_pos hopen, final_walLmdbOp,
    LMDBKVStore.delete, hclear]
  rfl

private theorem final_replayFailed {marker : WalRecord} (result : ReplayResult) (hopen : s.walLmdb = true)
    (hm : s.shadow.get .pendingSync id = some marker) (hread : out.rereads = true)
    (hput : Backend.shadow.accepts (out.lmdb (.put .pendingSync id)) s.shadow = true)
    (hlast : maxRetryCount ≤ marker.retries + 1 →
      Backend.shadow.accepts (out.lmdb (.put .deadletter id)) s.shadow = true ∧
        out.lmdb (.delete .pendingSync id) = true) :
    ((replayFailed out id marker result).course s).final.GivenUp id ∨
      ((replayFailed out id marker result).course s).final.shadow.get .pendingSync id =
        some marker.bumped ∧ marker.retries + 1 < maxRetryCount := by
  rw [replayFailed, Steps.course_bind_of (course_getAndBumpRetryCount hopen hm hread hput),
    Course.final_after]
  by_cases hlt : marker.retries + 1 < maxRetryCount
  · rw [if_pos hlt]
    exact .inr ⟨WalEnv.get_put_self, hlt⟩
  · obtain ⟨hdead, hclear⟩ := hlast (Nat.le_of_not_lt hlt)
    have hbumped : Backend.shadow.accepts (out.lmdb (.put .deadletter id))
        (s.shadow.put .pendingSync id marker.bumped) = true := by
      rw [Backend.accepts, WalEnv.entries_put_of_isSome (by rw [hm]; rfl)]
      exact hdead
    obtain ⟨r, hcourse⟩ := course_walWriteDeadletterMarker
      (s := { s with shadow := s.shadow.put .pendingSync id marker.bumped }) hopen hbumped
    have hfinal : ((walClearPendingSyncMarker out.toOutcomes id).course { s with
        shadow := (s.shadow.put .pendingSync id marker.bumped).put .deadletter id r }).final = _ :=
      final_walClearPendingSyncMarker hopen hclear
    rw [if_neg hlt, Steps.course_bind_of hcourse, Course.final_after]
    refine .inl ?_
    show WalStore.GivenUp ((walClearPendingSyncMarker out.toOutcomes id).course _).final id
    rw [hfinal]
    refine ⟨?_, WalEnv.get_erase_self⟩
    rw [WalEnv.get_erase_of_kind_ne WalKind.noConfusion, WalEnv.get_put_self]
    rfl

private theorem verified_of_inserts {marker : WalRecord} (hins : out.inserts id = true)
    (hverify : out.verify = .answers) :
    ((replayMarker out id marker).course s).value.readBackVerified = true := by
  rw [ReplayOutcomes.inserts, Bool.and_eq_true, Option.isNone_iff_eq_none, beq_iff_eq] at hins
  have hinsert : ∃ t l, (syncReplaySingleMarker out id marker).course s = ⟨.ok true, t, l⟩ ∧
      t.rows.contains id = true := by
    obtain ⟨row, hinserted⟩ := course_syncInsertFinding_of_inserted hins.2 s (marker.query.getD "")
      (marker.sourceType.getD "unknown") (marker.confidence.getD 1)
    rw [syncReplaySingleMarker, hins.1]
    simp only
    rw [Steps.course_bind_of hinserted]
    exact ⟨_, _, rfl, Std.ExtTreeMap.contains_insertIfNew_self⟩
  obtain ⟨t, l, hcourse, hrow⟩ := hinsert
  have hverified : (syncVerifyDuckdbRecord out id).course t = ⟨.ok true, t, []⟩ := by
    rw [syncVerifyDuckdbRecord, Steps.course_read_bind, hverify, hrow]
    rfl
  rw [replayMarker, Steps.course_bind_of hcourse, Course.value_after]
  show ((replayWritten out id _).course t).value.readBackVerified = true
  rw [replayWritten, Steps.course_bind_of_nil hverified]
  rfl

private theorem final_of_not_inserts (marker : WalRecord) (hins : ¬ out.inserts id = true) :
    ∃ result, ((replayMarker out id marker).course s).final =
      ((replayFailed out id marker result).course s).final := by
  rw [ReplayOutcomes.inserts, Bool.and_eq_true, Option.isNone_iff_eq_none, beq_iff_eq] at hins
  rw [replayMarker]
  cases hsubmit : out.submits with
  | some message =>
    have hcourse : (syncReplaySingleMarker out id marker).course s = ⟨.error message, s, []⟩ := by
      rw [syncReplaySingleMarker, hsubmit]
      rfl
    rw [Steps.course_bind_of_nil hcourse]
    exact ⟨_, rfl⟩
  | none =>
    have hinsert : out.insert id ≠ .inserted := fun hc => hins ⟨hsubmit, hc⟩
    have hcourse : (syncReplaySingleMarker out id marker).course s =
        ⟨.ok false, s, [(.insert id, s)]⟩ := by
      rw [syncReplaySingleMarker, hsubmit]
      simp only
      rw [Steps.course_bind_of (course_syncInsertFinding_of_ne hinsert _ _ _ _)]
      cases hi : out.insert id with
      | inserted => exact absurd hi hinsert
      | refused => rfl
      | raised message => rfl
    rw [Steps.course_bind_of hcourse, Course.final_after]
    exact ⟨_, rfl⟩

private theorem counted_of_counts {marker : WalRecord}
    (hm : s.shadow.get .pendingSync a.id = some marker) (hc : a.Counts s)
    (hfail : (a.result s).readBackVerified = false) :
    (replayStep s a).GivenUp a.id ∨
      (replayStep s a).shadow.get .pendingSync a.id = some marker.bumped ∧
        marker.retries + 1 < maxRetryCount := by
  obtain ⟨⟨hclosed, hopen⟩, ⟨hget, htruth, hsome⟩, hends⟩ := hc
  obtain ⟨w, hw⟩ := Option.isSome_iff_exists.1 hsome
  have hcourse : (asyncReplaySinglePendingMarker a.out a.id).course s =
      (replayMarker a.out a.id marker).course s := by
    rw [asyncReplaySinglePendingMarker, Steps.course_read_bind, hclosed, hget]
    show (walGetPendingMarker true a.id >>= _).course s = _
    rw [Steps.course_bind_of_nil (course_walGetPendingMarker hopen hm)]
    simp only [hopen, htruth, hw, if_true]
  rw [ReplayAttempt.result, hcourse] at hfail
  rw [replayStep, hcourse]
  have hretries : s.retries a.id = marker.retries := by
    rw [WalStore.retries, hm]
    rfl
  by_cases hins : a.out.inserts a.id = true
  · rw [if_pos hins] at hends
    rw [verified_of_inserts hins hends] at hfail
    cases hfail
  · rw [if_neg hins, hretries] at hends
    obtain ⟨⟨hread, hput⟩, hlast⟩ := hends
    obtain ⟨result, hresult⟩ := final_of_not_inserts marker hins
    rw [hresult]
    exact final_replayFailed result hopen hm hread hput hlast

/-- The number of failures a finding may have had after `n` attempts that all failed. -/
private def Bumped (id : String) (n : Nat) (s : WalStore) : Prop :=
  s.GivenUp id ∨ ∃ marker, s.shadow.get .pendingSync id = some marker ∧
    n ≤ marker.retries ∧ (n = 0 ∨ marker.retries < maxRetryCount)

private theorem bumped_step {n : Nat} (h : Bumped id n s) (hc : s.Pending a.id → a.Counts s)
    (hfail : a.id = id → (a.result s).readBackVerified = false) :
    Bumped id (if a.id = id then n + 1 else n) (replayStep s a) := by
  by_cases hid : a.id = id
  · subst hid
    rw [if_pos rfl]
    rcases h with h | ⟨marker, hm, hn, _⟩
    · rw [replayStep, final_of_not_pending h.2]
      exact .inl h
    · have hpending : s.Pending a.id := by
        rw [WalStore.Pending, hm]
        rfl
      rcases counted_of_counts hm (hc hpending) (hfail rfl) with h | ⟨hget, hlt⟩
      · exact .inl h
      · exact .inr ⟨marker.bumped, hget, Nat.succ_le_succ hn, .inr hlt⟩
  · rw [if_neg hid]
    have hkeep := congrFun (keeps_asyncReplaySinglePendingMarker a.out hid s)
    simp only at hkeep
    rw [Bumped, WalStore.GivenUp, replayStep, hkeep, hkeep]
    exact h

private theorem bumped_run {as : List ReplayAttempt} {n : Nat} (h : Bumped id n s)
    (hc : StepsMeet replayStep (fun s a => s.Pending a.id → a.Counts s) s as)
    (hfail : ∀ p ∈ trace replayStep s as, p.2.id = id → (p.2.result p.1).readBackVerified = false) :
    Bumped id (n + as.countP (·.id = id)) (as.foldl replayStep s) := by
  induction as generalizing s n with
  | nil => exact h
  | cons a as ih =>
    have hstep := bumped_step h hc.1 (hfail (s, a) List.mem_cons_self)
    have hrun := ih hstep hc.2 fun p hp => hfail p (List.mem_cons_of_mem _ hp)
    rw [List.foldl_cons, List.countP_cons]
    split at hrun
    · next hid =>
      simp only [hid, decide_true, if_true]
      rw [← Nat.add_assoc, Nat.add_right_comm]
      exact hrun
    · next hid =>
      simp only [hid, decide_false, Bool.false_eq_true, if_false]
      exact hrun

end Counts

/-- In a run whose attempts on pending findings all come through or fail with a failure that is counted, no
marker is dropped, and a finding that keeps failing is given up in time. -/
theorem neverDropped_of_counts (s : WalStore) (as : List ReplayAttempt)
    (h : StepsMeet replayStep (fun s a => s.Pending a.id → a.Counts s) s as) : NeverDropped s as := by
  constructor
  · apply stepsMeet_of_forall
    intro t a id hpending hgone
    have hkept := (survives_asyncReplaySinglePendingMarker a.out id a.id t (.inl hpending)).1
    exact hkept.resolve_left hgone
  · rintro pre ⟨rest, rfl⟩ id hpending hcount hfail
    obtain ⟨marker, hm⟩ := Option.isSome_iff_exists.1 hpending
    rcases bumped_run (n := 0) (.inr ⟨marker, hm, Nat.zero_le _, .inl rfl⟩) (stepsMeet_append.1 h).1
      hfail with
      hgiven | ⟨marker', _, hle, hlt⟩
    · exact hgiven
    · rw [maxRetryCount] at hcount hlt
      omega

/-- Three inserts that DuckDB refuses. -/
theorem neverDropped_refused :
    NeverDropped
      { shadow := (({} : WalEnv).put .finding "a" { ts := 0 }).put .pendingSync "a" { ts := 0 }
        walLmdb := true }
      (List.replicate 3 { id := "a", out := { insert := fun _ => .refused } }) := by
  apply neverDropped_of_counts
  refine ⟨fun _ => ⟨⟨rfl, rfl⟩, ⟨rfl, rfl, ?_⟩, ?_⟩, fun _ => ⟨⟨?_, ?_⟩, ⟨rfl, rfl, ?_⟩, ?_⟩,
    fun _ => ⟨⟨?_, ?_⟩, ⟨rfl, rfl, ?_⟩, ?_⟩, trivial⟩
  all_goals decide

/-- A marker is never counted while `_wal_lmdb` is not open, and neither where the finding record is
missing. -/
theorem not_neverDropped_unread :
    ¬ NeverDropped
        { shadow := (({} : WalEnv).put .finding "a" { ts := 0 }).put .pendingSync "a" { ts := 0 } }
        (List.replicate 3 { id := "a" }) ∧
      ¬ NeverDropped
        { shadow := ({} : WalEnv).put .pendingSync "a" { ts := 0 }
          walLmdb := true }
        (List.replicate 3 { id := "a" }) := by
  constructor
  · intro h
    have hgiven := h.givenUp _ (List.prefix_refl _) "a" rfl (by decide) (by decide)
    exact absurd hgiven.1 (by decide)
  · intro h
    have hgiven := h.givenUp _ (List.prefix_refl _) "a" rfl (by decide) (by decide)
    exact absurd hgiven.1 (by decide)

end Hledac.Knowledge
