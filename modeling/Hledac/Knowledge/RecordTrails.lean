import Hledac.Knowledge.RecordPaths

/-!
# Which desynchronised findings leave a trail

The batch paths write no marker, so that a finding of theirs has a trail only where it had one before.
`_activation_record_finding` writes one through `_wal_lmdb`, and takes its prewrite record away.
-/

namespace Hledac.Knowledge

open Hledac.Lib

namespace WalStore

/-- Whether the finding record reaches the log. -/
def logs (s : WalStore) (out : Outcomes) (id : String) : Bool :=
  s.canOpen && s.backend.accepts (out.lmdb (.put .finding id)) s.log

/-- The log once the finding record is written and the prewrite record is tried. -/
def attempted (s : WalStore) (out : Outcomes) (id query sourceType : String) (confidence : ℚ) :
    WalEnv :=
  let e := s.log.put .finding id (out.findingRecord query sourceType confidence)
  if s.backend.accepts (out.lmdb (.put .prewrite id)) e then e.put .prewrite id { ts := out.now }
  else e

end WalStore

/-- The log without the pending markers that were evicted to make room. -/
def evicted (out : Outcomes) (e : WalEnv) : WalEnv :=
  (oldestPendingMarkers e (maxPendingSyncMarkers - 1)).foldl (fun e id =>
    (LMDBKVStore.delete (out.lmdb (.delete .pendingSync id)) .pendingSync id e).2) e

/-- The log once a pending marker is put, if it is accepted. -/
def withMarker (out : Outcomes) (id : String) (r : WalRecord) (e : WalEnv) : WalEnv :=
  if Backend.shadow.accepts (out.lmdb (.put .pendingSync id)) (evicted out e) then
    (evicted out e).put .pendingSync id r
  else evicted out e

/-- Whether the finding has a pending marker once DuckDB has failed, `e` being the log: the marker is put,
or an earlier one is not evicted. Where `_wal_lmdb` is not open, or not what the manager writes to, only
an earlier one counts. -/
def WalStore.MarkerStays (s : WalStore) (out : Outcomes) (id : String) (e : WalEnv) : Prop :=
  if s.backend = .shadow ∧ s.walLmdb = true then
    Backend.shadow.accepts (out.lmdb (.put .pendingSync id)) (evicted out e) = true ∨
      ((evicted out e).get .pendingSync id).isSome = true
  else (e.get .pendingSync id).isSome = true

/-- The finding has a marker or an open prewrite record already. -/
def WalStore.Marked (s : WalStore) (id : String) : Prop :=
  (s.log.get .pendingSync id).isSome = true ∨
    (s.log.get .prewrite id).isSome = true ∧ s.log.get .checkpoint id = none

/-- Whether the whole batch reaches the log. -/
def WalStore.logsAll (s : WalStore) (out : Outcomes) (items : List (String × WalRecord)) : Bool :=
  s.canOpen && (s.backend.putMany out.chunk items s.log).1.all id

/-- The finding does not reach the log, or reaches DuckDB as well, or leaves or has a trail. -/
def KeepsTrails (s : WalStore) (out : Outcomes) : RecordCall → Prop
  | .activation id query sourceType confidence =>
    let e := s.attempted out id query sourceType confidence
    s.logs out id = false ∨ out.insert id = .inserted ∨ s.MarkerStays out id e ∨
      out.lmdb (.delete .prewrite id) = false ∧ (e.get .prewrite id).isSome = true ∧
        s.log.get .checkpoint id = none
  | .canonical _ => True
  | .failOpen arrow findings =>
    s.logsAll out (findings.map fun f => f.walItem f.payloadText) = false ∨
      arrow.inserts findings.length = true ∨ ∀ f ∈ findings, s.Marked f.findingId
  | .standalone scrub arrow findings =>
    s.logsAll out (findings.map fun f => f.walItem (f.scrubbed scrub)) = false ∨
      (∀ count error, arrow = .ok (count, some error) → ∀ f ∈ findings, s.Marked f.findingId)

/-! ### The single path -/

section Single

variable {s : WalStore} {out : Outcomes} {id query sourceType : String} {confidence : ℚ}

private theorem get_evicted_of_ne {k : WalKind} (hk : k ≠ .pendingSync) (e : WalEnv) (id' : String) :
    (evicted out e).get k id' = e.get k id' := by
  rw [evicted]
  induction oldestPendingMarkers e (maxPendingSyncMarkers - 1) generalizing e with
  | nil => rfl
  | cons x xs ih =>
    rw [List.foldl_cons, ih, LMDBKVStore.delete]
    split
    · exact WalEnv.get_erase_of_kind_ne hk
    · rfl

private theorem final_walEvictOldestPendingMarkers (h : s.walLmdb = true) :
    ((walEvictOldestPendingMarkers out (maxPendingSyncMarkers - 1)).course s).final =
      { s with shadow := evicted out s.shadow } := by
  have hfold : ∀ (ids : List String) (t : WalStore),
      ids.foldl (fun t id => { t with
          shadow := (LMDBKVStore.delete (out.lmdb (.delete .pendingSync id)) .pendingSync id t.shadow).2 }) t =
        { t with shadow := ids.foldl (fun e id =>
            (LMDBKVStore.delete (out.lmdb (.delete .pendingSync id)) .pendingSync id e).2) t.shadow } := by
    intro ids
    induction ids with
    | nil =>
      intro t
      rfl
    | cons x xs ih =>
      intro t
      rw [List.foldl_cons, ih, List.foldl_cons]
  rw [walEvictOldestPendingMarkers, Steps.course_read_bind, if_pos h, Steps.final_forM, evicted]
  exact hfold _ s

private theorem final_walWritePendingSyncMarker (h : s.walLmdb = true) :
    ((walWritePendingSyncMarker out id query sourceType confidence).course s).final =
      { s with
        shadow := withMarker out id (out.findingRecord query sourceType confidence) s.shadow } := by
  have hput := Backend.put_eq .shadow (out.lmdb (.put .pendingSync id)) .pendingSync id
    (out.findingRecord query sourceType confidence) (evicted out s.shadow)
  rw [Backend.put] at hput
  rw [walWritePendingSyncMarker, Steps.course_read_bind, if_pos h, Steps.final_bind,
    final_walEvictOldestPendingMarkers h, final_walLmdbOp, hput, withMarker]
  by_cases ha : Backend.shadow.accepts (out.lmdb (.put .pendingSync id)) (evicted out s.shadow) = true
  · rw [if_pos ha, if_pos ha]
  · rw [if_neg ha, if_neg ha]

/-- What is in the log once the marker is written. -/
private theorem log_of_marker (out : Outcomes) (id query sourceType : String) (confidence : ℚ)
    {t u : WalStore} (hopened : t.opened = t)
    (hu : u = ((walWritePendingSyncMarker out id query sourceType confidence).course t).final) :
    u.opened = u ∧ u.backend = t.backend ∧
      (∀ k ≠ .pendingSync, ∀ id', u.log.get k id' = t.log.get k id') ∧
        ((u.log.get .pendingSync id).isSome = true ↔ t.MarkerStays out id t.log) := by
  by_cases hw : t.walLmdb = true
  · rw [final_walWritePendingSyncMarker hw] at hu
    have hb : u.backend = t.backend := by
      rw [hu]
      rfl
    have ho : u.opened = u := by
      rw [hu, ← hopened]
      rfl
    cases hback : t.backend with
    | unified =>
      have hlog : u.log = t.log := by
        rw [WalStore.log, WalStore.log, hb, hback, hu]
        rfl
      refine ⟨ho, hb.trans hback, fun _ _ _ => by rw [hlog], ?_⟩
      rw [hlog, WalStore.MarkerStays, hback, if_neg fun hc => Backend.noConfusion hc.1]
    | shadow =>
      have hshadow : t.log = t.shadow := by
        rw [WalStore.log, hback]
        rfl
      have hlog : u.log =
          withMarker out id (out.findingRecord query sourceType confidence) t.shadow := by
        rw [WalStore.log, hb, hback, hu]
        rfl
      have hstays : t.MarkerStays out id t.log ↔
          Backend.shadow.accepts (out.lmdb (.put .pendingSync id)) (evicted out t.shadow) = true ∨
            ((evicted out t.shadow).get .pendingSync id).isSome = true := by
        rw [WalStore.MarkerStays, if_pos ⟨hback, hw⟩, hshadow]
      rw [hstays, hlog, withMarker, hshadow]
      refine ⟨ho, hb.trans hback, ?_, ?_⟩
      · intro k hk id'
        split
        · rw [WalEnv.get_put_of_kind_ne hk, get_evicted_of_ne hk]
        · exact get_evicted_of_ne hk _ _
      · split
        · next h =>
          rw [WalEnv.get_put_self]
          exact iff_of_true rfl (.inl h)
        · next h => exact ⟨.inr, fun hc => hc.resolve_left h⟩
  · have hself : u = t := by
      rw [hu, walWritePendingSyncMarker, Steps.course_read_bind, if_neg hw]
      rfl
    rw [hself]
    refine ⟨hopened, rfl, fun _ _ _ => rfl, ?_⟩
    rw [WalStore.MarkerStays, if_neg fun hc => hw hc.2]

theorem course_walWritePrewrite_attempted (s : WalStore) (out : Outcomes) (id query sourceType : String)
    (confidence : ℚ) :
    ∃ v, (walWritePrewrite out id).course
        (s.opened.setLog (s.log.put .finding id (out.findingRecord query sourceType confidence))) =
      ⟨v, s.opened.setLog (s.attempted out id query sourceType confidence),
        [(.put .prewrite id,
          s.opened.setLog (s.log.put .finding id (out.findingRecord query sourceType confidence)))]⟩ := by
  have hcan : (s.opened.setLog (s.log.put .finding id
      (out.findingRecord query sourceType confidence))).canOpen = true := by
    rw [← WalStore.opened_setLog_opened, WalStore.canOpen_opened]
  rw [walWritePrewrite, course_walWrite hcan, WalStore.opened_setLog_opened, WalStore.backend_setLog,
    WalStore.log_setLog, WalStore.setLog_setLog, WalStore.attempted, WalStore.backend_opened]
  split <;> exact ⟨_, rfl⟩

/-- A finding that reaches the log and not DuckDB. -/
private theorem activation_of_logs (query sourceType : String) (confidence : ℚ)
    (hl : s.logs out id = true) (hi : out.insert id ≠ .inserted) :
    ((activationRecordFinding out id query sourceType confidence).course s).value =
        .ok { lmdbSuccess := true, duckdbSuccess := some false } ∧
      (((activationRecordFinding out id query sourceType confidence).course s).final.HasTrail id ↔
        KeepsTrails s out (.activation id query sourceType confidence)) := by
  rw [WalStore.logs, Bool.and_eq_true] at hl
  have hwrite : (walWriteFinding out id query sourceType confidence).course s = ⟨.ok true,
      s.opened.setLog (s.log.put .finding id (out.findingRecord query sourceType confidence)),
        [(.put .finding id, s.opened)]⟩ := by
    rw [walWriteFinding, course_walWrite hl.1, hl.2, if_pos rfl]
  have hinsert := course_syncInsertFinding_of_ne hi
    (s.opened.setLog (s.attempted out id query sourceType confidence)) query sourceType confidence
  have hset : (s.opened.setLog (s.attempted out id query sourceType confidence)).opened =
      s.opened.setLog (s.attempted out id query sourceType confidence) :=
    WalStore.opened_setLog_opened
  obtain ⟨hu, hback, hother, hmarker⟩ := log_of_marker out id query sourceType confidence hset rfl
  generalize hmark : ((walWritePendingSyncMarker out id query sourceType confidence).course
    (s.opened.setLog (s.attempted out id query sourceType confidence))).final = u at *
  have hcourse : ((activationRecordFinding out id query sourceType confidence).course s).value =
        .ok { lmdbSuccess := true, duckdbSuccess := some false } ∧
      ((activationRecordFinding out id query sourceType confidence).course s).final =
        ((walClearPrewrite out id).course u).final := by
    rw [activationRecordFinding, Steps.course_bind_of hwrite]
    simp only [Course.value_after, Course.final_after]
    obtain ⟨v, hprewritten⟩ :=
      course_walWritePrewrite_attempted s out id query sourceType confidence
    rw [Steps.value_bind, Steps.final_bind, hprewritten, Steps.course_bind_of hinsert, ← hmark]
    cases h : out.insert id with
    | inserted => exact absurd h hi
    | refused => exact ⟨rfl, rfl⟩
    | raised message => exact ⟨rfl, rfl⟩
  have hprewrite : (u.log.get .prewrite id) =
      (s.attempted out id query sourceType confidence).get .prewrite id := by
    rw [hother .prewrite WalKind.noConfusion, WalStore.log_setLog]
  have hcheckpoint : u.log.get .checkpoint id = s.log.get .checkpoint id := by
    rw [hother .checkpoint WalKind.noConfusion, WalStore.log_setLog, WalStore.attempted]
    split
    · rw [WalEnv.get_put_of_kind_ne WalKind.noConfusion, WalEnv.get_put_of_kind_ne WalKind.noConfusion]
    · rw [WalEnv.get_put_of_kind_ne WalKind.noConfusion]
  have hfinding : (u.log.get .finding id).isSome = true := by
    rw [hother .finding WalKind.noConfusion, WalStore.log_setLog, WalStore.attempted]
    split
    · rw [WalEnv.get_put_of_kind_ne WalKind.noConfusion, WalEnv.get_put_self]
      rfl
    · rw [WalEnv.get_put_self]
      rfl
  have hstays : (s.opened.setLog (s.attempted out id query sourceType confidence)).MarkerStays out id
      (s.attempted out id query sourceType confidence) ↔
        s.MarkerStays out id (s.attempted out id query sourceType confidence) := by
    rw [WalStore.MarkerStays, WalStore.MarkerStays, WalStore.backend_setLog, WalStore.backend_opened,
      WalStore.setLog, WalStore.walLmdb_setEnv]
    rfl
  refine ⟨hcourse.1, ?_⟩
  rw [hcourse.2, course_walClearPrewrite hu, WalStore.HasTrail, KeepsTrails, WalStore.logs, hl.1, hl.2]
  rw [WalStore.log_setLog, hstays] at hmarker
  cases hdel : out.lmdb (.delete .prewrite id) with
  | true =>
    simp only [if_true, WalStore.log_setLog, WalEnv.get_erase_self,
      WalEnv.get_erase_of_kind_ne (show WalKind.finding ≠ .prewrite from WalKind.noConfusion),
      WalEnv.get_erase_of_kind_ne (show WalKind.pendingSync ≠ .prewrite from WalKind.noConfusion)]
    simp [hfinding, hmarker, hi]
  | false =>
    simp [hfinding, hmarker, hi, hprewrite, hcheckpoint]

/-- A finding that does not reach the log, or reaches DuckDB, is not reported as desynchronised. -/
private theorem activation_not_desync (h : s.logs out id = false ∨ out.insert id = .inserted)
    {r : RecordResult}
    (hr : ((activationRecordFinding out id query sourceType confidence).course s).value = .ok r) :
    r.desync = false := by
  rw [activationRecordFinding] at hr
  by_cases hcan : s.canOpen = true
  · have hwrite : (walWriteFinding out id query sourceType confidence).course s = _ :=
      course_walWrite hcan
    rw [Steps.course_bind_of hwrite] at hr
    cases hacc : s.backend.accepts (out.lmdb (.put .finding id)) s.log with
    | false =>
      rw [hacc] at hr
      cases hr
      rfl
    | true =>
      have hi : out.insert id = .inserted := by
        rw [WalStore.logs, hcan, hacc] at h
        exact h.resolve_left Bool.noConfusion
      simp only [hacc, Course.value_after] at hr
      rw [Steps.value_bind, Steps.value_bind, syncInsertFinding, Steps.course_op, hi] at hr
      simp only [Steps.value_bind] at hr
      split at hr
      · cases hr
        rfl
      · cases hr
        rfl
  · rw [Bool.not_eq_true] at hcan
    obtain ⟨v, m, hwrite, hv, _⟩ :
        ∃ v m, (walWriteFinding out id query sourceType confidence).course s = _ ∧ _ ∧ _ :=
      course_walWrite_of_not_canOpen hcan
    rw [Steps.course_bind_of hwrite] at hr
    cases v with
    | error e => cases hr
    | ok b =>
      cases b with
      | true => exact absurd rfl hv
      | false =>
        cases hr
        rfl

private theorem leavesTrails_activation :
    LeavesTrails s out (.activation id query sourceType confidence) ↔
      KeepsTrails s out (.activation id query sourceType confidence) := by
  have hfinal : (((RecordCall.activation id query sourceType confidence).run out).course s).final =
      ((activationRecordFinding out id query sourceType confidence).course s).final := rfl
  have hvalue : (((RecordCall.activation id query sourceType confidence).run out).course s).value =
      (((activationRecordFinding out id query sourceType confidence).course s).value.toOption.map
        fun r => (id, r)).toList := rfl
  rw [LeavesTrails, hvalue, hfinal]
  by_cases h : s.logs out id = false ∨ out.insert id = .inserted
  · refine iff_of_true ?_ (h.imp_right .inl)
    intro p hp hd
    cases hr : ((activationRecordFinding out id query sourceType confidence).course s).value with
    | error e =>
      rw [hr] at hp
      cases hp
    | ok r =>
      rw [hr] at hp
      obtain rfl := List.mem_singleton.1 hp
      rw [activation_not_desync h hr] at hd
      cases hd
  · rw [not_or, Bool.not_eq_false] at h
    obtain ⟨hr, hiff⟩ := activation_of_logs query sourceType confidence h.1 h.2
    rw [hr, ← hiff]
    constructor
    · intro hall
      exact hall _ List.mem_cons_self rfl
    · intro htrail p hp _
      obtain rfl := List.mem_singleton.1 hp
      exact htrail

end Single

/-! ### The other paths -/

section Batch

variable {s : WalStore} {out : Outcomes} {items : List (String × WalRecord)}

private theorem canonical_not_logged (f : ScoredFinding) :
    ((canonicalFindingToActivationResult out f).course s).value.lmdbSuccess = false := by
  rw [canonicalFindingToActivationResult, Steps.value_bind]
  cases ((ensureWalManager out).course s).value with
  | error e => rfl
  | ok b => cases b <;> rfl

private theorem course_walPutAll {t : WalStore} (h : t.handle = some t.backend) :
    (walPutAll out items).course t =
      ⟨(t.backend.putMany out.chunk items t.log).1.all id,
        t.setLog (t.backend.putMany out.chunk items t.log).2, [(.putMany, t)]⟩ := by
  rw [walPutAll, Steps.course_read_bind, h]
  rfl

private theorem walRecordBatch_of_logsAll (h : s.logsAll out items = true) :
    ((walRecordBatch out items).course s).value = .ok () ∧
      ((walRecordBatch out items).course s).final =
        s.setLog (s.backend.putMany out.chunk items s.log).2 := by
  rw [WalStore.logsAll, Bool.and_eq_true] at h
  rw [walRecordBatch, Steps.course_bind_of_nil (course_ensureWalManager_of_canOpen h.1)]
  simp only
  rw [Steps.course_bind_of (course_walPutAll (WalStore.handle_of_canOpen h.1)), h.2]
  exact ⟨rfl, rfl⟩

private theorem walRecordBatch_of_not_logsAll (h : s.logsAll out items = false) (hne : items ≠ []) :
    ∃ e, ((walRecordBatch out items).course s).value = .error e := by
  rw [walRecordBatch]
  by_cases hcan : s.canOpen = true
  · rw [WalStore.logsAll, hcan] at h
    rw [Steps.course_bind_of_nil (course_ensureWalManager_of_canOpen hcan)]
    simp only
    rw [Steps.course_bind_of (course_walPutAll (WalStore.handle_of_canOpen hcan)),
      show (s.backend.putMany out.chunk items s.log).1.all id = false from h]
    exact ⟨_, rfl⟩
  · cases hm : s.manager with
    | none =>
      obtain ⟨v, m, hensure, hv, _⟩ : ∃ v m, (ensureWalManager out).course s = _ ∧ _ ∧ _ :=
        course_ensureWalManager_of_none hm
      rw [Steps.course_bind_of_nil hensure]
      cases v with
      | error e => exact ⟨_, rfl⟩
      | ok b =>
        cases b with
        | false => exact ⟨_, rfl⟩
        | true => exact absurd rfl hv
    | some m =>
      have hput : (walPutAll out items).course s = ⟨false, s, []⟩ := by
        rw [WalStore.canOpen, Bool.not_eq_true, Option.isSome_eq_false_iff, Option.isNone_iff_eq_none]
          at hcan
        rw [walPutAll, Steps.course_read_bind, hcan, List.isEmpty_eq_false_iff.2 hne]
        rfl
      rw [Steps.course_bind_of_nil (course_ensureWalManager_of_some hm)]
      simp only
      rw [Steps.course_bind_of_nil hput]
      exact ⟨_, rfl⟩

private theorem hasTrail_of_logsAll {findings : List ScoredFinding} {payload : ScoredFinding → Option String}
    (h : s.logsAll out (findings.map fun f => f.walItem (payload f)) = true) {f : ScoredFinding}
    (hf : f ∈ findings) :
    ((walRecordBatch out (findings.map fun f => f.walItem (payload f))).course s).final.HasTrail
      f.findingId ↔ s.Marked f.findingId := by
  have hfinal := (walRecordBatch_of_logsAll h).2
  rw [WalStore.logsAll, Bool.and_eq_true] at h
  have hfinding := s.backend.isSome_get_of_putMany_all h.2
    (List.mem_map_of_mem (f := fun f => f.walItem (payload f)) hf)
  have hother : ∀ k ≠ WalKind.finding,
      (s.setLog (s.backend.putMany out.chunk (findings.map fun f => f.walItem (payload f)) s.log).2).log.get
        k f.findingId = s.log.get k f.findingId := by
    intro k hk
    rw [WalStore.log_setLog, Backend.get_putMany_of_ne hk]
  rw [hfinal, WalStore.HasTrail, WalStore.Marked, hother .pendingSync WalKind.noConfusion,
    hother .prewrite WalKind.noConfusion, hother .checkpoint WalKind.noConfusion, WalStore.log_setLog]
  exact and_iff_right hfinding

private theorem leavesTrails_of_value {call : RecordCall} {findings : List ScoredFinding}
    {r : RecordResult} (hvalue : ((call.run out).course s).value =
      (findings.map (·.findingId)).zip (findings.map fun _ => r)) :
    LeavesTrails s out call ↔ ∀ f ∈ findings, r.desync = true →
      ((call.run out).course s).final.HasTrail f.findingId := by
  rw [LeavesTrails, hvalue, List.zip_map', List.forall_mem_map]

private theorem leavesTrails_failOpen (arrow : ArrowOutcome) (findings : List ScoredFinding) :
    LeavesTrails s out (.failOpen arrow findings) ↔ KeepsTrails s out (.failOpen arrow findings) := by
  by_cases hne : findings = []
  · subst hne
    refine iff_of_true ?_ (.inr (.inr nofun))
    intro p hp
    cases hp
  rw [KeepsTrails]
  cases hl : s.logsAll out (findings.map fun f => f.walItem f.payloadText) with
  | false =>
    obtain ⟨e, he⟩ := walRecordBatch_of_not_logsAll hl (mt List.map_eq_nil_iff.1 hne)
    refine iff_of_true ?_ (.inl rfl)
    have hvalue : (((RecordCall.failOpen arrow findings).run out).course s).value =
        (findings.map (·.findingId)).zip (findings.map fun _ => { error := some e }) := by
      rw [RecordCall.run, Steps.value_bind, recordFailOpenBatch, if_neg hne, Steps.value_bind, he]
      rfl
    rw [leavesTrails_of_value hvalue]
    intro f _ hd
    cases hd
  | true =>
    have hok := (walRecordBatch_of_logsAll hl).1
    have hvalue : (((RecordCall.failOpen arrow findings).run out).course s).value =
        (findings.map (·.findingId)).zip (findings.map fun _ =>
          { lmdbSuccess := true
            duckdbSuccess := some (arrow.inserts findings.length) }) := by
      rw [RecordCall.run, Steps.value_bind, recordFailOpenBatch, if_neg hne, Steps.value_bind, hok]
      rfl
    have hfinal : (((RecordCall.failOpen arrow findings).run out).course s).final =
        ((walRecordBatch out (findings.map fun f => f.walItem f.payloadText)).course s).final := by
      rw [RecordCall.run, Steps.final_bind, recordFailOpenBatch, if_neg hne, Steps.final_bind, hok]
      rfl
    rw [leavesTrails_of_value hvalue, hfinal]
    cases arrow.inserts findings.length with
    | true =>
      refine iff_of_true ?_ (.inr (.inl rfl))
      intro f _ hd
      cases hd
    | false =>
      constructor
      · intro h
        refine .inr (.inr ?_)
        intro f hf
        exact (hasTrail_of_logsAll hl hf).1 (h f hf rfl)
      · rintro (hc | hc | hc) f hf _
        · cases hc
        · cases hc
        · exact (hasTrail_of_logsAll hl hf).2 (hc f hf)

private theorem leavesTrails_standalone (scrub : String → String) (arrow : ArrowOutcome)
    (findings : List ScoredFinding) :
    LeavesTrails s out (.standalone scrub arrow findings) ↔
      KeepsTrails s out (.standalone scrub arrow findings) := by
  by_cases hne : findings = []
  · subst hne
    refine iff_of_true ?_ (.inr (by simp))
    intro p hp
    cases hp
  rw [KeepsTrails]
  cases hl : s.logsAll out (findings.map fun f => f.walItem (f.scrubbed scrub)) with
  | false =>
    obtain ⟨e, he⟩ := walRecordBatch_of_not_logsAll hl (mt List.map_eq_nil_iff.1 hne)
    refine iff_of_true ?_ (.inl rfl)
    have hvalue : (((RecordCall.standalone scrub arrow findings).run out).course s).value =
        (findings.map (·.findingId)).zip (findings.map fun _ => { error := some e }) := by
      rw [RecordCall.run, Steps.value_bind, syncRecordCanonicalFindingsBatchArrowStandalone, if_neg hne,
        Steps.value_bind, he]
      rfl
    rw [leavesTrails_of_value hvalue]
    intro f _ hd
    cases hd
  | true =>
    have hok := (walRecordBatch_of_logsAll hl).1
    have hfinal : (((RecordCall.standalone scrub arrow findings).run out).course s).final =
        ((walRecordBatch out (findings.map fun f => f.walItem (f.scrubbed scrub))).course s).final := by
      rw [RecordCall.run, Steps.final_bind, syncRecordCanonicalFindingsBatchArrowStandalone, if_neg hne,
        Steps.final_bind, hok]
      rfl
    have hrun : (((RecordCall.standalone scrub arrow findings).run out).course s).value =
        (findings.map (·.findingId)).zip (((arrow.map fun r => findings.map fun _ =>
          ({ lmdbSuccess := true
             duckdbSuccess := some r.2.isNone
             error := r.2 } : RecordResult)).toOption.getD [])) := by
      rw [RecordCall.run, Steps.value_bind, syncRecordCanonicalFindingsBatchArrowStandalone, if_neg hne,
        Steps.value_bind, hok]
      rfl
    cases arrow with
    | error message =>
      refine iff_of_true ?_ (.inr (by simp))
      rw [LeavesTrails, hrun]
      intro p hp
      have hnil : p ∈ (findings.map (·.findingId)).zip ([] : List RecordResult) := hp
      rw [List.zip_nil_right] at hnil
      cases hnil
    | ok r =>
      rw [leavesTrails_of_value hrun, hfinal]
      obtain ⟨count, _ | error⟩ := r
      · refine iff_of_true ?_ (.inr (by simp))
        intro f _ hd
        cases hd
      · constructor
        · intro h
          refine .inr ?_
          intro _ _ _ f hf
          exact (hasTrail_of_logsAll hl hf).1 (h f hf rfl)
        · rintro (hc | hc) f hf _
          · cases hc
          · exact (hasTrail_of_logsAll hl hf).2 (hc count error rfl f hf)

end Batch

/-- A call leaves a trail of every finding that it says is in the log and not in DuckDB, exactly where the
condition holds. -/
theorem leavesTrails_iff_keepsTrails (s : WalStore) (out : Outcomes) (call : RecordCall) :
    LeavesTrails s out call ↔ KeepsTrails s out call := by
  cases call with
  | failOpen arrow findings => exact leavesTrails_failOpen arrow findings
  | standalone scrub arrow findings => exact leavesTrails_standalone scrub arrow findings
  | canonical f =>
    refine iff_of_true ?_ trivial
    intro p hp hd
    rw [RecordCall.run, Steps.value_bind] at hp
    obtain rfl := List.mem_singleton.1 hp
    rw [RecordResult.desync, canonical_not_logged f, Bool.false_and] at hd
    cases hd
  | activation id query sourceType confidence =>
    exact leavesTrails_activation

/-- A finding that is logged and that DuckDB refuses leaves no trail in a new store. -/
theorem not_leavesTrails_raised :
    ¬ LeavesTrails { manager := some ⟨.unified, true⟩ } { insert := fun _ => .raised "" }
      (.activation "a" "q" "web" 1) := by
  rw [leavesTrails_activation]
  simp only [KeepsTrails, not_or]
  refine ⟨?_, ?_, ?_, ?_⟩
  · decide
  · decide
  · rw [WalStore.MarkerStays, if_neg fun hc => Bool.noConfusion hc.2]
    decide
  · decide

end Hledac.Knowledge
