import Hledac.Knowledge.RecordTrails
import Hledac.Knowledge.StartupReplay

/-!
# Which runs are recovered

A finding in the log is covered while it has its row or a prewrite record that the replay at startup finds.
Everything keeps the other findings covered, the replay keeps all of them, and a record call keeps its own
exactly where it does not leave it between the log and DuckDB.
-/

namespace Hledac.Knowledge

open Hledac.Lib

/-! ### Covered findings -/

/-- What the records of a finding may be, `row` saying that it has its row: a checkpoint stands for a row, a
finding record has a row or a prewrite record whose checkpoint is looked up under its own name, and a prewrite
record belongs to a finding record. -/
structure Covered (e : WalEnv) (row : Prop) (id : String) : Prop where
  checkpoint : (e.get .checkpoint id).isSome = true → row
  finding : (e.get .finding id).isSome = true →
    row ∨ (e.get .prewrite id).isSome = true ∧ UnifiedLMDBStore.checkpointId id = id
  prewrite : (e.get .prewrite id).isSome = true → (e.get .finding id).isSome = true ∧ id ≠ ""

namespace Covered

variable {e : WalEnv} {row row' : Prop} {id id' : String} {k : WalKind} {r : WalRecord}

theorem imp (h : Covered e row id) (hrow : row → row') : Covered e row' id where
  checkpoint hc := hrow (h.checkpoint hc)
  finding hf := (h.finding hf).imp_left hrow
  prewrite := h.prewrite

theorem put_of_ne (h : Covered e row id) (hid : id' ≠ id) : Covered (e.put k id' r) row id := by
  constructor
  · rw [WalEnv.get_put_of_id_ne hid]
    exact h.checkpoint
  · rw [WalEnv.get_put_of_id_ne hid, WalEnv.get_put_of_id_ne hid]
    exact h.finding
  · rw [WalEnv.get_put_of_id_ne hid, WalEnv.get_put_of_id_ne hid]
    exact h.prewrite

theorem erase_of_ne (h : Covered e row id) (hid : id' ≠ id) : Covered (e.erase k id') row id := by
  constructor
  · rw [WalEnv.get_erase_of_id_ne hid]
    exact h.checkpoint
  · rw [WalEnv.get_erase_of_id_ne hid, WalEnv.get_erase_of_id_ne hid]
    exact h.finding
  · rw [WalEnv.get_erase_of_id_ne hid, WalEnv.get_erase_of_id_ne hid]
    exact h.prewrite

theorem put_checkpoint (h : Covered e row id) (hrow : row) : Covered (e.put .checkpoint id r) row id := by
  constructor
  · exact fun _ => hrow
  · exact fun _ => .inl hrow
  · rw [WalEnv.get_put_of_kind_ne WalKind.noConfusion, WalEnv.get_put_of_kind_ne WalKind.noConfusion]
    exact h.prewrite

theorem erase_prewrite (hrow : row) : Covered (e.erase .prewrite id) row id := by
  constructor
  · exact fun _ => hrow
  · exact fun _ => .inl hrow
  · rw [WalEnv.get_erase_self]
    nofun

theorem put_finding (h : Covered e row id)
    (hcover : row ∨ (e.get .prewrite id).isSome = true ∧ UnifiedLMDBStore.checkpointId id = id) :
    Covered (e.put .finding id r) row id := by
  constructor
  · rw [WalEnv.get_put_of_kind_ne WalKind.noConfusion]
    exact h.checkpoint
  · intro _
    rw [WalEnv.get_put_of_kind_ne WalKind.noConfusion]
    exact hcover
  · rw [WalEnv.get_put_of_kind_ne WalKind.noConfusion, WalEnv.get_put_self]
    exact fun hp => ⟨rfl, (h.prewrite hp).2⟩

theorem put_prewrite {r' : WalRecord} (h : Covered e row id) (hid : id ≠ "")
    (hcover : row ∨ UnifiedLMDBStore.checkpointId id = id) :
    Covered ((e.put .finding id r).put .prewrite id r') row id := by
  constructor
  · rw [WalEnv.get_put_of_kind_ne WalKind.noConfusion, WalEnv.get_put_of_kind_ne WalKind.noConfusion]
    exact h.checkpoint
  · intro _
    refine hcover.imp_right fun hc => ⟨?_, hc⟩
    rw [WalEnv.get_put_self]
    rfl
  · intro _
    refine ⟨?_, hid⟩
    rw [WalEnv.get_put_of_kind_ne WalKind.noConfusion, WalEnv.get_put_self]
    rfl

end Covered

namespace WalStore

/-- The finding has its row. -/
def HasRow (s : WalStore) (id : String) : Prop := s.rows.contains id = true

/-- No manager reaches the environment that does not open, and no finding is there. -/
structure OnUnified (s : WalStore) : Prop where
  handle : s.handle ≠ some .shadow
  walLmdb : s.walLmdb = false
  shadow : ∀ id, s.shadow.get .finding id = none

/-- The findings of `p` are covered, and under `c` the manager reaches the log. -/
structure Covers (p : String → Prop) (c : Prop) (s : WalStore) : Prop extends s.OnUnified where
  covered : ∀ id, p id → Covered s.unified (s.HasRow id) id
  canOpen : c → s.canOpen = true

/-- They are covered, and this one has its row if it is one of them. -/
def Ready (p : String → Prop) (c : Prop) (id : String) (s : WalStore) : Prop :=
  s.Covers p c ∧ (p id → s.HasRow id)

variable {s : WalStore} {p : String → Prop} {c : Prop} {id : String} {k : WalKind} {r : WalRecord}

theorem OnUnified.backend (h : s.OnUnified) (hcan : s.canOpen = true) : s.backend = .unified := by
  cases hb : s.backend with
  | unified => rfl
  | shadow =>
    have hhandle := handle_of_canOpen hcan
    rw [hb] at hhandle
    exact absurd hhandle h.handle

theorem Covers.unopened (h : s.Covers p c) (hcan : s.canOpen = false) {m : Option WalManager}
    (hm : m.bind WalManager.handle = none) : Covers p c { s with manager := m } where
  handle := by
    show m.bind WalManager.handle ≠ _
    rw [hm]
    nofun
  walLmdb := h.walLmdb
  shadow := h.shadow
  covered := h.covered
  canOpen hc := by
    have hopen := h.canOpen hc
    rw [hcan] at hopen
    cases hopen

theorem Covers.setUnified (h : s.Covers p c) {e : WalEnv}
    (he : ∀ id, p id → Covered e (s.HasRow id) id) : Covers p c { s with unified := e } where
  handle := h.handle
  walLmdb := h.walLmdb
  shadow := h.shadow
  covered := he
  canOpen := h.canOpen

theorem Covers.opened (h : s.Covers p c) (hcan : s.canOpen = true) : s.opened.Covers p c where
  handle := by
    rw [handle_opened, h.backend hcan]
    nofun
  walLmdb := h.walLmdb
  shadow := h.shadow
  covered := h.covered
  canOpen _ := canOpen_opened

theorem OnUnified.log (h : s.OnUnified) (hcan : s.canOpen = true) : s.log = s.unified := by
  rw [WalStore.log, h.backend hcan]
  rfl

theorem OnUnified.setLog (h : s.OnUnified) (hcan : s.canOpen = true) (e : WalEnv) :
    s.opened.setLog e = { s.opened with unified := e } := by
  rw [WalStore.setLog, backend_opened, h.backend hcan]
  rfl

end WalStore

/-! ### What the methods keep -/

section Keep

variable {p : String → Prop} {c : Prop} {id : String} {out : Outcomes} {C : WalOp → WalStore → Prop}

private theorem survives_ensureWalManager {P : WalStore → Prop}
    (hP : ∀ s, P s → s.canOpen = false → ∀ m : Option WalManager, m.bind WalManager.handle = none →
      P { s with manager := m }) :
    Steps.Survives P (ensureWalManager out) (fun _ => P) C := by
  apply Steps.survives_of_silent
  intro s hs
  cases hm : s.manager with
  | some m =>
    exact ⟨_, _, course_ensureWalManager_of_some hm, hs⟩
  | none =>
    obtain ⟨v, m, hensure, _, hhandle⟩ : ∃ v m, (ensureWalManager out).course s = _ ∧ _ ∧ _ :=
      course_ensureWalManager_of_none hm
    have hcan : s.canOpen = false := by
      rw [WalStore.canOpen, WalStore.handle, hm]
      rfl
    exact ⟨_, _, hensure, hP s hs hcan m hhandle⟩

private theorem ready_unopened (s : WalStore) (hs : s.Ready p c id) (hcan : s.canOpen = false)
    (m : Option WalManager) (hm : m.bind WalManager.handle = none) :
    WalStore.Ready p c id { s with manager := m } :=
  ⟨hs.1.unopened hcan hm, hs.2⟩

private theorem survives_walWrite {k : WalKind} {r : WalRecord} (hk : k = .checkpoint ∨ ¬ p id) :
    Steps.Survives (WalStore.Ready p c id) (walWrite out k id r) (fun _ => WalStore.Ready p c id)
      (fun _ => WalStore.Ready p c id) := by
  intro s hs
  by_cases hcan : s.canOpen = true
  · have hopened : WalStore.Ready p c id s.opened := ⟨hs.1.opened hcan, hs.2⟩
    have hput : WalStore.Ready p c id (s.opened.setLog (s.log.put k id r)) := by
      rw [hs.1.setLog hcan, hs.1.log hcan]
      refine ⟨hopened.1.setUnified ?_, hs.2⟩
      intro id' hid'
      by_cases hne : id = id'
      · subst hne
        rcases hk with rfl | hk
        · exact (hs.1.covered id hid').put_checkpoint (hs.2 hid')
        · exact absurd hid' hk
      · exact (hs.1.covered id' hid').put_of_ne hne
    rw [course_walWrite hcan]
    constructor
    · show WalStore.Ready p c id (if _ then _ else _)
      split
      · exact hput
      · exact hopened
    · intro c hc
      obtain rfl := List.mem_singleton.1 hc
      exact hopened
  · rw [Bool.not_eq_true] at hcan
    obtain ⟨v, m, hwrite, _, hhandle⟩ : ∃ v m, (walWrite out k id r).course s = _ ∧ _ ∧ _ :=
      course_walWrite_of_not_canOpen hcan
    rw [hwrite]
    exact ⟨ready_unopened s hs hcan m hhandle, fun _ hc => absurd hc List.not_mem_nil⟩

private theorem survives_walClearPrewrite :
    Steps.Survives (WalStore.Ready p c id) (walClearPrewrite out id) (fun _ => WalStore.Ready p c id)
      (fun _ => WalStore.Ready p c id) := by
  rw [walClearPrewrite]
  apply (survives_ensureWalManager ready_unopened).bind
  intro v
  cases v with
  | error _ => exact Steps.survives_pure fun _ h => h
  | ok b =>
    cases b with
    | false => exact Steps.survives_pure fun _ h => h
    | true =>
      apply Steps.Survives.bind (R := fun _ => WalStore.Ready p c id)
      · rw [managerDelete]
        apply Steps.survives_read_bind_of_eq
        intro t ht
        cases hb : t.handle with
        | none =>
          apply Steps.survives_pure
          rintro s rfl
          exact ht
        | some b =>
          cases b with
          | shadow => exact absurd hb ht.1.handle
          | unified =>
            apply Steps.survives_op
            · rintro s rfl
              show WalStore.Ready p c id { s with unified := _ }
              refine ⟨ht.1.setUnified ?_, ht.2⟩
              intro id' hid'
              rw [Backend.snd_delete]
              split
              · by_cases hne : id = id'
                · subst hne
                  exact Covered.erase_prewrite (ht.2 hid')
                · exact (ht.1.covered id' hid').erase_of_ne hne
              · exact ht.1.covered id' hid'
            · rintro s rfl
              exact ht
      · exact fun _ => Steps.survives_pure fun _ h => h

private theorem survives_syncInsertFinding {query sourceType : String} {confidence : ℚ} :
    Steps.Survives (WalStore.Covers p c) (syncInsertFinding out id query sourceType confidence)
      (fun v s => s.Covers p c ∧ (v = .inserted → s.HasRow id)) (fun _ => WalStore.Covers p c) := by
  apply Steps.survives_op
  · intro s hs
    cases out.insert id with
    | refused => exact ⟨hs, nofun⟩
    | raised message => exact ⟨hs, nofun⟩
    | inserted =>
      refine ⟨?_, fun _ => ?_⟩
      · constructor
        · exact ⟨hs.handle, hs.walLmdb, hs.shadow⟩
        · intro id' hid'
          apply (hs.covered id' hid').imp
          intro hrow
          show (s.rows.insertIfNew id _).contains id' = true
          rw [Std.ExtTreeMap.contains_insertIfNew, Bool.or_eq_true]
          exact .inr hrow
        · exact hs.canOpen
      · show (s.rows.insertIfNew id _).contains id = true
        rw [Std.ExtTreeMap.contains_insertIfNew_self]
  · exact fun _ hs => hs

private theorem survives_walCommit :
    Steps.Survives (WalStore.Ready p c id) (walCommit out id) (fun _ => WalStore.Ready p c id)
      (fun _ => WalStore.Ready p c id) := by
  apply (survives_walWrite (.inl rfl)).bind
  intro written
  match written with
  | .error _ => exact Steps.survives_pure fun _ h => h
  | .ok _ => exact survives_walClearPrewrite.bind fun _ => Steps.survives_pure fun _ h => h

variable (id out) in
private theorem survives_recoverSingleOrphanedPrewrite :
    Steps.Survives (WalStore.Covers p c) (recoverSingleOrphanedPrewrite out id)
      (fun _ => WalStore.Covers p c) (fun _ => WalStore.Covers p c) := by
  have hget : Steps.Survives (WalStore.Covers p c) (walGetFinding out id) (fun _ => WalStore.Covers p c)
      (fun _ => WalStore.Covers p c) := by
    rw [walGetFinding]
    apply (survives_ensureWalManager fun _ hs hcan _ hm => hs.unopened hcan hm).bind
    intro v
    match v with
    | .error _ => exact Steps.survives_pure fun _ h => h
    | .ok false => exact Steps.survives_pure fun _ h => h
    | .ok true => exact Steps.survives_read_bind fun _ => Steps.survives_pure fun _ h => h
  rw [recoverSingleOrphanedPrewrite]
  apply hget.bind
  intro v
  match v with
  | .error _ => exact Steps.survives_pure fun _ h => h
  | .ok none => exact Steps.survives_pure fun _ h => h
  | .ok (some record) =>
    apply survives_syncInsertFinding.bind
    intro v
    cases v with
    | refused => exact Steps.survives_pure fun _ h => h.1
    | raised message => exact Steps.survives_pure fun _ h => h.1
    | inserted =>
      apply survives_walCommit.imp
      · exact fun _ h => ⟨h.1, fun _ => h.2 rfl⟩
      · exact fun _ _ h => h.1
      · exact fun _ _ h => h.1

private theorem survives_recoverOrphanedPrewritesBatch (prewrites : List (String × WalRecord))
    (inTime : Nat) :
    Steps.Survives (WalStore.Covers p c) (recoverOrphanedPrewritesBatch out inTime prewrites)
      (fun _ => WalStore.Covers p c) (fun _ => WalStore.Covers p c) := by
  induction prewrites generalizing inTime with
  | nil =>
    rw [recoverOrphanedPrewritesBatch]
    exact Steps.survives_pure fun _ h => h
  | cons q rest ih =>
    obtain ⟨id, record⟩ := q
    rw [recoverOrphanedPrewritesBatch.eq_def]
    simp only
    split
    · exact ih inTime
    · cases inTime with
      | zero => exact Steps.survives_pure fun _ h => h
      | succ n => exact (survives_recoverSingleOrphanedPrewrite id out).bind fun _ => ih n

private theorem course_asyncReplaySinglePendingMarker {s : WalStore} (h : s.walLmdb = false)
    (out : ReplayOutcomes) (id : String) :
    ∃ v, (asyncReplaySinglePendingMarker out id).course s = ⟨v, s, []⟩ := by
  have hmarker : ∀ ok, (walGetPendingMarker ok id).course s = ⟨none, s, []⟩ := by
    intro ok
    rw [walGetPendingMarker, Steps.course_read_bind, h]
    rfl
  rw [asyncReplaySinglePendingMarker, Steps.course_read_bind]
  split
  · exact ⟨_, rfl⟩
  · rw [Steps.course_bind_of_nil (hmarker _)]
    simp only
    have hverify : ∃ v, (syncVerifyDuckdbRecord out id).course s = ⟨v, s, []⟩ := ⟨_, rfl⟩
    obtain ⟨v, hverify⟩ := hverify
    rw [Steps.course_bind_of_nil hverify]
    split <;> exact ⟨_, rfl⟩

private theorem survives_executeReplayLoop {out : ReplayOutcomes} (markers : List (String × WalRecord))
    (inTime : Nat) :
    Steps.Survives (WalStore.Covers p c) (executeReplayLoop out inTime markers)
      (fun _ => WalStore.Covers p c) (fun _ => WalStore.Covers p c) := by
  induction markers generalizing inTime with
  | nil => cases inTime <;> exact Steps.survives_pure fun _ h => h
  | cons q rest ih =>
    cases inTime with
    | zero => exact Steps.survives_pure fun _ h => h
    | succ n =>
      rw [executeReplayLoop]
      refine Steps.Survives.bind (R := fun _ => WalStore.Covers p c) ?_ fun _ => ih n
      apply Steps.survives_of_silent
      intro s hs
      obtain ⟨v, hcourse⟩ := course_asyncReplaySinglePendingMarker hs.walLmdb out q.1
      exact ⟨v, s, hcourse, hs⟩

theorem survives_boundedStartupReplay (r : StartupReplay) :
    Steps.Survives (WalStore.Covers p c) r.method (fun _ => WalStore.Covers p c)
      (fun _ => WalStore.Covers p c) := by
  rw [StartupReplay.method, boundedStartupReplay]
  apply Steps.Survives.bind (R := fun _ => WalStore.Covers p c)
  · exact Steps.survives_read_bind fun _ => Steps.survives_pure fun _ h => h
  intro markers
  apply Steps.Survives.bind (R := fun _ => WalStore.Covers p c)
  · rw [walScanPrewritesWithoutCheckpoint]
    apply (survives_ensureWalManager fun _ hs hcan _ hm => hs.unopened hcan hm).bind
    intro v
    match v with
    | .error _ => exact Steps.survives_pure fun _ h => h
    | .ok false => exact Steps.survives_pure fun _ h => h
    | .ok true => exact Steps.survives_read_bind fun _ => Steps.survives_pure fun _ h => h
  intro v
  match v with
  | .error _ => exact Steps.survives_pure fun _ h => h
  | .ok prewrites =>
    apply (survives_recoverOrphanedPrewritesBatch prewrites r.inTime).bind
    intro _
    split
    · exact Steps.survives_pure fun _ h => h
    · exact (survives_executeReplayLoop _ _).bind fun _ => Steps.survives_pure fun _ h => h

private theorem survives_walMarkPending {query sourceType : String} {confidence : ℚ} :
    Steps.Survives (WalStore.Ready p c id) (walMarkPending out id query sourceType confidence)
      (fun _ => WalStore.Ready p c id) (fun _ => WalStore.Ready p c id) := by
  apply Steps.Survives.bind (R := fun _ => WalStore.Ready p c id)
  · apply Steps.survives_of_silent
    intro s hs
    refine ⟨false, s, ?_, hs⟩
    rw [walWritePendingSyncMarker, Steps.course_read_bind, hs.1.walLmdb]
    rfl
  · exact fun _ => survives_walClearPrewrite.bind fun _ => Steps.survives_pure fun _ h => h

private theorem survives_activationRecordFinding (out : Outcomes) (query sourceType : String)
    (confidence : ℚ) (hid : ¬ p id) :
    Steps.Survives (WalStore.Covers p c) (activationRecordFinding out id query sourceType confidence)
      (fun _ => WalStore.Covers p c) (fun _ => WalStore.Covers p c) := by
  have hready : Steps.Survives (WalStore.Ready p c id)
      (activationRecordFinding out id query sourceType confidence) (fun _ => WalStore.Ready p c id)
      (fun _ => WalStore.Ready p c id) := by
    rw [activationRecordFinding]
    apply (survives_walWrite (.inr hid)).bind
    intro v
    cases v with
    | error _ => exact Steps.survives_pure fun _ h => h
    | ok b =>
      cases b with
      | false => exact Steps.survives_pure fun _ h => h
      | true =>
        apply (survives_walWrite (.inr hid)).bind
        intro _
        apply Steps.Survives.bind (R := fun _ => WalStore.Ready p c id)
        · apply survives_syncInsertFinding.imp
          · exact fun _ h => h.1
          · exact fun _ _ h => ⟨h.1, fun hc => absurd hc hid⟩
          · exact fun _ _ h => ⟨h, fun hc => absurd hc hid⟩
        · intro v
          cases v with
          | inserted => exact survives_walCommit.bind fun _ => Steps.survives_pure fun _ h => h
          | refused => exact survives_walMarkPending.bind fun _ => Steps.survives_pure fun _ h => h
          | raised message => exact survives_walMarkPending.bind fun _ => Steps.survives_pure fun _ h => h
  exact hready.imp (fun _ h => ⟨h, fun hc => absurd hc hid⟩) (fun _ _ h => h.1) fun _ _ h => h.1

end Keep

/-! ### The finding that is recorded -/

/-- The row is inserted, and not after the crash. -/
def Inserts (out : Outcomes) (id : String) (crash : Option WalOp) : Prop :=
  out.insert id = .inserted ∧ crash ≠ some (.put .prewrite id) ∧ crash ≠ some (.insert id)

/-- There is a prewrite record, from before or put before the crash. -/
def Prewrites (s : WalStore) (out : Outcomes) (id : String) (crash : Option WalOp) : Prop :=
  (s.unified.get .prewrite id).isSome = true ∨
    out.lmdb (.put .prewrite id) = true ∧ crash ≠ some (.put .prewrite id)

/-- The prewrite record is deleted after a failed insert, and not after the crash. -/
def Clears (out : Outcomes) (id : String) (crash : Option WalOp) : Prop :=
  out.lmdb (.delete .prewrite id) = true ∧ crash ≠ some (.put .prewrite id) ∧
    crash ≠ some (.insert id) ∧ crash ≠ some (.delete .prewrite id)

/-- A record call does not reach the log, or its finding has its row, or keeps a prewrite record that the
replay finds. -/
def StoreEvent.Covers (s : WalStore) : StoreEvent → Prop
  | .record out id _ _ _ crash =>
    s.logs out id = false ∨ crash = some (.put .finding id) ∨
      id ≠ "" ∧ (s.HasRow id ∨ Inserts out id crash ∨
        Prewrites s out id crash ∧ ¬ Clears out id crash ∧ UnifiedLMDBStore.checkpointId id = id)
  | _ => True

section Own

variable {s : WalStore} {out : Outcomes} {id query sourceType : String} {confidence : ℚ}
  {crash : Option WalOp}

private theorem covered_attempted {row : Prop} (h : Covered s.unified row id) (hs : s.OnUnified)
    (hcan : s.canOpen = true) (hid : id ≠ "")
    (hcover : row ∨ Prewrites s out id crash ∧ UnifiedLMDBStore.checkpointId id = id) :
    Covered (s.attempted out id query sourceType confidence) row id := by
  rw [WalStore.attempted, hs.backend hcan, hs.log hcan]
  show Covered (if out.lmdb (.put .prewrite id) = true then _ else _) _ _
  split
  · exact h.put_prewrite hid (hcover.imp_right (·.2))
  · next hput =>
    apply h.put_finding
    exact hcover.imp_right fun hc => ⟨hc.1.resolve_right fun hp => hput hp.1, hc.2⟩

private theorem covers_logged {e : WalEnv} (hs : s.Covers (· = id) False) (hcan : s.canOpen = true)
    (he : Covered e (s.HasRow id) id) : WalStore.Covers (· = id) False (s.opened.setLog e) := by
  rw [hs.setLog hcan]
  apply (hs.opened hcan).setUnified
  rintro id' rfl
  exact he

private theorem covers_cut_walMarkPending {e : WalEnv} (hs : s.Covers (· = id) False)
    (hcan : s.canOpen = true) (he : Covered e (s.HasRow id) id)
    (hclear : out.lmdb (.delete .prewrite id) = true → crash ≠ some (.delete .prewrite id) →
      s.HasRow id) :
    WalStore.Covers (· = id) False
      ((walMarkPending out id query sourceType confidence).cut (s.opened.setLog e) crash) := by
  have hcovers := covers_logged hs hcan he
  have hmarker : (walWritePendingSyncMarker out id query sourceType confidence).course
      (s.opened.setLog e) = ⟨false, s.opened.setLog e, []⟩ := by
    rw [walWritePendingSyncMarker, Steps.course_read_bind, hcovers.walLmdb]
    rfl
  rw [walMarkPending, Steps.cut_bind_of_nil hmarker,
    Steps.cut_bind_of (course_walClearPrewrite WalStore.opened_setLog_opened)]
  split
  · exact hcovers
  · next hcrash =>
    show WalStore.Covers (· = id) False (if _ then _ else _)
    split
    · next hdelete =>
      rw [WalStore.log_setLog, WalStore.setLog_setLog]
      exact covers_logged hs hcan (Covered.erase_prewrite (hclear hdelete fun hc => hcrash hc.symm))
    · exact hcovers

private theorem covers_cut_walCommit {e : WalEnv} (hs : s.Covers (· = id) False)
    (hcan : s.canOpen = true) (row : FindingRow) (he : Covered e True id) :
    WalStore.Covers (· = id) False ((walCommit out id).cut
      { s.opened.setLog e with rows := (s.opened.setLog e).rows.insertIfNew id row } crash) := by
  have hrow : (s.rows.insertIfNew id row).contains id = true := Std.ExtTreeMap.contains_insertIfNew_self
  have hready : WalStore.Ready (· = id) False id
      { s.opened with
        unified := e
        rows := s.rows.insertIfNew id row } := by
    refine ⟨⟨⟨(hs.opened hcan).handle, hs.walLmdb, hs.shadow⟩, ?_, nofun⟩, fun _ => hrow⟩
    rintro id' rfl
    exact he.imp fun _ => hrow
  rw [hs.setLog hcan]
  exact (survives_walCommit.cut hready crash).1

private theorem covers_record (hs : s.Covers (· = id) False)
    (hmeets : StoreEvent.Covers s (.record out id query sourceType confidence crash)) :
    WalStore.Covers (· = id) False
      ((activationRecordFinding out id query sourceType confidence).cut s crash) := by
  rw [activationRecordFinding]
  by_cases hcan : s.canOpen = true
  · rw [walWriteFinding, Steps.cut_bind_of (course_walWrite hcan)]
    split
    · exact hs.opened hcan
    · next hfinding =>
      cases hacc : s.backend.accepts (out.lmdb (.put .finding id)) s.log with
      | false => exact hs.opened hcan
      | true =>
        have hlogs : s.logs out id = true := by
          rw [WalStore.logs, hcan, hacc]
          rfl
        obtain ⟨hid, hcover⟩ := (hmeets.resolve_left (by rw [hlogs]; exact Bool.noConfusion)).resolve_left
          fun hc => hfinding hc.symm
        have hown := hs.covered id rfl
        obtain ⟨v, hprewrite⟩ :=
          course_walWritePrewrite_attempted s out id query sourceType confidence
        show WalStore.Covers _ _ (Steps.cut (walWritePrewrite out id >>= _) _ crash)
        rw [if_pos rfl, Steps.cut_bind_of hprewrite]
        split
        · next hcrash =>
          -- The crash leaves the finding record alone.
          apply covers_logged hs hcan
          rw [hs.log hcan]
          apply hown.put_finding
          rcases hcover with hrow | hins | ⟨hpre, _, hchk⟩
          · exact .inl hrow
          · exact absurd hcrash.symm hins.2.1
          · exact .inr ⟨hpre.resolve_right fun hc => hc.2 hcrash.symm, hchk⟩
        · next hprewritten =>
          have hattempted {row : Prop} (hrow : s.HasRow id → row)
              (hc : row ∨ Prewrites s out id crash ∧ UnifiedLMDBStore.checkpointId id = id) :
              Covered (s.attempted out id query sourceType confidence) row id :=
            covered_attempted (hown.imp hrow) hs.toOnUnified hcan hid hc
          by_cases hinsert : out.insert id = .inserted
          · obtain ⟨row, hcourse⟩ := course_syncInsertFinding_of_inserted hinsert
              (s.opened.setLog (s.attempted out id query sourceType confidence)) query sourceType
              confidence
            rw [Steps.cut_bind_of hcourse]
            split
            · next hcrash =>
              apply covers_logged hs hcan (hattempted (fun h => h) ?_)
              rcases hcover with hrow | hins | ⟨hpre, _, hchk⟩
              · exact .inl hrow
              · exact absurd hcrash.symm hins.2.2
              · exact .inr ⟨hpre, hchk⟩
            · -- From here on the row is there.
              rw [Steps.cut_bind_pure]
              exact covers_cut_walCommit hs hcan row (hattempted (fun _ => trivial) (.inl trivial))
          · have hleft : s.HasRow id ∨ Prewrites s out id crash ∧ ¬ Clears out id crash ∧
                UnifiedLMDBStore.checkpointId id = id :=
              hcover.imp_right fun hc => hc.resolve_left fun hi => hinsert hi.1
            have he := hattempted (fun h => h) (hleft.imp_right fun hc => ⟨hc.1, hc.2.2⟩)
            rw [Steps.cut_bind_of (course_syncInsertFinding_of_ne hinsert _ _ _ _)]
            split
            · exact covers_logged hs hcan he
            · next hcrash =>
              have hclear : out.lmdb (.delete .prewrite id) = true →
                  crash ≠ some (.delete .prewrite id) → s.HasRow id := by
                intro hdelete hc
                apply hleft.resolve_right
                rintro ⟨_, hnot, _⟩
                exact hnot ⟨hdelete, fun h => hprewritten h.symm, fun h => hcrash h.symm, hc⟩
              cases hi : out.insert id with
              | inserted => exact absurd hi hinsert
              | refused =>
                simp only
                rw [Steps.cut_bind_pure]
                exact covers_cut_walMarkPending hs hcan he hclear
              | raised message =>
                simp only
                rw [Steps.cut_bind_pure]
                exact covers_cut_walMarkPending hs hcan he hclear
  · rw [Bool.not_eq_true] at hcan
    obtain ⟨v, m, hwrite, hv, hhandle⟩ :
        ∃ v m, (walWriteFinding out id query sourceType confidence).course s = _ ∧ _ ∧ _ :=
      course_walWrite_of_not_canOpen hcan
    have hunopened := hs.unopened hcan hhandle
    rw [Steps.cut_bind_of_nil hwrite]
    cases v with
    | error _ => exact hunopened
    | ok b =>
      cases b with
      | false => exact hunopened
      | true => exact absurd rfl hv

end Own

/-! ### Runs -/

section Runs

variable {s : WalStore} {c : Prop}

private theorem covers_restart (hs : s.Covers (fun _ => True) c) (backend : Option Backend) :
    (s.restart backend).Covers (fun _ => True) (backend = some .unified) where
  handle := by
    rcases backend with _ | _ | _ <;> nofun
  walLmdb := rfl
  shadow := hs.shadow
  covered := hs.covered
  canOpen := by
    rintro rfl
    rfl

private theorem covers_crashed {crash : Option WalOp} (hs : s.Covers (fun _ => True) False) :
    (s.crashed crash).Covers (fun _ => True) False := by
  rw [WalStore.crashed]
  split
  · exact { covers_restart hs none with canOpen := nofun }
  · exact hs

private theorem covers_step (hs : s.Covers (fun _ => True) False) {e : StoreEvent} (he : e.Covers s) :
    (e.step s).Covers (fun _ => True) False := by
  cases e with
  | restart backend => exact { covers_restart hs backend with canOpen := nofun }
  | replay r crash => exact covers_crashed ((survives_boundedStartupReplay r).cut hs crash)
  | record out id query sourceType confidence crash =>
    apply covers_crashed
    have hother := (survives_activationRecordFinding (p := (· ≠ id)) (c := False) out query sourceType
      confidence fun h => h rfl).cut { hs with covered := fun id' _ => hs.covered id' trivial } crash
    have hown := covers_record (s := s) { hs with covered := fun id' _ => hs.covered id' trivial } he
    refine { hother with covered := ?_ }
    intro id' _
    by_cases hid : id' = id
    · exact hown.covered id' hid
    · exact hother.covered id' hid

private theorem course_walScanPrewritesWithoutCheckpoint (hs : s.Covers (fun _ => True) True)
    (out : Outcomes) :
    (walScanPrewritesWithoutCheckpoint out).course s =
      ⟨.ok (Backend.unified.orphans s.unified), s, []⟩ := by
  have hcan := hs.canOpen trivial
  have hhandle := WalStore.handle_of_canOpen hcan
  rw [hs.backend hcan] at hhandle
  rw [walScanPrewritesWithoutCheckpoint,
    Steps.course_bind_of_nil (course_ensureWalManager_of_canOpen hcan)]
  simp only
  rw [Steps.course_read_bind, hhandle]
  rfl

private theorem course_walScanPendingSyncMarkers (h : s.walLmdb = false) :
    walScanPendingSyncMarkers.course s = ⟨[], s, []⟩ := by
  rw [walScanPendingSyncMarkers, Steps.course_read_bind, h]
  rfl

private theorem value_method (hs : s.Covers (fun _ => True) True) (r : StartupReplay) :
    (r.method.course s).value = .ok (Backend.unified.orphans s.unified).isEmpty := by
  rw [StartupReplay.method, boundedStartupReplay,
    Steps.course_bind_of_nil (course_walScanPendingSyncMarkers hs.walLmdb),
    Steps.course_bind_of_nil (course_walScanPrewritesWithoutCheckpoint hs _)]
  simp only
  rw [Steps.value_bind, List.isEmpty_nil, Bool.true_and]
  split
  · next h =>
    rw [h]
    rfl
  · next h =>
    rw [Bool.not_eq_true] at h
    rw [h]
    rfl

private theorem final_method (hs : s.Covers (fun _ => True) True) (r : StartupReplay) :
    StartupReplay.step s r =
      ((recoverOrphanedPrewritesBatch r.out.toOutcomes r.inTime
        (Backend.unified.orphans s.unified)).course s).final := by
  rw [StartupReplay.step, StartupReplay.method, boundedStartupReplay,
    Steps.course_bind_of_nil (course_walScanPendingSyncMarkers hs.walLmdb),
    Steps.course_bind_of_nil (course_walScanPrewritesWithoutCheckpoint hs _)]
  simp only
  rw [Steps.final_bind]
  split
  · rfl
  · rw [deduplicateAndLimitMarkers_nil]
    cases r.attempts <;> rfl

private theorem covers_replays (hs : s.Covers (fun _ => True) True) (rs : List StartupReplay) :
    (rs.foldl StartupReplay.step s).Covers (fun _ => True) True :=
  foldl_invariant (I := WalStore.Covers (fun _ => True) True)
    (fun _ r h => (survives_boundedStartupReplay r _ h).1) rs hs

private theorem hasRow_of_orphans_nil (hs : s.Covers (fun _ => True) c)
    (hnone : Backend.unified.orphans s.unified = []) {id : String} (hid : s.Logged id) : s.HasRow id := by
  obtain ⟨b, hb⟩ := hid
  cases b with
  | shadow =>
    have hget : (s.shadow.get .finding id).isSome = true := hb
    rw [hs.shadow id] at hget
    cases hget
  | unified =>
    have hcovered := hs.covered id trivial
    rcases hcovered.finding hb with hrow | ⟨hpre, hchk⟩
    · exact hrow
    · obtain ⟨record, hrecord⟩ := Option.isSome_iff_exists.1 hpre
      have hmem : (id, record) ∈ s.unified.scan .prewrite := WalEnv.mem_scan.2 hrecord
      have hnot := List.filter_eq_nil_iff.1 hnone _ hmem
      simp only [hchk] at hnot
      apply hcovered.checkpoint
      rw [Option.isNone_iff_eq_none, ← ne_eq, Option.ne_none_iff_isSome] at hnot
      exact hnot

private theorem unified_walCommit {out : Outcomes} {id : String}
    (hcan : s.canOpen = true) (hback : s.backend = .unified)
    (hput : out.lmdb (.put .checkpoint id) = true) (hdelete : out.lmdb (.delete .prewrite id) = true) :
    ∃ r, ((walCommit out id).course s).final.unified =
      (s.unified.put .checkpoint id r).erase .prewrite id := by
  have hlog : s.log = s.unified := by
    rw [WalStore.log, hback]
    rfl
  have hwrite : ∃ r l, (walWriteCheckpoint out id).course s =
      ⟨.ok true, s.opened.setLog (s.unified.put .checkpoint id r), l⟩ := by
    rw [walWriteCheckpoint, course_walWrite hcan, hback, hput, hlog]
    exact ⟨_, _, rfl⟩
  obtain ⟨r, l, hwrite⟩ := hwrite
  rw [walCommit, Steps.course_bind_of hwrite, Course.final_after]
  refine ⟨r, ?_⟩
  show WalStore.unified (Steps.course (walClearPrewrite out id >>= _) _).final = _
  rw [Steps.course_bind_of (course_walClearPrewrite WalStore.opened_setLog_opened), Course.final_after,
    hdelete, if_pos rfl, WalStore.log_setLog, WalStore.setLog_setLog, WalStore.setLog,
    WalStore.backend_opened, hback]
  rfl

private theorem unified_recoverSingleOrphanedPrewrite (hs : s.Covers (fun _ => True) True)
    {out : Outcomes} (hinsert : ∀ id, out.insert id = .inserted) (hlmdb : ∀ x, out.lmdb x = true)
    (id : String) :
    let t := ((recoverSingleOrphanedPrewrite out id).course s).final
    (t = s ∧ s.unified.get .finding id = none) ∨
      ∃ r, t.unified = (s.unified.put .checkpoint id r).erase .prewrite id := by
  intro t
  have hcan := hs.canOpen trivial
  have hhandle := WalStore.handle_of_canOpen hcan
  rw [hs.backend hcan] at hhandle
  have hget : (walGetFinding out id).course s = ⟨.ok (s.unified.get .finding id), s, []⟩ := by
    rw [walGetFinding, Steps.course_bind_of_nil (course_ensureWalManager_of_canOpen hcan)]
    simp only
    rw [Steps.course_read_bind, hhandle, hlmdb]
    rfl
  have ht : t = ((recoverSingleOrphanedPrewrite out id).course s).final := rfl
  rw [recoverSingleOrphanedPrewrite, Steps.course_bind_of_nil hget] at ht
  cases hfinding : s.unified.get .finding id with
  | none =>
    rw [hfinding] at ht
    exact .inl ⟨ht, rfl⟩
  | some record =>
    rw [hfinding] at ht
    obtain ⟨row, hcourse⟩ := course_syncInsertFinding_of_inserted (hinsert id) s (record.query.getD "")
      (record.sourceType.getD "unknown") (record.confidence.getD 1)
    simp only at ht
    rw [Steps.course_bind_of hcourse] at ht
    rw [ht]
    exact .inr (unified_walCommit (s := { s with rows := s.rows.insertIfNew id row }) hcan
      (hs.backend hcan) (hlmdb _) (hlmdb _))

/-- How many prewrite records there are. -/
private def prewriteCount (s : WalStore) : Nat := (s.unified.scan .prewrite).length

private theorem prewriteCount_recoverSingleOrphanedPrewrite (hs : s.Covers (fun _ => True) True)
    {out : Outcomes} (hinsert : ∀ id, out.insert id = .inserted) (hlmdb : ∀ x, out.lmdb x = true)
    (id : String) :
    let t := ((recoverSingleOrphanedPrewrite out id).course s).final
    prewriteCount t ≤ prewriteCount s ∧
      ((s.unified.get .prewrite id).isSome = true → prewriteCount t < prewriteCount s) := by
  intro t
  rcases unified_recoverSingleOrphanedPrewrite hs hinsert hlmdb id with ⟨ht, hnone⟩ | ⟨r, ht⟩
  · rw [show t = s from ht]
    refine ⟨le_refl _, ?_⟩
    intro hpre
    have hfinding := ((hs.covered id trivial).prewrite hpre).1
    rw [hnone] at hfinding
    cases hfinding
  · have hcount : prewriteCount t =
        if (s.unified.get .prewrite id).isSome = true then prewriteCount s - 1 else prewriteCount s := by
      rw [prewriteCount, show t.unified = _ from ht, WalEnv.length_scan_erase,
        WalEnv.get_put_of_kind_ne WalKind.noConfusion, WalEnv.scan_put_of_kind_ne WalKind.noConfusion,
        prewriteCount]
    constructor
    · rw [hcount]
      split <;> omega
    · intro hpre
      rw [hcount, if_pos hpre]
      obtain ⟨record, hrecord⟩ := Option.isSome_iff_exists.1 hpre
      have hpos : 0 < prewriteCount s := List.length_pos_of_mem (WalEnv.mem_scan.2 hrecord)
      omega

private theorem prewriteCount_recoverOrphanedPrewritesBatch (hs : s.Covers (fun _ => True) True)
    {out : Outcomes} (hinsert : ∀ id, out.insert id = .inserted) (hlmdb : ∀ x, out.lmdb x = true)
    (prewrites : List (String × WalRecord)) (inTime : Nat) :
    prewriteCount ((recoverOrphanedPrewritesBatch out inTime prewrites).course s).final ≤
      prewriteCount s := by
  induction prewrites generalizing s inTime with
  | nil =>
    rw [recoverOrphanedPrewritesBatch]
    exact le_refl _
  | cons q rest ih =>
    obtain ⟨id, record⟩ := q
    rw [recoverOrphanedPrewritesBatch.eq_def]
    simp only
    split
    · exact ih hs inTime
    · cases inTime with
      | zero => exact le_refl _
      | succ n =>
        have hnext := (survives_recoverSingleOrphanedPrewrite id out s hs).1
        exact (ih hnext n).trans (prewriteCount_recoverSingleOrphanedPrewrite hs hinsert hlmdb id).1

private theorem step_of_orphans_nil (hs : s.Covers (fun _ => True) True)
    (hnone : Backend.unified.orphans s.unified = []) (r : StartupReplay) : StartupReplay.step s r = s := by
  rw [final_method hs, hnone, recoverOrphanedPrewritesBatch]
  rfl

private theorem prewriteCount_step (hs : s.Covers (fun _ => True) True) {r : StartupReplay}
    (hr : r.Succeeds) (hsome : Backend.unified.orphans s.unified ≠ []) :
    prewriteCount (StartupReplay.step s r) < prewriteCount s := by
  rw [final_method hs]
  cases horphans : Backend.unified.orphans s.unified with
  | nil => exact absurd horphans hsome
  | cons q rest =>
    obtain ⟨id, record⟩ := q
    have hmem : (id, record) ∈ Backend.unified.orphans s.unified := by
      rw [horphans]
      exact List.mem_cons_self
    have hpre : (s.unified.get .prewrite id).isSome = true := by
      rw [WalEnv.mem_scan.1 (List.mem_of_mem_filter hmem)]
      rfl
    have hid := ((hs.covered id trivial).prewrite hpre).2
    obtain ⟨n, hn⟩ := Nat.exists_eq_succ_of_ne_zero (Nat.pos_iff_ne_zero.1 hr.inTime)
    rw [hn, recoverOrphanedPrewritesBatch.eq_def]
    simp only
    rw [if_neg hid, Steps.final_bind]
    have hnext := (survives_recoverSingleOrphanedPrewrite id r.out.toOutcomes s hs).1
    exact (prewriteCount_recoverOrphanedPrewritesBatch hnext hr.insert hr.lmdb rest n).trans_lt
      ((prewriteCount_recoverSingleOrphanedPrewrite hs hr.insert hr.lmdb id).2 hpre)

private theorem orphans_replays (hs : s.Covers (fun _ => True) True) {rs : List StartupReplay}
    (hrs : ∀ r ∈ rs, r.Succeeds) (hcount : prewriteCount s ≤ rs.length) :
    Backend.unified.orphans (rs.foldl StartupReplay.step s).unified = [] := by
  induction rs generalizing s with
  | nil =>
    have hscan : s.unified.scan .prewrite = [] := List.length_eq_zero_iff.1 (Nat.le_zero.1 hcount)
    show (s.unified.scan .prewrite).filter _ = []
    rw [hscan]
    rfl
  | cons r rs ih =>
    rw [List.foldl_cons]
    have hnext := (survives_boundedStartupReplay r s hs).1
    by_cases hnone : Backend.unified.orphans s.unified = []
    · have hstill : ∀ rs : List StartupReplay, rs.foldl StartupReplay.step s = s := by
        intro rs
        induction rs with
        | nil => rfl
        | cons r rs ihrs => rw [List.foldl_cons, step_of_orphans_nil hs hnone, ihrs]
      rw [step_of_orphans_nil hs hnone, hstill]
      exact hnone
    · apply ih hnext fun r' hr' => hrs r' (List.mem_cons_of_mem _ hr')
      have hlt : prewriteCount (r.method.course s).final < prewriteCount s :=
        prewriteCount_step hs (hrs r List.mem_cons_self) hnone
      rw [List.length_cons] at hcount
      omega

end Runs

/-- Every run is recovered whose record calls do not leave a finding between the log and DuckDB. -/
theorem recovers_of_covers (es : List StoreEvent)
    (h : StepsMeet StoreEvent.step (fun s e => e.Covers s) {} es) :
    (es.foldl StoreEvent.step {}).Recovers := by
  have hempty : WalStore.Covers (fun _ => True) False {} := by
    refine ⟨⟨nofun, rfl, fun _ => WalEnv.get_empty⟩, ?_, nofun⟩
    intro id _
    constructor
    · rw [WalEnv.get_empty]
      nofun
    · rw [WalEnv.get_empty]
      nofun
    · rw [WalEnv.get_empty]
      nofun
  have hs : (es.foldl StoreEvent.step {}).Covers (fun _ => True) False :=
    h.invariant (fun _ _ hs he => covers_step hs he) hempty
  have ht : ((es.foldl StoreEvent.step {}).restart (some .unified)).Covers (fun _ => True) True := by
    exact { covers_restart hs (some .unified) with canOpen := fun _ => rfl }
  constructor
  · intro rs r hr id hid
    have hreplays := covers_replays ht rs
    rw [value_method hreplays, Except.ok.injEq, List.isEmpty_iff] at hr
    exact hasRow_of_orphans_nil hreplays hr hid
  · intro rs r hrs hcount
    rw [value_method (covers_replays ht rs), orphans_replays ht hrs hcount]
    rfl

/-- A finding that is recorded twice, with a crash before the second insert. -/
theorem recovers_recorded_again :
    WalStore.Recovers (([.restart (some .unified), .record {} "a" "q" "web" 1 none,
      .record {} "a" "q" "web" 1 (some (.insert "a"))] : List StoreEvent).foldl StoreEvent.step {}) := by
  apply recovers_of_covers
  refine ⟨trivial, .inr (.inr ⟨?_, .inr (.inl ⟨rfl, nofun, nofun⟩)⟩), .inr (.inr ⟨?_, .inl ?_⟩), trivial⟩
  · decide
  · decide
  · rfl

/-- A crash right after the finding record is put, and an insert that fails. -/
theorem not_recovers_unmarked :
    ¬ WalStore.Recovers (([.restart (some .unified),
        .record {} "a" "q" "web" 1 (some (.put .prewrite "a"))] : List StoreEvent).foldl
          StoreEvent.step {}) ∧
      ¬ WalStore.Recovers (([.restart (some .unified),
        .record { insert := fun _ => .raised "" } "a" "q" "web" 1 none] : List StoreEvent).foldl
          StoreEvent.step {}) := by
  constructor
  · intro h
    have hrow := h.rows [] {} rfl "a" ⟨.unified, rfl⟩
    revert hrow
    decide
  · intro h
    have hrow := h.rows [] {} rfl "a" ⟨.unified, rfl⟩
    revert hrow
    decide

end Hledac.Knowledge
