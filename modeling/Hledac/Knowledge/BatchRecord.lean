import Hledac.Knowledge.WalMethods

/-!
# A batch of findings, log first

`_activation_record_findings_batch` puts the finding records into `_wal_lmdb`, writes the prewrite
records, and inserts the batch into DuckDB. Its first phase builds an entry for every finding that has an
id, of a class that the module knows by another name.
-/

namespace Hledac.Knowledge

open Hledac.Lib

/-! ### The records of the batch -/

/-- The keys that the batch reads of a finding. -/
structure FindingDict where
  id : Option String := none
  query : Option String := none
  sourceType : Option String := none
  confidence : Option ℚ := none
  deriving DecidableEq

namespace FindingDict

/-- The id, unless it is missing or empty. -/
def fid (f : FindingDict) : Option String := f.id.filter (· ≠ "")

/-- The value of the finding record. -/
def value (out : Outcomes) (f : FindingDict) : WalRecord :=
  out.findingRecord (f.query.getD "") (f.sourceType.getD "unknown") (f.confidence.getD 1)

/-- The row of the finding. -/
def row (f : FindingDict) : FindingRow where
  query := f.query.getD ""
  sourceType := f.sourceType.getD "unknown"
  confidence := f.confidence.getD 1

end FindingDict

/-- `WrittenEntry`; `knowledge/duckdb_store.py:2724-2730`. -/
structure WrittenEntry where
  findingId : String
  lmdbKey : String
  value : WalRecord

/-- What the first phase says of the log: a truth value, or one for each item. -/
inductive LmdbOk where
  | flag (b : Bool)
  | each (results : List Bool)
  deriving DecidableEq, Repr

/-- `bool(lmdb_ok)`: a list is true unless it is empty. -/
def LmdbOk.truthy : LmdbOk → Bool
  | flag b => b
  | each results => !results.isEmpty

/-- The dictionary that the batch returns. -/
structure BatchReport where
  lmdbSuccess : LmdbOk := .flag false
  duckdbSuccess : Bool := false
  count : Nat := 0
  failedIds : List String := []
  orphanedKeys : List String := []
  deriving DecidableEq, Repr

/-- What the report says of one finding; `async_record_activation_batch`, lines 7400-7412. -/
def BatchReport.recorded (r : BatchReport) (f : FindingDict) : Bool :=
  r.lmdbSuccess.truthy && !r.failedIds.contains (f.id.getD "")

/-- How the bulk insert comes out: the number it returns or what it raises, and whose rows go in. -/
structure BulkOutcome where
  inserted : Except String Nat
  takes : String → Bool

/-! ### The phases -/

/-- `_ensure_wal_lmdb`; lines 9666-9681. -/
def ensureWalLmdb (out : Outcomes) : WalM (Except StoreError Bool) := do
  let s ← Steps.read
  if s.walLmdb then return .ok true
  else if s.walRoot then
    match LMDBKVStore.init out.opens with
    | .error e => return .error e
    | .ok () =>
      Steps.note fun s => { s with walLmdb := true }
      return .ok true
  else return .ok false

/-- `_WrittenEntry(...)`. The module defines `WrittenEntry` and no such name; line 9712. -/
def writtenEntry (_findingId _lmdbKey : String) (_value : WalRecord) : Except StoreError WrittenEntry :=
  .error (.nameError "_WrittenEntry")

/-- The entries of the findings that have an id; lines 9696-9713. -/
def writtenEntries (out : Outcomes) : List FindingDict → Except StoreError (List WrittenEntry)
  | [] => .ok []
  | f :: findings =>
    match f.fid with
    | none => writtenEntries out findings
    | some fid => do
      let entry ← writtenEntry fid (WalKind.finding.head ++ fid) (f.value out)
      return entry :: (← writtenEntries out findings)

/-- `_wal_lmdb_write_entries`; lines 9683-9718. -/
def walLmdbWriteEntries (out : Outcomes) (findings : List FindingDict) :
    WalM (Except StoreError (LmdbOk × List WrittenEntry)) := do
  match ← ensureWalLmdb out with
  | .error e => return .error e
  | .ok false => return .ok (.flag false, [])
  | .ok true =>
    match writtenEntries out findings with
    | .error e => return .error e
    | .ok entries =>
      if entries = [] then return .ok (.flag true, entries)
      else
        let results ← walLmdbOp .putMany
          (LMDBKVStore.putMany out.chunk (entries.map fun e => (e.findingId, e.value)))
        return .ok (.each results, entries)

/-- `_wal_prewrite_all`; lines 9720-9730. -/
def walPrewriteAll (out : Outcomes) (ids : List String) : WalM PUnit :=
  ids.forM fun id => do
    let _ ← walWritePrewrite out id

/-- `_wal_checkpoint_all`; lines 9732-9743. -/
def walCheckpointAll (out : Outcomes) (ids : List String) : WalM PUnit :=
  ids.forM (walCommit out)

/-- `_wal_clear_prewrites_all`; lines 9745-9755. -/
def walClearPrewritesAll (out : Outcomes) (ids : List String) : WalM PUnit :=
  ids.forM fun id => do
    let _ ← walClearPrewrite out id

/-- `_build_duckdb_findings`; lines 9757-9768. -/
def buildDuckdbFindings (findings : List FindingDict) : List (String × FindingRow) :=
  findings.filterMap fun f => f.fid.map fun fid => (fid, f.row)

/-- `_sync_insert_findings_bulk`; lines 4361-4367. An id that has a row keeps it. -/
def syncInsertFindingsBulk (bulk : BulkOutcome) (rows : List (String × FindingRow)) :
    WalM (Except String Nat) :=
  Steps.op (.insertMany (rows.map (·.1))) fun s =>
    (bulk.inserted, { s with
      rows := (rows.filter fun r => bulk.takes r.1).foldl (fun m r => m.insertIfNew r.1 r.2) s.rows })

/-- `_cleanup_orphaned_lmdb_entries`; lines 12742-12773. The count is only logged. -/
def cleanupOrphanedLmdbEntries (out : Outcomes) (ids : List String) : WalM PUnit := do
  let s ← Steps.read
  if s.walLmdb then
    ids.forM fun id => do
      let _ ← walLmdbOp (.delete .finding id)
        (LMDBKVStore.delete (out.lmdb (.delete .finding id)) .finding id)

/-- The bulk insert and what follows it: `inserted` and `duckdb_success`;
lines 12709-12732. -/
def insertBatch (out : Outcomes) (bulk : BulkOutcome) (ids : List String)
    (rows : List (String × FindingRow)) : WalM (Nat × Bool) := do
  if rows = [] then return (0, false)
  else
    match ← syncInsertFindingsBulk bulk rows with
    | .ok inserted =>
      let success : Bool := rows.length ≤ inserted
      if success && decide (0 < inserted) then walCheckpointAll out ids
      return (inserted, success)
    | .error _ =>
      cleanupOrphanedLmdbEntries out ids
      walClearPrewritesAll out ids
      return (0, false)

/-- `_activation_record_findings_batch`; lines 12656-12740. -/
def activationRecordFindingsBatch (out : Outcomes) (bulk : BulkOutcome) (findings : List FindingDict) :
    WalM (Except StoreError BatchReport) := do
  if findings = [] then return .ok {}
  else
    match ← walLmdbWriteEntries out findings with
    | .error e => return .error e
    | .ok (lmdbOk, entries) =>
      if lmdbOk.truthy = false then return .ok {}
      else if entries = [] then return .ok {}
      else
        let ids := entries.map (·.findingId)
        walPrewriteAll out ids
        let (inserted, success) ← insertBatch out bulk ids (buildDuckdbFindings findings)
        return .ok
          { lmdbSuccess := lmdbOk
            duckdbSuccess := success
            count := inserted
            orphanedKeys := entries.map (·.lmdbKey) }

/-! ### Log first -/

/-- The log of the batch, which is there where it is open or has a directory. -/
def WalStore.batchLog (s : WalStore) : Option WalEnv := if s.walLmdb || s.walRoot then some s.shadow else none

/-- The finding has a record in the log of the batch. -/
def WalStore.InLog (s : WalStore) (id : String) : Prop :=
  ∃ e ∈ s.batchLog, (e.get .finding id).isSome = true

/-- Whether the batch has failed. -/
def batchFails : Except StoreError BatchReport → Bool
  | .error _ => true
  | .ok r => !(r.lmdbSuccess.truthy && r.duckdbSuccess)

/-- The call returns a report that names exactly the findings in the log, no row is inserted before its
record is in the log, and a failure leaves the records that there were. -/
structure RecordsLogFirst (s : WalStore) (out : Outcomes) (bulk : BulkOutcome)
    (findings : List FindingDict) : Prop where
  reports : ∃ r, ((activationRecordFindingsBatch out bulk findings).course s).value = .ok r ∧
    ∀ f ∈ findings, (r.recorded f = true ↔
      ∃ id ∈ f.fid, ((activationRecordFindingsBatch out bulk findings).course s).final.InLog id)
  logFirst : ∀ c ∈ ((activationRecordFindingsBatch out bulk findings).course s).passed,
    ∀ ids, c.1 = .insertMany ids → ∀ id ∈ ids, c.2.InLog id
  keeps : batchFails ((activationRecordFindingsBatch out bulk findings).course s).value = true →
    ∀ k id r, s.shadow.get k id = some r →
      ((activationRecordFindingsBatch out bulk findings).course s).final.shadow.get k id = some r

/-- There is nothing to record: no findings, or no log, or the log is open and no finding has an id. -/
def NothingToRecord (s : WalStore) (findings : List FindingDict) : Prop :=
  findings = [] ∨ s.batchLog = none ∨ s.walLmdb = true ∧ ∀ f ∈ findings, f.fid = none

/-! ### When there is something to record -/

section Spec

variable {s : WalStore} {out : Outcomes} {bulk : BulkOutcome} {findings : List FindingDict}

theorem writtenEntries_eq (out : Outcomes) (findings : List FindingDict) :
    writtenEntries out findings =
      if ∀ f ∈ findings, f.fid = none then .ok [] else .error (.nameError "_WrittenEntry") := by
  induction findings with
  | nil => rfl
  | cons f findings ih =>
    rw [writtenEntries]
    cases hf : f.fid with
    | none =>
      show writtenEntries out findings = _
      rw [ih]
      simp only [List.forall_mem_cons, hf, true_and]
    | some fid =>
      rw [if_neg]
      · rfl
      · intro h
        rw [h f List.mem_cons_self] at hf
        cases hf

theorem course_ensureWalLmdb (out : Outcomes) (s : WalStore) :
    ∃ v, (ensureWalLmdb out).course s = ⟨v, s, []⟩ ∧
      (v = .ok true ↔ s.walLmdb = true) ∧ (v = .ok false ↔ s.batchLog = none) := by
  rw [ensureWalLmdb, Steps.course_read_bind, WalStore.batchLog]
  cases hopen : s.walLmdb with
  | true => exact ⟨.ok true, rfl, by simp, by simp⟩
  | false =>
    cases hroot : s.walRoot with
    | false => exact ⟨.ok false, rfl, by simp, by simp⟩
    | true => cases out.opens <;> exact ⟨_, rfl, by simp, by simp⟩

theorem course_walLmdbWriteEntries (out : Outcomes) (findings : List FindingDict) (s : WalStore) :
    ∃ v, (walLmdbWriteEntries out findings).course s = ⟨v, s, []⟩ ∧
      (∀ r, v = .ok r → r.2 = []) ∧
      ((∃ r, v = .ok r) ↔ s.batchLog = none ∨ s.walLmdb = true ∧ ∀ f ∈ findings, f.fid = none) := by
  obtain ⟨w, hensure, hopen, hnone⟩ := course_ensureWalLmdb out s
  rw [walLmdbWriteEntries, Steps.course_bind_of_nil hensure, ← hopen, ← hnone]
  match w with
  | .error e => exact ⟨.error e, rfl, nofun, by simp⟩
  | .ok false => exact ⟨.ok (.flag false, []), rfl, by simp, by simp⟩
  | .ok true =>
    simp only [writtenEntries_eq]
    by_cases hids : ∀ f ∈ findings, f.fid = none
    · rw [if_pos hids]
      exact ⟨.ok (.flag true, []), rfl, by simp, by simpa using hids⟩
    · rw [if_neg hids]
      exact ⟨.error (.nameError "_WrittenEntry"), rfl, nofun, by simpa using hids⟩

theorem course_activationRecordFindingsBatch (out : Outcomes) (bulk : BulkOutcome)
    (findings : List FindingDict) (s : WalStore) :
    ∃ v, (activationRecordFindingsBatch out bulk findings).course s = ⟨v, s, []⟩ ∧
      (∀ r, v = .ok r → r = {}) ∧ ((∃ r, v = .ok r) ↔ NothingToRecord s findings) := by
  rw [activationRecordFindingsBatch, NothingToRecord]
  by_cases hempty : findings = []
  · rw [if_pos hempty]
    refine ⟨.ok {}, rfl, ?_, ?_⟩
    · intro r hr
      cases hr
      rfl
    · exact iff_of_true ⟨_, rfl⟩ (.inl hempty)
  · obtain ⟨w, hwrite, hentries, hok⟩ := course_walLmdbWriteEntries out findings s
    rw [if_neg hempty, Steps.course_bind_of_nil hwrite, or_iff_right hempty, ← hok]
    cases w with
    | error e => exact ⟨.error e, rfl, nofun, iff_of_false nofun nofun⟩
    | ok r =>
      obtain ⟨lmdbOk, entries⟩ := r
      obtain rfl : entries = [] := hentries _ rfl
      refine ⟨.ok {}, ?_, ?_, iff_of_true ⟨_, rfl⟩ ⟨_, rfl⟩⟩
      · cases h : lmdbOk.truthy <;> simp only [h] <;> rfl
      · intro r hr
        cases hr
        rfl

/-- The batch records its findings log first exactly where there is nothing to record. -/
theorem recordsLogFirst_iff (s : WalStore) (out : Outcomes) (bulk : BulkOutcome)
    (findings : List FindingDict) :
    RecordsLogFirst s out bulk findings ↔ NothingToRecord s findings := by
  obtain ⟨v, hcourse, hreport, hok⟩ := course_activationRecordFindingsBatch out bulk findings s
  constructor
  · intro h
    obtain ⟨r, hr, -⟩ := h.reports
    rw [hcourse] at hr
    exact hok.1 ⟨r, hr⟩
  · intro h
    obtain ⟨r, hr⟩ := hok.2 h
    have hnot : ∀ f ∈ findings, ∀ id ∈ f.fid, ¬ s.InLog id := by
      intro f hf id hid hlog
      obtain ⟨e, he, -⟩ := hlog
      rcases h with h | h | h
      · rw [h] at hf
        cases hf
      · rw [h] at he
        cases he
      · rw [h.2 f hf] at hid
        cases hid
    refine ⟨⟨r, ?_, ?_⟩, ?_, ?_⟩
    · rw [hcourse, hr]
    · intro f hf
      rw [hcourse, hreport r hr]
      exact iff_of_false nofun fun ⟨id, hid, hlog⟩ => hnot f hf id hid hlog
    · rw [hcourse]
      exact nofun
    · intro _ k id r hget
      rw [hcourse]
      exact hget

/-- One finding with an id, whether the log is open or not. -/
theorem not_recordsLogFirst_one_finding :
    ¬ RecordsLogFirst {} {} ⟨.ok 1, fun _ => true⟩ [{ id := some "f1" }] ∧
      ¬ RecordsLogFirst { walLmdb := true } {} ⟨.ok 1, fun _ => true⟩ [{ id := some "f1" }] := by
  constructor
  · intro h
    obtain ⟨r, hr, -⟩ := h.reports
    cases hr
  · intro h
    obtain ⟨r, hr, -⟩ := h.reports
    cases hr

end Spec

end Hledac.Knowledge
