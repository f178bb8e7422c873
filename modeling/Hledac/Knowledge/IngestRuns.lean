import Hledac.Knowledge.IngestSteps
import Hledac.Knowledge.QualityGateBatch

/-!
# Runs of the ingest calls

`async_ingest_finding` and `async_ingest_findings_batch` over one store with its gate;
`knowledge/duckdb_store.py:9635-9664, 10006-10206`. The chunks of a batch are assessed by tasks on a
thread pool: they take turns finding by finding, as a schedule says. What recording a finding comes
to is told with the call.
-/

namespace Hledac.Knowledge

open Hledac.Lib Hledac.Utils
open Raising

variable {cap : Nat}

/-! ### The tasks of the gate -/

/-- A task that assesses a chunk: the rows left with what it has come to, or its outcome. -/
inductive GateTask where
  | running (rows : List (CanonicalFinding × String × ℚ × String))
      (acc : List FindingQualityDecision × List (String × String))
  | done (outcome : Except StoreError (List FindingQualityDecision))

namespace GateTask

/-- The task of a chunk before its first finding. -/
def start (q : QualityFunctions) (chunk : List CanonicalFinding) : GateTask :=
  match QualityGate.preprocessFindingsBatch q chunk with
  | .ok rows => running (chunk.zip rows) ([], [])
  | .error e => done (.error e)

/-- One turn: the next finding or, after the last one, the write of what is queued. -/
def turn (s : GateStore cap) : GateTask → GateTask × GateStore cap
  | running [] acc =>
    match exec (QualityGate.flushDedupBatch acc.2) s with
    | (.ok _, t) => (done (.ok acc.1), t)
    | (.error e, t) => (done (.error e), t)
  | running (row :: rows) acc =>
    match exec (QualityGate.assessRow acc row) s with
    | (.ok acc, t) => (running rows acc, t)
    | (.error e, t) => (done (.error e), t)
  | done outcome => (done outcome, s)

/-- The task has raised. -/
def failed : GateTask → Bool
  | done (.error _) => true
  | _ => false

/-- The decisions of a task that has returned. -/
def decisions : GateTask → List FindingQualityDecision
  | done (.ok ds) => ds
  | _ => []

/-- What the task comes to. One that is left running when another raises is never asked. -/
def outcome : GateTask → Except StoreError (List FindingQualityDecision)
  | done o => o
  | running _ _ => .ok []

/-- The task has returned. -/
def returned : GateTask → Bool
  | done (.ok _) => true
  | _ => false

theorem turn_iterate (q : QualityFunctions) (chunk : List CanonicalFinding) (s : GateStore cap) :
    (fun p => p.1.turn p.2)^[chunk.length + 1] (start q chunk, s) =
      let r := exec (QualityGate.assessFindingQualityBatch q chunk) s
      (done r.1, r.2) := by
  have hdone : ∀ n o (t : GateStore cap),
      (fun p : GateTask × GateStore cap => p.1.turn p.2)^[n] (done o, t) = (done o, t) := by
    intro n o t
    exact Function.iterate_fixed rfl n
  have hrows : ∀ (rows : List (CanonicalFinding × String × ℚ × String)) acc (t : GateStore cap) n,
      rows.length ≤ n →
        (fun p => p.1.turn p.2)^[n + 1] (running rows acc, t) =
          let r := exec (do
            let r ← rows.foldlM QualityGate.assessRow acc
            QualityGate.flushDedupBatch r.2
            return r.1) t
          (done r.1, r.2) := by
    intro rows
    induction rows with
    | nil =>
      intro acc t n _
      rw [Function.iterate_succ_apply, turn, List.foldlM_nil, pure_bind, exec_bind]
      rcases exec (QualityGate.flushDedupBatch acc.2) t with ⟨e | _, u⟩ <;> exact hdone n _ u
    | cons row rows ih =>
      intro acc t n hn
      rw [List.length_cons] at hn
      obtain ⟨n, rfl⟩ : ∃ k, n = k + 1 := ⟨n - 1, by omega⟩
      rw [Function.iterate_succ_apply, turn, List.foldlM_cons, bind_assoc, exec_bind]
      rcases exec (QualityGate.assessRow acc row) t with ⟨e | acc', u⟩
      · exact hdone (n + 1) _ u
      · exact ih acc' u n (by omega)
  rw [start, QualityGate.assessFindingQualityBatch]
  cases QualityGate.preprocessFindingsBatch q chunk with
  | error e => exact hdone _ _ s
  | ok rows =>
    apply hrows
    rw [List.length_zip]
    exact Nat.min_le_left _ _

end GateTask

/-- The tasks with the store they share. -/
abbrev GatePhase (cap : Nat) := List GateTask × GateStore cap

namespace GatePhase

/-- Task number `k` takes a turn. -/
def take (p : GatePhase cap) (k : Nat) : GatePhase cap :=
  match p.1[k]? with
  | some task =>
    let r := task.turn p.2
    (p.1.set k r.1, r.2)
  | none => p

/-- The tasks before their first turns. -/
def start (q : QualityFunctions) (chunks : List (List CanonicalFinding)) (s : GateStore cap) :
    GatePhase cap :=
  (chunks.map (GateTask.start q), s)

/-- Turns enough for every task to end. -/
def allTurns (chunks : List (List CanonicalFinding)) : List Nat :=
  chunks.zipIdx.flatMap fun p => List.replicate (p.1.length + 1) p.2

/-- The tasks take the turns of the schedule and, unless one has raised, those they still need. -/
def run (q : QualityFunctions) (chunks : List (List CanonicalFinding)) (schedule : List Nat)
    (s : GateStore cap) : GatePhase cap :=
  let p := schedule.foldl take (start q chunks s)
  if p.1.any GateTask.failed then p else (allTurns chunks).foldl take p

end GatePhase

/-! ### The tasks come to an end -/

/-- How many turns a task still needs. -/
def GateTask.turnsLeft : GateTask → Nat
  | running rows _ => rows.length + 1
  | done _ => 0

theorem GateTask.turnsLeft_turn (task : GateTask) (s : GateStore cap) :
    (task.turn s).1.turnsLeft ≤ task.turnsLeft - 1 := by
  cases task with
  | done o => exact Nat.le_refl 0
  | running rows acc =>
    cases rows with
    | nil =>
      rw [turn]
      rcases exec (QualityGate.flushDedupBatch acc.2) s with ⟨_ | _, _⟩ <;> exact Nat.zero_le _
    | cons row rows =>
      rw [turn]
      rcases exec (QualityGate.assessRow acc row) s with ⟨_ | _, _⟩
      · exact Nat.zero_le _
      · exact Nat.le_refl _

namespace GatePhase

/-- How many turns task number `k` still needs. -/
def turnsLeft (p : GatePhase cap) (k : Nat) : Nat := (p.1[k]?.map GateTask.turnsLeft).getD 0

theorem turnsLeft_take (p : GatePhase cap) (j k : Nat) :
    (p.take j).turnsLeft k ≤ p.turnsLeft k - if j = k then 1 else 0 := by
  rw [take]
  cases hj : p.1[j]? with
  | none =>
    by_cases hjk : j = k
    · rw [turnsLeft, ← hjk, hj]
      exact Nat.zero_le _
    · rw [if_neg hjk]
      exact Nat.le_refl _
  | some task =>
    by_cases hjk : j = k
    · subst hjk
      have hlt : j < p.1.length := (List.getElem?_eq_some_iff.1 hj).1
      rw [if_pos rfl, turnsLeft, turnsLeft, hj, List.getElem?_set_self hlt]
      exact task.turnsLeft_turn p.2
    · rw [if_neg hjk, turnsLeft, turnsLeft, List.getElem?_set_ne hjk]
      exact Nat.le_refl _

theorem turnsLeft_foldl_take (js : List Nat) (p : GatePhase cap) (k : Nat) :
    (js.foldl take p).turnsLeft k ≤ p.turnsLeft k - js.count k := by
  induction js generalizing p with
  | nil => exact Nat.le_refl _
  | cons j js ih =>
    have hstep := turnsLeft_take p j k
    have hrest := ih (p.take j)
    rw [List.foldl_cons, List.count_cons]
    by_cases hjk : j = k
    · rw [if_pos hjk] at hstep
      rw [if_pos (by simpa using hjk)]
      omega
    · rw [if_neg hjk] at hstep
      rw [if_neg (by simpa using hjk)]
      omega

theorem lt_count_allTurns {chunks : List (List CanonicalFinding)} {k : Nat}
    {chunk : List CanonicalFinding} (h : chunks[k]? = some chunk) :
    chunk.length < (allTurns chunks).count k := by
  have hmem : List.replicate (chunk.length + 1) k ∈
      chunks.zipIdx.map fun p => List.replicate (p.1.length + 1) p.2 :=
    List.mem_map.2 ⟨(chunk, k), List.mem_zipIdx_iff_getElem?.2 h, rfl⟩
  have hsub : (List.replicate (chunk.length + 1) k).Sublist (allTurns chunks) := by
    rw [allTurns, List.flatMap_def]
    exact List.sublist_flatten_of_mem hmem
  calc chunk.length < (List.replicate (chunk.length + 1) k).count k := by
        rw [List.count_replicate_self]
        omega
    _ ≤ _ := hsub.count_le k

theorem turnsLeft_run (q : QualityFunctions) (chunks : List (List CanonicalFinding))
    (schedule : List Nat) (s : GateStore cap)
    (h : (schedule.foldl take (start q chunks s)).1.any GateTask.failed = false) (k : Nat) :
    (run q chunks schedule s).turnsLeft k = 0 := by
  rw [run, h]
  have hstart : (start q chunks s).turnsLeft k ≤ (allTurns chunks).count k := by
    rw [turnsLeft, start, List.getElem?_map]
    cases hk : chunks[k]? with
    | none => exact Nat.zero_le _
    | some chunk =>
      have hlt := lt_count_allTurns hk
      have hle : (GateTask.start q chunk).turnsLeft ≤ chunk.length + 1 := by
        rw [GateTask.start]
        cases QualityGate.preprocessFindingsBatch q chunk with
        | error e => exact Nat.zero_le _
        | ok rows =>
          rw [GateTask.turnsLeft, List.length_zip]
          omega
      exact hle.trans hlt
  have hschedule := turnsLeft_foldl_take schedule (start q chunks s) k
  have hall := turnsLeft_foldl_take (allTurns chunks) (schedule.foldl take (start q chunks s)) k
  simp only [Bool.false_eq_true, if_false]
  omega

end GatePhase

/-! ### The calls -/

/-- The store with its gate. -/
structure IngestStore (cap : Nat) where
  gate : GateStore cap
  temporalAnonymizer : Bool
  graphAttachment : Bool
  writeOpCounter : Option Nat

namespace IngestStore

/-- The attributes that the method of `DuckDBShadowStore` works on. -/
def shadow (s : IngestStore cap) : DuckDBShadowStore where
  temporalAnonymizer := s.temporalAnonymizer
  graphAttachment := s.graphAttachment
  writeOpCounter := s.writeOpCounter
  qualityState := s.gate.qualityState

/-- The store once the method has left these attributes. -/
def withShadow (s : IngestStore cap) (t : DuckDBShadowStore) : IngestStore cap where
  gate := { s.gate with qualityState := t.qualityState }
  temporalAnonymizer := t.temporalAnonymizer
  graphAttachment := t.graphAttachment
  writeOpCounter := t.writeOpCounter

end IngestStore

/-- `async_ingest_finding`; lines 9635-9664. `async_record_canonical_finding` never
raises: `record` is what it returns. -/
def ingestFinding (q : QualityFunctions) (record : ActivationResult) (f : CanonicalFinding) :
    GateM cap IngestEntry := do
  let decision ← tryCatch (some <$> QualityGate.assessFindingQuality q f) fun _ => pure none
  match decision with
  | none =>
    QualityGate.count fun s => { s with qualityFailOpenCount := s.qualityFailOpenCount + 1 }
    return .activation record
  | some decision =>
    if !decision.accepted then
      QualityGate.count fun s => s.recordRejection f decision
      return .decision decision
    if record.lmdbSuccess then
      QualityGate.count fun s => { s with acceptedCount := s.acceptedCount + 1 }
    return .activation record

/-- The chunks that the gate is given: none where the method returns or raises before. -/
def gateChunks (cfg : IngestSettings) (out : Surroundings) (findings : List CanonicalFinding) :
    List (List CanonicalFinding) :=
  if findings = [] then []
  else match out.ensureConnected, chunkBoundaries cfg.chunkSize findings with
    | .ok _, .ok boundaries => boundaries.map (·.findings)
    | _, _ => []

/-- The surroundings in which the tasks of the gate come to what `tasks` says. -/
def Surroundings.withTasks (out : Surroundings) (tasks : List GateTask) : Surroundings :=
  { out with
    assessFindingQualityBatch := fun k _ => (tasks[k]?.map GateTask.outcome).getD (.ok [])
    assessed := fun k => tasks[k]?.any GateTask.returned }

/-- `async_ingest_findings_batch`; lines 10006-10206. Nothing but the gate reads the caches,
and the gate has ended when the rest of the method reads the quality state. -/
def ingestBatch (q : QualityFunctions) (cfg : IngestSettings) (out : Surroundings)
    (schedule : List Nat) (findings : List CanonicalFinding) (s : IngestStore cap) :
    Except StoreError (List IngestEntry) × IngestStore cap :=
  let p := GatePhase.run q (gateChunks cfg out findings) schedule s.gate
  let s := { s with gate := p.2 }
  let r := exec (ingestFindingsBatch cfg (out.withTasks p.1) findings) s.shadow
  (r.1, s.withShadow r.2)

/-! ### What reaches the writers -/

/-- The part of `ingestFindingsBatch` before the final flush. -/
def assembleBatch (cfg : IngestSettings) (out : Surroundings) (findings : List CanonicalFinding) :
    StoreM Assembly := do
  Raising.ofExcept out.ensureConnected
  let boundaries ← Raising.ofExcept (chunkBoundaries cfg.chunkSize findings)
  let doZeroAttribution ← hoistZeroAttribution out
  foldZip zipTooShort (ingestChunk out doZeroAttribution)
    { results := List.replicate findings.length none
      flushCtrl := { minFlush := cfg.minFlush, maxInterval := cfg.maxFlushInterval } }
    boundaries (gatherDecisions out boundaries)

theorem ingestFindingsBatch_of_ne_nil {cfg : IngestSettings} {out : Surroundings}
    {findings : List CanonicalFinding} (h : findings ≠ []) :
    ingestFindingsBatch cfg out findings = (do
      let a ← assembleBatch cfg out findings
      let (results, accepted) ← storeAssembled out findings a
      finishBatch out results accepted) := by
  simp only [ingestFindingsBatch, assembleBatch, if_neg h, bind_assoc]

/-- What the writers report: each finding of a flush whose task returned, with its result. -/
def reported (out : Surroundings) (flushes : List FlushBatch) :
    List (CanonicalFinding × ActivationResult) :=
  let tasks := writerTasks out flushes
  let failed := tasks.any fun o => !o.isOk
  (flushes.zip tasks).zipIdx.flatMap fun p =>
    match groupResult failed out.recorded p.2 p.1.2 with
    | some (.ok results) => p.1.1.findings.zip results
    | _ => []

/-- What a batch has the writers report. -/
def batchReported (cfg : IngestSettings) (out : Surroundings) (findings : List CanonicalFinding)
    (s : DuckDBShadowStore) : List (CanonicalFinding × ActivationResult) :=
  if findings = [] then []
  else match exec (assembleBatch cfg out findings) s with
    | (.ok a, _) => reported out a.flushes
    | (.error _, _) => []

/-! ### Runs -/

/-- A call, with what lies outside it. -/
inductive IngestCall where
  | single (finding : CanonicalFinding) (record : ActivationResult)
  | batch (cfg : IngestSettings) (out : Surroundings) (schedule : List Nat)
      (findings : List CanonicalFinding)

/-- The finding is in one of the two stores. -/
def ActivationResult.durable (r : ActivationResult) : Bool :=
  r.lmdbSuccess || r.duckdbSuccess == some true

/-- The fingerprint of a finding, as the single gate computes it. -/
def fingerprint (q : QualityFunctions) (f : CanonicalFinding) : String :=
  let url := QualityGate.extractUrlFromProvenance f.provenance
  if url ≠ "" then q.computeUrlFingerprint url
  else q.computeDedupFingerprint (q.normalizeForQuality f.qualityText)

/-- The decision rejects a duplicate. -/
def FindingQualityDecision.isDuplicate (d : FindingQualityDecision) : Bool :=
  d.duplicate && !d.accepted

/-- The store along a run, with the fingerprints of the findings that were reported as stored. -/
structure IngestRun (cap : Nat) where
  store : IngestStore cap
  stored : List String := []

namespace IngestRun

/-- One call. -/
def step (q : QualityFunctions) (r : IngestRun cap) : IngestCall → IngestRun cap
  | .single f record =>
    let e := exec (ingestFinding q record f) r.store.gate
    { store := { r.store with gate := e.2 }
      stored := match e.1 with
        | .ok (.activation result) =>
          if result.durable then fingerprint q f :: r.stored else r.stored
        | _ => r.stored }
  | .batch cfg out schedule findings =>
    let p := GatePhase.run q (gateChunks cfg out findings) schedule r.store.gate
    let reports := batchReported cfg (out.withTasks p.1) findings
      { r.store with gate := p.2 }.shadow
    { store := (ingestBatch q cfg out schedule findings r.store).2
      stored := (reports.filter (·.2.durable)).map (fingerprint q ·.1) ++ r.stored }

/-- The findings that a call rejects as duplicates. -/
def duplicates (q : QualityFunctions) (r : IngestRun cap) : IngestCall → List CanonicalFinding
  | .single f record =>
    match (exec (ingestFinding q record f) r.store.gate).1 with
    | .ok (.decision d) => if d.isDuplicate then [f] else []
    | _ => []
  | .batch cfg out schedule findings =>
    let chunks := gateChunks cfg out findings
    let tasks := (GatePhase.run q chunks schedule r.store.gate).1
    (chunks.zip tasks).flatMap fun p =>
      ((p.1.zip p.2.decisions).filter fun d => d.2.isDuplicate).map (·.1)

end IngestRun

/-! ### One finding -/

section Single

open QualityGate

variable {q : QualityFunctions} {s t : GateStore cap} {f : CanonicalFinding}

/-- The guards as a batch calls them for a finding with a URL. -/
def batchInput (q : QualityFunctions) (f : CanonicalFinding) : GateInput where
  fp := ""
  entropy := 0
  urlFp := urlFingerprint q f
  finding := f
  batch := true

theorem exec_assessRow (acc : List FindingQualityDecision × List (String × String)) :
    exec (assessRow acc (urlRow q f)) s =
      match exec (runStatefulQualityGuards (batchInput q f)) s with
      | (.ok r, t) => (.ok (acc.1 ++ [r.1], acc.2 ++ r.2), t)
      | (.error e, t) => (.error e, t) := by
  rcases hx : exec (runStatefulQualityGuards (batchInput q f)) s with ⟨_ | r, t⟩
  · exact exec_bind_error hx
  · exact exec_bind_ok hx

/-- The guards as the single gate calls them. -/
def gateInput (q : QualityFunctions) (f : CanonicalFinding) : GateInput where
  fp := fingerprint q f
  entropy := if extractUrlFromProvenance f.provenance ≠ "" then 0
    else q.computeEntropy (q.normalizeForQuality f.qualityText)
  urlFp := if extractUrlFromProvenance f.provenance ≠ "" then
    q.computeUrlFingerprint (extractUrlFromProvenance f.provenance) else ""
  finding := f
  batch := false

theorem gateInput_urlFp_ne_iff :
    (gateInput q f).urlFp ≠ "" ↔ extractUrlFromProvenance f.provenance ≠ "" := by
  simp only [gateInput]
  split
  · next h => exact iff_of_true (urlFingerprint_ne h) h
  · next h => exact iff_of_false (not_not.2 rfl) h

theorem fingerprint_ne (q : QualityFunctions) (f : CanonicalFinding) : fingerprint q f ≠ "" := by
  simp only [fingerprint]
  split
  · next h => exact urlFingerprint_ne h
  · exact q.blake2b_ne _

theorem exec_assessFindingQuality :
    exec (assessFindingQuality q f) s = match exec (runStatefulQualityGuards (gateInput q f)) s with
      | (.ok r, t) => (.ok r.1, t)
      | (.error _, t) => (.ok qualityCheckError, t) := by
  have hbody : (assessFindingQuality q f : GateM cap FindingQualityDecision) = tryCatch (do
      return (← runStatefulQualityGuards (gateInput q f)).1) fun _ => pure qualityCheckError := by
    by_cases h : extractUrlFromProvenance f.provenance ≠ ""
    · have hu : q.computeUrlFingerprint (extractUrlFromProvenance f.provenance) ≠ "" :=
        urlFingerprint_ne h
      simp only [assessFindingQuality, gateInput, fingerprint, if_pos h, if_pos hu]
    · simp only [assessFindingQuality, gateInput, fingerprint, if_neg h, ne_eq, not_true_eq_false,
        if_false]
  rw [hbody, exec_tryCatch]
  rcases hx : exec (runStatefulQualityGuards (gateInput q f)) s with ⟨e | r, t⟩
  · rw [exec_bind_error hx]
    rfl
  · rw [exec_bind_ok hx]
    rfl

theorem exec_ingestFinding {d : FindingQualityDecision} (record : ActivationResult)
    (h : exec (assessFindingQuality q f) s = (.ok d, t)) :
    exec (ingestFinding q record f) s =
      if d.accepted then
        (.ok (.activation record), { t with
          qualityState := if record.lmdbSuccess then
            { t.qualityState with acceptedCount := t.qualityState.acceptedCount + 1 }
            else t.qualityState })
      else (.ok (.decision d), { t with qualityState := t.qualityState.recordRejection f d }) := by
  have hsome : exec (some <$> assessFindingQuality q f) s = (.ok (some d), t) := by
    rw [map_eq_pure_bind, exec_bind_ok h]
    rfl
  have htry : exec (tryCatch (some <$> assessFindingQuality q f) fun _ => pure none) s =
      (.ok (some d), t) := by
    rw [exec_tryCatch, hsome]
  rw [ingestFinding, exec_bind_ok htry]
  cases hd : d.accepted with
  | true =>
    simp only [hd, Bool.not_true, Bool.false_eq_true, if_false, if_true]
    cases record.lmdbSuccess <;> rfl
  | false =>
    simp only [hd, Bool.not_false, if_true, Bool.false_eq_true, if_false]
    rfl

end Single

end Hledac.Knowledge
