import Hledac.Knowledge.WriteCoordinator

/-!
# When the coordinator answers for every finding

A batch that is not taken to the Arrow path for its size or for the environment is counted under a key that the
counters do not have, and a batch that went through is handed to a method that raises. Of the batches that fall back,
those that the log of the store refuses come out without their ids.
-/

namespace Hledac.Knowledge

open Hledac.Lib

/-! ### The log of the store -/

theorem fst_putChunks_of_ignores {accept : Nat → List (String × WalRecord) → WalEnv → Bool}
    (h : ∀ i chunk e e', accept i chunk e = accept i chunk e') (i : Nat) (chunks : List (List (String × WalRecord)))
    (e e' : WalEnv) : (putChunks accept i chunks e).1 = (putChunks accept i chunks e').1 := by
  induction chunks generalizing i e e' with
  | nil => rfl
  | cons chunk rest ih =>
    rw [putChunks, putChunks, h i chunk e e']
    exact congrArg (_ ++ ·) (ih ..)

theorem fst_putMany_unified (out : Nat → ChunkOutcome) (items : List (String × WalRecord)) (e e' : WalEnv) :
    (Backend.unified.putMany out items e).1 = (Backend.unified.putMany out items e').1 :=
  fst_putChunks_of_ignores (fun _ _ _ _ => rfl) ..

/-- Two stores that differ at most in the unified environment and in the rows. -/
structure LogAlike (s t : WalStore) : Prop where
  manager : s.manager = t.manager
  walRoot : s.walRoot = t.walRoot
  shadow : s.shadow = t.shadow

/-- Whether the log of the store takes a batch. -/
def logTakes (out : Outcomes) (items : List (String × WalRecord)) (s : WalStore) : Bool :=
  match s.handle with
  | none => items.isEmpty
  | some b => (b.putMany out.chunk items (s.env b)).1.all id

/-- Why a log that is not there cannot be made. -/
def logRefusal (out : Outcomes) (s : WalStore) : String :=
  if s.walRoot then
    match LMDBKVStore.init out.opens with
    | .error e => e.message
    | .ok () => ""
  else "no wal root"

/-- The answer of the log to a batch. -/
def logAnswer (out : Outcomes) (items : List (String × WalRecord)) (s : WalStore) : Except String Unit :=
  if s.manager = none then .error (logRefusal out s)
  else if logTakes out items s then .ok ()
  else .error "lmdb batch failed"

section Log

variable {out : Outcomes} {items : List (String × WalRecord)} {s t : WalStore}

theorem LogAlike.handle (h : LogAlike s t) : s.handle = t.handle := congrArg (·.bind WalManager.handle) h.manager

theorem LogAlike.logTakes (h : LogAlike s t) : logTakes out items s = logTakes out items t := by
  rw [Knowledge.logTakes, Knowledge.logTakes, h.handle]
  cases t.handle with
  | none => rfl
  | some b =>
    cases b with
    | shadow => exact congrArg (fun e => (Backend.shadow.putMany out.chunk items e).1.all id) h.shadow
    | unified => exact congrArg (·.all id) (fst_putMany_unified ..)

theorem LogAlike.logAnswer (h : LogAlike s t) : logAnswer out items s = logAnswer out items t := by
  rw [Knowledge.logAnswer, Knowledge.logAnswer, logRefusal, logRefusal, h.manager, h.walRoot, h.logTakes]

theorem logAnswer_eq_ok_iff (h : items ≠ []) : logAnswer out items s = .ok () ↔ logTakes out items s = true := by
  rw [logAnswer]
  by_cases hm : s.manager = none
  · have htakes : logTakes out items s = false := by
      rw [logTakes, WalStore.handle, hm]
      exact List.isEmpty_eq_false_iff.2 h
    rw [if_pos hm, htakes]
    exact iff_of_false (by simp) (by simp)
  · rw [if_neg hm]
    cases logTakes out items s <;> simp

theorem value_walPutAll : ((walPutAll out items).course s).value = logTakes out items s := by
  rw [walPutAll, Steps.course_read_bind, logTakes]
  cases s.handle <;> rfl

theorem value_walRecordBatch : ((walRecordBatch out items).course s).value = logAnswer out items s := by
  rw [walRecordBatch, logAnswer]
  cases hm : s.manager with
  | none =>
    rw [if_pos rfl, logRefusal, Steps.value_bind, ensureWalManager, Steps.course_read_bind, hm]
    by_cases hroot : s.walRoot = true
    · simp only [hroot, if_true]
      cases hopens : out.opens <;>
        simp [Steps.course_note_bind, initializeWalManager, hopens, LMDBKVStore.init]
      all_goals rfl
    · simp only [hroot]
      rfl
  | some m =>
    rw [if_neg (by simp), Steps.course_bind_of_nil (course_ensureWalManager_of_some hm), Steps.value_bind,
      value_walPutAll]
    cases logTakes out items s <;> rfl

end Log

namespace DuckDBWriteCoordinator

variable {k : Calls} {findings : List ScoredFinding} {c : DuckDBWriteCoordinator}

/-! ### The legacy path -/

/-- The items that the store puts. -/
def storeItems (k : Calls) (findings : List ScoredFinding) : List (String × WalRecord) :=
  findings.map fun f => f.walItem (f.scrubbed k.scrub)

theorem value_standalone (hfindings : findings ≠ []) (arrow : ArrowOutcome) (s : WalStore) :
    ((syncRecordCanonicalFindingsBatchArrowStandalone k.stores k.scrub arrow findings).course s).value =
      match logAnswer k.stores (storeItems k findings) s with
      | .error e => .ok (findings.map fun _ => { error := some e })
      | .ok () => arrow.map fun r => findings.map fun _ =>
          { lmdbSuccess := true
            duckdbSuccess := some r.2.isNone
            error := r.2 } := by
  rw [syncRecordCanonicalFindingsBatchArrowStandalone, if_neg hfindings, Steps.value_bind, value_walRecordBatch]
  show _ = match logAnswer k.stores (findings.map fun f => f.walItem (f.scrubbed k.scrub)) s with
    | .error e => _
    | .ok () => _
  cases logAnswer k.stores (findings.map fun f => f.walItem (f.scrubbed k.scrub)) s <;> rfl

/-- What the legacy path returns. -/
def legacyResults (k : Calls) (findings : List ScoredFinding) (s : WalStore) : List ActivationResult :=
  match k.arrowExecutor with
  | .error e => buildActivationResultsFromFindings findings e
  | .ok () =>
    match logAnswer k.stores (storeItems k findings) s, k.arrow findings with
    | .error e, _ => buildActivationResults (findings.map fun _ => { error := some e })
    | .ok (), .error e => buildActivationResultsFromFindings findings e
    | .ok (), .ok r => buildActivationResults <| findings.map fun f => {
        findingId := some f.findingId
        lmdbSuccess := true
        duckdbSuccess := some r.2.isNone
        error := r.2 }

private theorem identified_map (g : ScoredFinding → RecordResult) :
    identified findings (findings.map g) = findings.map fun f =>
      { g f with findingId := if (g f).lmdbSuccess then some f.findingId else none } := by
  rw [identified, List.zipWith_map_right, List.zipWith_self]

theorem exec_ingestBatchLegacy (hfindings : findings ≠ []) :
    ∃ d, Raising.exec (ingestBatchLegacy k findings) c = (.ok (legacyResults k findings c.duckdb), d) := by
  rw [ingestBatchLegacy, if_neg hfindings, legacyResults]
  cases k.arrowExecutor with
  | error e => exact ⟨c, rfl⟩
  | ok u =>
    rw [Raising.exec_bind_ok (Raising.exec_get c)]
    rw [Raising.exec_bind_ok (Raising.exec_set ..), value_standalone hfindings]
    cases logAnswer k.stores (storeItems k findings) c.duckdb with
    | error e => exact ⟨_, by simp only [identified_map]; rfl⟩
    | ok v =>
      cases k.arrow findings with
      | error e => exact ⟨_, rfl⟩
      | ok r => exact ⟨_, by simp only [Except.map, identified_map]; rfl⟩

theorem legacyResults_congr {s t : WalStore} (h : LogAlike s t) :
    legacyResults k findings s = legacyResults k findings t := by
  rw [legacyResults, legacyResults, h.logAnswer]

theorem ids_legacyResults_iff (hfindings : findings ≠ []) {s : WalStore} :
    (legacyResults k findings s).map ActivationResult.findingId = findings.map (·.findingId) ↔
      k.arrowExecutor ≠ .ok () ∨ logTakes k.stores (storeItems k findings) s = true ∨
        ∀ f ∈ findings, f.findingId = "" := by
  have hitems : storeItems k findings ≠ [] := by
    simpa [storeItems] using hfindings
  rw [legacyResults, ← logAnswer_eq_ok_iff hitems]
  cases k.arrowExecutor with
  | error e => simp [buildActivationResultsFromFindings]
  | ok u =>
    cases logAnswer k.stores (storeItems k findings) s with
    | error e =>
      simp only [buildActivationResults, List.map_map, List.map_inj_left]
      constructor
      · intro h
        exact .inr (.inr fun f hf => (h f hf).symm)
      · intro h f hf
        exact ((h.resolve_left (· rfl)).resolve_left nofun f hf).symm
    | ok v => cases k.arrow findings <;> simp [buildActivationResults, buildActivationResultsFromFindings]

/-! ### The Arrow path -/

theorem exec_count_of_mem {key : String} (h : key ∈ metricKeys) (n : Nat) :
    ∃ m, Raising.exec (count key n) c = (.ok ⟨⟩, { c with arrowMetrics := m }) := by
  obtain ⟨m, hm⟩ := ArrowMetrics.add_of_mem (n := n) (m := c.arrowMetrics) h
  refine ⟨m, ?_⟩
  rw [count, Raising.exec_bind_ok (Raising.exec_get c), hm]
  rfl

theorem exec_count_of_notMem {key : String} (h : key ∉ metricKeys) (n : Nat) :
    Raising.exec (count key n) c = (.error (.keyError key), c) := by
  rw [count, Raising.exec_bind_ok (Raising.exec_get c), ArrowMetrics.add_of_notMem h]
  rfl

/-- The breaker lets the batch through. -/
def BreakerLets (k : Calls) (c : DuckDBWriteCoordinator) : Prop :=
  c.breakerState = .open → c.breakerCooldown ≤ k.now - c.breakerLastFailure

/-- The log of the coordinator takes the batch: it has a manager on the unified environment, and every chunk goes in. -/
def OwnLogTakes (k : Calls) (findings : List ScoredFinding) (c : DuckDBWriteCoordinator) : Prop :=
  c.walManager = some .unified ∧ k.walExecutor = true ∧
    (Backend.unified.putMany k.own.chunk (walItems findings) c.duckdb.unified).1.all id = true

/-- The batch goes through on the Arrow path. -/
def GoesThrough (k : Calls) (findings : List ScoredFinding) (c : DuckDBWriteCoordinator) : Prop :=
  k.pyarrow = true ∧ k.startup = true ∧ BreakerLets k c ∧ OwnLogTakes k findings c

theorem exec_waitStartupBarrier (n : Nat) :
    ∃ m, Raising.exec (waitStartupBarrier k n) c = (.ok k.startup, { c with arrowMetrics := m }) := by
  rw [waitStartupBarrier]
  cases k.startup with
  | true => exact ⟨c.arrowMetrics, rfl⟩
  | false =>
    obtain ⟨m, hcount⟩ : ∃ m, Raising.exec (count "arrow_fallback_init" n) c = _ := exec_count_of_mem (by decide) n
    exact ⟨m, Raising.exec_bind_ok hcount⟩

theorem exec_checkCircuitBreaker :
    ∃ lets s, Raising.exec (checkCircuitBreaker k) c = (.ok lets, { c with breakerState := s }) ∧
      (lets = true ↔ BreakerLets k c) := by
  rw [checkCircuitBreaker, Raising.exec_bind_ok (Raising.exec_get c), BreakerLets]
  by_cases hopen : c.breakerState = .open
  · rw [if_pos hopen]
    by_cases hcool : c.breakerCooldown ≤ k.now - c.breakerLastFailure
    · rw [if_pos hcool]
      exact ⟨true, .halfOpen, rfl, fun _ _ => hcool, fun _ => rfl⟩
    · rw [if_neg hcool]
      exact ⟨false, c.breakerState, rfl, nofun, fun h => absurd (h hopen) hcool⟩
  · rw [if_neg hopen]
    exact ⟨true, c.breakerState, rfl, fun _ h => absurd h hopen, fun _ => rfl⟩

theorem exec_walPutMany (hfindings : findings ≠ []) :
    ∃ takes d, Raising.exec (walPutMany k findings) c = (.ok takes, d) ∧ LogAlike c.duckdb d.duckdb ∧
      (takes = true ↔ OwnLogTakes k findings c) := by
  rw [walPutMany, if_neg hfindings]
  cases hm : c.walManager with
  | none =>
    have hnot : ¬ OwnLogTakes k findings c := by
      intro h
      rw [OwnLogTakes, hm] at h
      cases h.1
    have hensure : ∃ d, Raising.exec (ensureWalManager k) c = (.ok false, d) ∧ d.duckdb = c.duckdb := by
      rw [ensureWalManager, Raising.exec_bind_ok (Raising.exec_get c), hm]
      cases c.walRoot with
      | false => exact ⟨c, rfl, rfl⟩
      | true => cases k.own.opens <;> exact ⟨_, rfl, rfl⟩
    obtain ⟨d, hd, hduckdb⟩ := hensure
    rw [Raising.exec_bind_ok hd]
    exact ⟨false, d, rfl, hduckdb ▸ ⟨rfl, rfl, rfl⟩, nofun, fun h => absurd h hnot⟩
  | some b =>
    have hensure : Raising.exec (ensureWalManager k) c = (.ok true, c) := by
      rw [ensureWalManager, Raising.exec_bind_ok (Raising.exec_get c), hm]
      rfl
    rw [Raising.exec_bind_ok hensure, OwnLogTakes, hm]
    cases hexec : k.walExecutor with
    | false => exact ⟨false, c, rfl, ⟨rfl, rfl, rfl⟩, nofun, fun h => nomatch h.2.1⟩
    | true =>
      show ∃ takes d, Raising.exec (walPutManySync k findings) c = _ ∧ _
      rw [walPutManySync, Raising.exec_bind_ok (Raising.exec_get c), hm]
      cases b with
      | shadow =>
        refine ⟨findings.isEmpty, c, rfl, ⟨rfl, rfl, rfl⟩, ?_, fun h => nomatch h.1⟩
        intro hempty
        exact absurd (List.isEmpty_iff.1 hempty) hfindings
      | unified => exact ⟨_, _, rfl, ⟨rfl, rfl, rfl⟩, fun h => ⟨rfl, rfl, h⟩, fun h => h.2.2⟩

theorem exec_executeDuckdbPhase :
    ∃ r m, Raising.exec (executeDuckdbPhase k findings) c = (.ok r, { c with arrowMetrics := m }) ∧
      r.status = .success := by
  rw [executeDuckdbPhase]
  obtain ⟨duckdbCount, duckdbErr⟩ := tryDuckdbBasic k findings
  by_cases hcount : duckdbCount < findings.length
  · obtain ⟨m, hm⟩ : ∃ m, Raising.exec (count "arrow_partial_duplicates" 1) c = _ := exec_count_of_mem (by decide) 1
    simp only [if_pos hcount]
    rw [Raising.exec_bind_ok hm]
    exact ⟨_, m, rfl, rfl⟩
  · simp only [if_neg hcount]
    exact ⟨_, c.arrowMetrics, rfl, rfl⟩

theorem exec_executeArrowPipeline (hfindings : findings ≠ []) :
    ∃ r d, Raising.exec (executeArrowPipeline k findings) c = (.ok r, d) ∧ LogAlike c.duckdb d.duckdb ∧
      (r.status = .success ↔ GoesThrough k findings c) := by
  rw [executeArrowPipeline, GoesThrough]
  cases hpyarrow : k.pyarrow with
  | false =>
    obtain ⟨m, hm⟩ : ∃ m, Raising.exec (count "arrow_fallback_pyarrow" findings.length) c = _ :=
      exec_count_of_mem (by decide) _
    exact ⟨_, _, Raising.exec_bind_ok hm, ⟨rfl, rfl, rfl⟩, nofun, fun h => nomatch h.1⟩
  | true =>
    obtain ⟨m, hwait⟩ : ∃ m, Raising.exec (waitStartupBarrier k findings.length) c = _ :=
      exec_waitStartupBarrier findings.length
    rw [if_neg (by simp), Raising.exec_bind_ok hwait]
    cases k.startup with
    | false => exact ⟨_, _, rfl, ⟨rfl, rfl, rfl⟩, nofun, fun h => nomatch h.2.1⟩
    | true =>
      obtain ⟨lets, s, hcheck, hlets⟩ :
          ∃ lets s, Raising.exec (checkCircuitBreaker k) { c with arrowMetrics := m } = _ ∧ _ :=
        exec_checkCircuitBreaker
      rw [if_neg (by simp), Raising.exec_bind_ok hcheck]
      cases lets with
      | false => exact ⟨_, _, rfl, ⟨rfl, rfl, rfl⟩, nofun, fun h => nomatch hlets.2 h.2.2.1⟩
      | true =>
        obtain ⟨takes, d, hput, halike, htakes⟩ :
            ∃ takes d, Raising.exec (walPutMany k findings) { c with arrowMetrics := m, breakerState := s } = _ ∧ _ :=
          exec_walPutMany hfindings
        rw [if_neg (by simp), Raising.exec_bind_ok hput]
        cases takes with
        | false => exact ⟨_, _, rfl, halike, nofun, fun h => nomatch htakes.2 h.2.2.2⟩
        | true =>
          obtain ⟨r, m', hphase, hstatus⟩ : ∃ r m, Raising.exec (executeDuckdbPhase k findings) d = _ ∧ _ :=
            exec_executeDuckdbPhase
          exact ⟨r, _, hphase, halike, fun _ => ⟨rfl, rfl, hlets.1 rfl, htakes.1 rfl⟩, fun _ => hstatus⟩

/-! ### Totality -/

/-- The batch comes to the Arrow pipeline, and the pipeline succeeds. -/
def ArrowWritten (k : Calls) (findings : List ScoredFinding) (c : DuckDBWriteCoordinator)
    (r : ArrowIngestResult) : Prop :=
  checkArrowConditions k findings = none ∧ k.pyarrow = true ∧
    (Raising.exec (executeArrowPipeline k findings) c).1 = .ok r ∧ r.status = .success

/-- The batch is answered: with one result for each finding, in their order, with that of the legacy path where the
Arrow path does not write it, and with that of the Arrow path where it does. -/
structure Total (k : Calls) (findings : List ScoredFinding) (c : DuckDBWriteCoordinator) : Prop where
  answers : ∃ results, (Raising.exec (ingestBatchArrow k findings) c).1 = .ok results ∧
    results.map ActivationResult.findingId = findings.map (·.findingId)
  legacy : (∀ r, ¬ ArrowWritten k findings c r) →
    (Raising.exec (ingestBatchArrow k findings) c).1 = (Raising.exec (ingestBatchLegacy k findings) c).1
  arrow : ∀ r, ArrowWritten k findings c r →
    (Raising.exec (ingestBatchArrow k findings) c).1 = .ok (buildActivationResults r.results)

/-- The batch is empty, or it is large enough and meant for the Arrow path, does not go through there, and is not
refused by the log of the store. -/
def FallsBackSafely (k : Calls) (findings : List ScoredFinding) (c : DuckDBWriteCoordinator) : Prop :=
  findings = [] ∨
    k.arrowIngest ≠ some "0" ∧ arrowMinBatch ≤ findings.length ∧ ¬ GoesThrough k findings c ∧
      (k.arrowExecutor ≠ .ok () ∨ logTakes k.stores (storeItems k findings) c.duckdb = true ∨
        ∀ f ∈ findings, f.findingId = "")

theorem checkArrowConditions_eq_none_iff (hfindings : findings ≠ []) :
    checkArrowConditions k findings = none ↔ k.arrowIngest ≠ some "0" ∧ arrowMinBatch ≤ findings.length := by
  have henv : k.arrowIngest.getD "1" = "0" ↔ k.arrowIngest = some "0" := by
    cases k.arrowIngest with
    | none => simp
    | some v => simp
  rw [checkArrowConditions, if_neg hfindings]
  simp only [henv]
  split
  · next h => simp [h]
  · next h =>
    split
    · next hlt => simp [hlt]
    · next hle => simp [h, not_lt.1 hle]

theorem exec_ingestBatchArrow_of_conditions {reason : String} (h : checkArrowConditions k findings = some reason)
    (hfindings : findings ≠ []) :
    Raising.exec (ingestBatchArrow k findings) c = (.error (.keyError ("arrow_fallback_" ++ reason)), c) := by
  have hkey : "arrow_fallback_" ++ reason ∉ metricKeys := by
    rw [checkArrowConditions, if_neg hfindings] at h
    split at h
    · obtain rfl : "env_disabled" = reason := Option.some.inj h
      decide
    · split at h
      · obtain rfl : "batch_too_small" = reason := Option.some.inj h
        decide
      · cases h
  rw [ingestBatchArrow, if_neg hfindings, h]
  exact Raising.exec_bind_error (exec_count_of_notMem hkey _)

theorem exec_handleArrowPostProcess (results : List IngestRecord) :
    ∃ d, Raising.exec (handleArrowPostProcess k findings results) c = (.error (.nameError "_time"), d) :=
  ⟨_, rfl⟩

theorem exec_ingestBatchArrow_of_goesThrough (h : checkArrowConditions k findings = none)
    (hfindings : findings ≠ []) (hgoes : GoesThrough k findings c) :
    ∃ d, Raising.exec (ingestBatchArrow k findings) c = (.error (.nameError "_time"), d) := by
  obtain ⟨r, d, hpipeline, -, hstatus⟩ := exec_executeArrowPipeline (c := c) (k := k) hfindings
  obtain ⟨e, hpost⟩ : ∃ e, Raising.exec (handleArrowPostProcess k findings r.results) d = _ :=
    exec_handleArrowPostProcess r.results
  have hsuccess : r.shouldFallback = false := by simp [ArrowIngestResult.shouldFallback, hstatus.2 hgoes]
  rw [ingestBatchArrow, if_neg hfindings, h]
  simp only [hgoes.1, Bool.not_true, Bool.false_eq_true, if_false]
  rw [Raising.exec_bind_ok hpipeline, if_neg (by simp [hsuccess]), Raising.exec_bind_error hpost]
  exact ⟨e, rfl⟩

theorem exec_ingestBatchArrow_of_not_goesThrough (h : checkArrowConditions k findings = none)
    (hfindings : findings ≠ []) (hgoes : ¬ GoesThrough k findings c) :
    ∃ d, Raising.exec (ingestBatchArrow k findings) c = (.ok (legacyResults k findings c.duckdb), d) := by
  rw [ingestBatchArrow, if_neg hfindings, h]
  cases hpyarrow : k.pyarrow with
  | false =>
    obtain ⟨m, hm⟩ : ∃ m, Raising.exec (count "arrow_fallback_batch" findings.length) c = _ :=
      exec_count_of_mem (by decide) _
    obtain ⟨d, hd⟩ := exec_ingestBatchLegacy (c := { c with arrowMetrics := m }) (k := k) hfindings
    exact ⟨d, (Raising.exec_bind_ok hm).trans hd⟩
  | true =>
    obtain ⟨r, d, hpipeline, halike, hstatus⟩ := exec_executeArrowPipeline (c := c) (k := k) hfindings
    have hfailed : r.status ≠ .success := fun hsuccess => hgoes (hstatus.1 hsuccess)
    have hfallback : r.shouldFallback = true := by simp [ArrowIngestResult.shouldFallback, hfailed]
    obtain ⟨e, he⟩ := exec_ingestBatchLegacy (c := d) (k := k) hfindings
    rw [← legacyResults_congr halike] at he
    simp only [Bool.not_true, Bool.false_eq_true, if_false]
    rw [Raising.exec_bind_ok hpipeline, if_pos hfallback]
    exact ⟨e, he⟩

theorem goesThrough_of_arrowWritten {r : ArrowIngestResult} (hfindings : findings ≠ [])
    (h : ArrowWritten k findings c r) : GoesThrough k findings c := by
  obtain ⟨r', d, hpipeline, -, hstatus⟩ := exec_executeArrowPipeline (c := c) (k := k) hfindings
  have hr : r' = r := by
    have hrun := h.2.2.1
    rw [hpipeline] at hrun
    exact Except.ok.inj hrun
  exact hstatus.1 (hr ▸ h.2.2.2)

/-- A single finding, in an environment that leaves everything at its default. -/
def lone : List ScoredFinding := [{ findingId := "f1", query := "q", sourceType := "web", confidence := 1, ts := 0 }]

end DuckDBWriteCoordinator

end Hledac.Knowledge
