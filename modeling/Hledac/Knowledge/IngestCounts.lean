import Hledac.Lib.Lockstep
import Hledac.Lib.Machine
import Hledac.Knowledge.IngestResults
import Hledac.Knowledge.IngestRuns

/-!
# Which runs count every finding once

An accepted finding is counted twice by a single call and not at all by a batch; a rejected one goes
into the ledger twice by a single call, and once by a batch. So the counters and the ledger keep up
only with batches that are rejected as a whole.
-/

namespace Hledac.Knowledge

open Hledac.Lib Hledac.Utils
open Raising

variable {cap : Nat} {q : QualityFunctions}

/-- The findings of a call. -/
def IngestCall.findings : IngestCall → List CanonicalFinding
  | single f _ => [f]
  | batch _ _ _ findings => findings

/-- The counters of the findings that were decided. -/
def QualityAssessmentState.decidedCount (s : QualityAssessmentState) : Nat :=
  s.acceptedCount + (s.qualityRejectedCount + s.qualityDuplicateCount + s.persistentDuplicateCount)

namespace IngestRun

/-- What the gate decides in a call. -/
def decided (q : QualityFunctions) (r : IngestRun cap) :
    IngestCall → List (CanonicalFinding × FindingQualityDecision)
  | .single f _ => ((exec (QualityGate.assessFindingQuality q f) r.store.gate).1.toOption.map
      fun d => (f, d)).toList
  | .batch cfg out schedule findings =>
    let chunks := gateChunks cfg out findings
    let tasks := (GatePhase.run q chunks schedule r.store.gate).1
    (chunks.zip tasks).flatMap fun p => p.1.zip p.2.decisions

/-- The quality state. -/
def quality (r : IngestRun cap) : QualityAssessmentState := r.store.gate.qualityState

/-- A call decides each of its findings, counts it as accepted, or else as rejected or as a duplicate,
and records it in the ledger exactly where it is rejected. -/
structure Conserves (q : QualityFunctions) (r : IngestRun cap) (call : IngestCall) : Prop where
  decided : (r.decided q call).map (·.1) = call.findings
  accepted : (r.step q call).quality.acceptedCount =
    r.quality.acceptedCount + (r.decided q call).countP (·.2.accepted)
  rejected : (r.step q call).quality.qualityRejectedCount +
      (r.step q call).quality.qualityDuplicateCount +
        (r.step q call).quality.persistentDuplicateCount =
    r.quality.qualityRejectedCount + r.quality.qualityDuplicateCount +
      r.quality.persistentDuplicateCount + (r.decided q call).countP (!·.2.accepted)
  ledger : (r.step q call).quality.qualityRejectionLedger =
    ((r.decided q call).foldl (fun s p => s.recordRejection p.1 p.2) r.quality).qualityRejectionLedger

/-- The call is a batch that the gate rejects as a whole: it is empty, or all its findings have URLs, the
shared key is known, and the batch gets as far as its results. -/
def RejectsBatch (r : IngestRun cap) : IngestCall → Prop
  | .single _ _ => False
  | .batch cfg out _ findings => findings = [] ∨
      out.ensureConnected = .ok () ∧ 0 < cfg.chunkSize ∧
        (r.store.temporalAnonymizer || out.zeroAttribution && out.anonymizerImports) = true ∧
          (∀ f ∈ findings, QualityGate.extractUrlFromProvenance f.provenance ≠ "") ∧
            r.store.gate.knows "" = true

end IngestRun

/-! ### A phase that rejects everything -/

/-- The decision on a finding when the shared key is known. -/
def sharedDuplicate (q : QualityFunctions) (f : CanonicalFinding) : FindingQualityDecision :=
  (batchInput q f).duplicate

/-- The decisions of a task so far. -/
private def decidedSoFar : GateTask → Nat
  | .running _ acc => acc.1.length
  | .done o => (o.toOption.map List.length).getD 0

/-- A task that has rejected every finding it came to. -/
private def Rejecting (q : QualityFunctions) (chunk : List CanonicalFinding) : GateTask → Prop
  | .running rows acc => ∃ before after, chunk = before ++ after ∧
      rows = after.map (QualityGate.urlRow q) ∧ acc = (before.map (sharedDuplicate q), [])
  | .done o => o = .ok (chunk.map (sharedDuplicate q))

/-- The counters after `n` more duplicates. -/
private structure Counted (s t : QualityAssessmentState) (n : Nat) : Prop where
  accepted : t.acceptedCount = s.acceptedCount
  rejected : t.qualityRejectedCount = s.qualityRejectedCount
  duplicates : t.qualityDuplicateCount + t.persistentDuplicateCount =
    s.qualityDuplicateCount + s.persistentDuplicateCount + n
  ledger : t.qualityRejectionLedger = s.qualityRejectionLedger

private structure PhaseRejects (q : QualityFunctions) (s : QualityAssessmentState)
    (chunks : List (List CanonicalFinding)) (p : GatePhase cap) : Prop where
  tasks : List.Forall₂ (Rejecting q) chunks p.1
  manager : ∃ n, p.2.dedupManager = some n ∧ n.knows "" = true
  counted : Counted s p.2.qualityState (p.1.map decidedSoFar).sum

private theorem Counted.countDuplicate {s t : QualityAssessmentState} {n : Nat}
    (h : Counted s t n) (hot : Bool) : Counted s (t.countDuplicate hot) (n + 1) := by
  have hd := h.duplicates
  cases hot with
  | false =>
    refine ⟨h.accepted, h.rejected, ?_, h.ledger⟩
    show t.qualityDuplicateCount + (t.persistentDuplicateCount + 1) = _
    omega
  | true =>
    refine ⟨h.accepted, h.rejected, ?_, h.ledger⟩
    show t.qualityDuplicateCount + 1 + t.persistentDuplicateCount = _
    omega

private theorem sum_map_set {tasks : List GateTask} {k : Nat} {task : GateTask}
    (h : tasks[k]? = some task) (task' : GateTask) :
    ((tasks.set k task').map decidedSoFar).sum + decidedSoFar task =
      (tasks.map decidedSoFar).sum + decidedSoFar task' := by
  induction tasks generalizing k with
  | nil => cases h
  | cons t tasks ih =>
    cases k with
    | zero =>
      cases h
      simp only [List.set_cons_zero, List.map_cons, List.sum_cons]
      omega
    | succ k =>
      have := ih h
      simp only [List.set_cons_succ, List.map_cons, List.sum_cons]
      omega

private theorem turn_rejecting {s : GateStore cap} {n : DedupManager cap} {task : GateTask}
    {chunk : List CanonicalFinding} (hm : s.dedupManager = some n) (hk : n.knows "" = true)
    (ht : Rejecting q chunk task) :
    Rejecting q chunk (task.turn s).1 ∧
      (∃ n', (task.turn s).2.dedupManager = some n' ∧ n'.knows "" = true) ∧
        ((task.turn s).2 = s ∧ decidedSoFar (task.turn s).1 = decidedSoFar task ∨
          decidedSoFar (task.turn s).1 = decidedSoFar task + 1 ∧
            ∃ hot, (task.turn s).2.qualityState = s.qualityState.countDuplicate hot) := by
  cases task with
  | done o => exact ⟨ht, ⟨n, hm, hk⟩, .inl ⟨rfl, rfl⟩⟩
  | running rows acc =>
    obtain ⟨before, after, hsplit, rfl, rfl⟩ := ht
    cases after with
    | nil =>
      have hflush : exec (QualityGate.flushDedupBatch []) s = (.ok ⟨⟩, s) := by
        rw [QualityGate.flushDedupBatch, exec_bind_ok (exec_get s), hm]
        rfl
      rw [List.append_nil] at hsplit
      rw [List.map_nil, GateTask.turn, hflush]
      refine ⟨?_, ⟨n, hm, hk⟩, .inl ⟨rfl, rfl⟩⟩
      rw [hsplit]
      rfl
    | cons f after =>
      have hx := exec_assessRow (q := q) (s := s) (f := f) (before.map (sharedDuplicate q), [])
      rw [QualityGate.exec_guards_of_knows (i := batchInput q f) hm hk] at hx
      rw [List.map_cons, GateTask.turn, hx]
      refine ⟨⟨before ++ [f], after, ?_, rfl, ?_⟩, ⟨_, rfl, ?_⟩, .inr ⟨?_, _, rfl⟩⟩
      · rw [hsplit, List.append_assoc, List.singleton_append]
      · rw [List.map_append]
        rfl
      · exact DedupManager.knows_of_mem (DedupManager.mem_keys_promote hk)
      · exact List.length_append

private theorem PhaseRejects.take {s : QualityAssessmentState}
    {chunks : List (List CanonicalFinding)} {p : GatePhase cap}
    (h : PhaseRejects q s chunks p) (k : Nat) : PhaseRejects q s chunks (p.take k) := by
  obtain ⟨htasks, ⟨n, hm, hk⟩, hcount⟩ := h
  rw [GatePhase.take]
  cases htask : p.1[k]? with
  | none => exact ⟨htasks, ⟨n, hm, hk⟩, hcount⟩
  | some task =>
    obtain ⟨chunk, hchunk, ht⟩ := forall₂_getElem? htasks htask
    obtain ⟨ht', hm', hturn⟩ := turn_rejecting hm hk ht
    refine ⟨forall₂_set htasks hchunk ht', hm', ?_⟩
    have hsum := sum_map_set htask (task.turn p.2).1
    rcases hturn with ⟨hs, hd⟩ | ⟨hd, hot, hs⟩
    · have heq : ((p.1.set k (task.turn p.2).1).map decidedSoFar).sum =
          (p.1.map decidedSoFar).sum := by omega
      simp only [heq, hs]
      exact hcount
    · have heq : ((p.1.set k (task.turn p.2).1).map decidedSoFar).sum =
          (p.1.map decidedSoFar).sum + 1 := by omega
      simp only [heq, hs]
      exact hcount.countDuplicate hot

variable (q) in
private theorem phaseRejects_start {s : GateStore cap} {n : DedupManager cap}
    (hm : s.dedupManager = some n) (hk : n.knows "" = true) {chunks : List (List CanonicalFinding)}
    (hurls : ∀ chunk ∈ chunks, ∀ f ∈ chunk,
      QualityGate.extractUrlFromProvenance f.provenance ≠ "") :
    PhaseRejects q s.qualityState chunks (GatePhase.start q chunks s) := by
  have hstart : ∀ chunk ∈ chunks,
      GateTask.start q chunk = .running (chunk.map (QualityGate.urlRow q)) ([], []) := by
    intro chunk hc
    have hzip : (chunk.map id).zip (chunk.map fun f => (QualityGate.urlRow q f).2) =
        chunk.map (QualityGate.urlRow q) := List.zip_map'
    rw [List.map_id] at hzip
    rw [GateTask.start, QualityGate.preprocess_of_urls (hurls chunk hc)]
    exact congrArg (fun rows => GateTask.running rows ([], [])) hzip
  refine ⟨?_, ⟨n, hm, hk⟩, rfl, rfl, ?_, rfl⟩
  · rw [GatePhase.start, List.forall₂_map_right_iff, List.forall₂_same]
    intro chunk hc
    rw [hstart chunk hc]
    exact ⟨[], chunk, rfl, rfl, rfl⟩
  · have hzero : ((GatePhase.start q chunks s).1.map decidedSoFar).sum = 0 := by
      rw [GatePhase.start, List.map_map]
      apply List.sum_eq_zero
      intro x hx
      obtain ⟨chunk, hc, rfl⟩ := List.mem_map.1 hx
      rw [Function.comp_apply, hstart chunk hc]
      rfl
    rw [hzero]
    rfl

/-- With the shared key known, every task returns, and rejects its whole chunk. -/
private theorem run_rejecting {s : GateStore cap} {n : DedupManager cap}
    (hm : s.dedupManager = some n) (hk : n.knows "" = true) {chunks : List (List CanonicalFinding)}
    (hurls : ∀ chunk ∈ chunks, ∀ f ∈ chunk,
      QualityGate.extractUrlFromProvenance f.provenance ≠ "") (schedule : List Nat) :
    (GatePhase.run q chunks schedule s).1 =
        chunks.map (fun chunk => .done (.ok (chunk.map (sharedDuplicate q)))) ∧
      Counted s.qualityState (GatePhase.run q chunks schedule s).2.qualityState
        chunks.flatten.length := by
  have h0 := foldl_invariant (I := PhaseRejects q s.qualityState chunks) (fun _ k h => h.take k)
    schedule (phaseRejects_start q hm hk hurls)
  have hok : (schedule.foldl GatePhase.take (GatePhase.start q chunks s)).1.any GateTask.failed =
      false := by
    rw [List.any_eq_false]
    intro task htask
    obtain ⟨k, hk⟩ := List.mem_iff_getElem?.1 htask
    obtain ⟨chunk, _, ht⟩ := forall₂_getElem? h0.tasks hk
    cases task with
    | running rows acc => exact Bool.false_ne_true
    | done o =>
      cases ht
      exact Bool.false_ne_true
  have h : PhaseRejects q s.qualityState chunks (GatePhase.run q chunks schedule s) := by
    rw [GatePhase.run, hok]
    exact foldl_invariant (I := PhaseRejects q s.qualityState chunks) (fun _ k h => h.take k) _ h0
  have hend : (GatePhase.run q chunks schedule s).1 =
      chunks.map (fun chunk => .done (.ok (chunk.map (sharedDuplicate q)))) := by
    apply List.ext_getElem?
    intro k
    have hleft := GatePhase.turnsLeft_run q chunks schedule s hok k
    rw [List.getElem?_map]
    cases htask : (GatePhase.run q chunks schedule s).1[k]? with
    | none =>
      have hlen := h.tasks.length_eq
      rw [List.getElem?_eq_none_iff] at htask
      rw [List.getElem?_eq_none (by omega)]
      rfl
    | some task =>
      obtain ⟨chunk, hchunk, ht⟩ := forall₂_getElem? h.tasks htask
      rw [hchunk]
      cases task with
      | running rows acc =>
        rw [GatePhase.turnsLeft, htask] at hleft
        cases hleft
      | done o =>
        cases ht
        rfl
  refine ⟨hend, ?_⟩
  have hsum : ((GatePhase.run q chunks schedule s).1.map decidedSoFar).sum =
      chunks.flatten.length := by
    rw [hend, List.map_map, List.length_flatten]
    congr 1
    apply List.map_congr_left
    intro chunk _
    exact List.length_map _
  rw [← hsum]
  exact h.counted

/-! ### The rest of a batch that is rejected -/

section Rejected

variable {cfg : IngestSettings} {out : Surroundings} {findings : List CanonicalFinding}

/-- What surrounds a batch that the gate rejects. -/
private abbrev rejecting (q : QualityFunctions) (out : Surroundings) (bs : List ChunkBoundary) :
    Surroundings :=
  out.withTasks ((bs.map (·.findings)).map fun chunk => .done (.ok (chunk.map (sharedDuplicate q))))

/-- Recording the rejection of each finding. -/
def recordDuplicates (q : QualityFunctions) (s : QualityAssessmentState)
    (fs : List CanonicalFinding) : QualityAssessmentState :=
  fs.foldl (fun s f => s.recordRejection f (sharedDuplicate q f)) s

private theorem exec_processChunk_rejected (s : DuckDBShadowStore) (b : ChunkBoundary) (z : Bool) :
    exec (processChunk out b.chunkStart b.chunkEnd b.findings
        (.ok (b.findings.map (sharedDuplicate q))) z) s =
      (.ok { chunkStart := b.chunkStart, chunkEnd := b.chunkEnd
             decisions := b.findings.map (sharedDuplicate q) },
        { s with qualityState := recordDuplicates q s.qualityState b.findings }) := by
  have hloop : ∀ (ps : List (CanonicalFinding × Nat)) (r : IngestChunkResult)
      (t : DuckDBShadowStore), r.batchRustOk = true →
      (∀ p ∈ ps, decisionAt (b.findings.map (sharedDuplicate q)) p.2 = sharedDuplicate q p.1) →
        exec (ps.foldlM (processFinding out b.chunkStart (b.findings.map (sharedDuplicate q)) z) r) t =
          (.ok r, { t with qualityState := recordDuplicates q t.qualityState (ps.map (·.1)) }) := by
    intro ps
    induction ps with
    | nil =>
      intro r t _ _
      rfl
    | cons p ps ih =>
      intro r t hr hd
      have hstep : exec (processFinding out b.chunkStart (b.findings.map (sharedDuplicate q)) z r p) t =
          (.ok r, { t with
            qualityState := t.qualityState.recordRejection p.1 (sharedDuplicate q p.1) }) := by
        rw [processFinding, getFindingDecision, if_pos hr, hd p List.mem_cons_self]
        rfl
      rw [List.foldlM_cons, exec_bind_ok hstep,
        ih r _ hr fun p' hp' => hd p' (List.mem_cons_of_mem _ hp'), List.map_cons,
        recordDuplicates, recordDuplicates, List.foldl_cons]
  have hx := hloop b.findings.zipIdx { chunkStart := b.chunkStart, chunkEnd := b.chunkEnd
                                       decisions := b.findings.map (sharedDuplicate q) } s rfl (by
    rintro ⟨f, i⟩ hp
    have hf : b.findings[i]? = some f := List.mem_zipIdx_iff_getElem?.1 hp
    rw [decisionAt, List.getElem?_map, hf]
    rfl)
  rw [List.zipIdx_map_fst] at hx
  exact hx

variable (q cfg out findings) in
private theorem exec_loop_rejected (z : Bool) (bs : List ChunkBoundary) (s : DuckDBShadowStore)
    (ha : s.temporalAnonymizer = true) :
    exec (foldZip zipTooShort (ingestChunk out z) (.start cfg findings) bs
        (bs.map fun b => .ok (b.findings.map (sharedDuplicate q)))) s =
      (.ok (.start cfg findings), { s with
        qualityState := recordDuplicates q s.qualityState (bs.map (·.findings)).flatten }) := by
  induction bs generalizing s with
  | nil => rfl
  | cons b bs ih =>
    have hread : exec readTemporalAnonymizer s = (.ok ⟨⟩, s) := by
      rw [readTemporalAnonymizer, exec_bind_ok (exec_get s), ha]
      rfl
    have hchunk : exec (ingestChunk out z (.start cfg findings) b
        (.ok (b.findings.map (sharedDuplicate q)))) s =
          (.ok (.start cfg findings),
            { s with qualityState := recordDuplicates q s.qualityState b.findings }) := by
      rw [ingestChunk, exec_bind_ok hread, exec_bind_ok (exec_processChunk_rejected s b z)]
      rfl
    have hrest := ih { s with qualityState := recordDuplicates q s.qualityState b.findings } ha
    rw [List.map_cons, foldZip, exec_bind_ok hchunk, hrest, List.map_cons, List.flatten_cons,
      recordDuplicates, recordDuplicates, recordDuplicates, List.foldl_append]

variable (q out) in
private theorem gatherDecisions_rejected (bs : List ChunkBoundary) :
    gatherDecisions (rejecting q out bs) bs =
      bs.map fun b => .ok (b.findings.map (sharedDuplicate q)) := by
  have htasks : (bs.zipIdx.map fun p =>
      (rejecting q out bs).assessFindingQualityBatch p.2 p.1.findings) =
        (bs.map fun b => b.findings.map (sharedDuplicate q)).map .ok := by
    apply List.ext_getElem?
    intro i
    rw [List.getElem?_map, List.getElem?_map, List.getElem?_map, List.getElem?_zipIdx]
    cases hb : bs[i]? with
    | none => rfl
    | some b =>
      simp only [Option.map_some, Surroundings.withTasks, Nat.zero_add, List.getElem?_map, hb]
      rfl
  rw [gatherDecisions, htasks, parallelOk_of_forall_ok, List.map_map]
  rfl

/-- A rejected batch raises in the end, and leaves every finding recorded once. -/
private theorem exec_ingestFindingsBatch_rejected {s : DuckDBShadowStore} (hne : findings ≠ [])
    (hconnected : out.ensureConnected = .ok ())
    (ha : (s.temporalAnonymizer || out.zeroAttribution && out.anonymizerImports) = true)
    {bs : List ChunkBoundary} (hbs : chunkBoundaries cfg.chunkSize findings = .ok bs)
    (hflat : (bs.map (·.findings)).flatten = findings) :
    (exec (ingestFindingsBatch cfg (rejecting q out bs) findings) s).2.qualityState =
      recordDuplicates q s.qualityState findings := by
  obtain ⟨z, t, ht, hta, htq⟩ : ∃ z t, exec (hoistZeroAttribution out) s = (.ok z, t) ∧
      t.temporalAnonymizer = true ∧ t.qualityState = s.qualityState := by
    rw [hoistZeroAttribution, exec_bind_ok (exec_get s)]
    cases hs : s.temporalAnonymizer with
    | true =>
      cases out.zeroAttribution with
      | true => exact ⟨true, s, rfl, hs, rfl⟩
      | false => exact ⟨false, s, rfl, hs, rfl⟩
    | false =>
      rw [hs, Bool.false_or, Bool.and_eq_true] at ha
      rw [ha.1, ha.2]
      exact ⟨true, _, rfl, rfl, rfl⟩
  have hassemble : exec (assembleBatch cfg (rejecting q out bs) findings) s =
        (.ok (.start cfg findings),
          { t with qualityState := recordDuplicates q s.qualityState findings }) := by
    have hloop := exec_loop_rejected q cfg (rejecting q out bs) findings z bs t hta
    rw [← gatherDecisions_rejected q out, hflat, htq] at hloop
    rw [assembleBatch]
    apply (exec_bind_ok ((exec_ofExcept _ s).trans (by rw [rejecting, Surroundings.withTasks, hconnected]))).trans
    rw [hbs]
    apply (exec_bind_ok (exec_ofExcept _ s)).trans
    exact (exec_bind_ok ht).trans hloop
  rw [ingestFindingsBatch_of_ne_nil hne, exec_bind_ok hassemble]
  have hnone : (List.replicate findings.length (none : Option IngestEntry)).mapM id = none := by
    cases findings with
    | nil => exact absurd rfl hne
    | cons f fs => rfl
  have hstore : exec (storeAssembled (rejecting q out bs) findings (.start cfg findings))
        { t with qualityState := recordDuplicates q s.qualityState findings } =
      (.ok (List.replicate findings.length none, []),
        { t with qualityState := recordDuplicates q s.qualityState findings }) := rfl
  rw [exec_bind_ok hstore]
  simp only [finishBatch]
  rw [hnone]
  rfl

end Rejected

/-! ### Runs -/

private theorem exists_boundaries {cfg : IngestSettings} (hk : 0 < cfg.chunkSize)
    (findings : List CanonicalFinding) :
    ∃ bs, chunkBoundaries cfg.chunkSize findings = .ok bs ∧
      (bs.map (·.findings)).flatten = findings := by
  rw [chunkBoundaries, if_neg (by omega), if_neg (by omega)]
  refine ⟨_, rfl, ?_⟩
  rw [List.map_map]
  exact flatten_chunks (by omega) findings

private theorem run_nil (schedule : List Nat) (s : GateStore cap) :
    GatePhase.run q [] schedule s = ([], s) := by
  have htake : ∀ js : List Nat, js.foldl GatePhase.take (([], s) : GatePhase cap) = ([], s) := by
    intro js
    induction js with
    | nil => rfl
    | cons j js ih => exact ih
  rw [GatePhase.run, GatePhase.start, List.map_nil, htake]
  rfl

private theorem recordRejection_eq (s : QualityAssessmentState) (f : CanonicalFinding)
    (d : FindingQualityDecision) : ∃ ledger,
      s.recordRejection f d = { s with qualityRejectionLedger := ledger } := by
  rw [QualityAssessmentState.recordRejection]
  split
  · exact ⟨_, rfl⟩
  · exact ⟨_, rfl⟩

private theorem recordDuplicates_eq (s : QualityAssessmentState) (fs : List CanonicalFinding) :
    ∃ ledger, recordDuplicates q s fs = { s with qualityRejectionLedger := ledger } := by
  rw [recordDuplicates]
  induction fs generalizing s with
  | nil => exact ⟨_, rfl⟩
  | cons f fs ih =>
    obtain ⟨l, hl⟩ := recordRejection_eq s f (sharedDuplicate q f)
    obtain ⟨l', hl'⟩ := ih { s with qualityRejectionLedger := l }
    rw [List.foldl_cons, hl, hl']
    exact ⟨_, rfl⟩

private theorem ledger_recordRejection {s t : QualityAssessmentState}
    (h : t.qualityRejectionLedger = s.qualityRejectionLedger) (f : CanonicalFinding)
    (d : FindingQualityDecision) :
    (t.recordRejection f d).qualityRejectionLedger = (s.recordRejection f d).qualityRejectionLedger := by
  rw [QualityAssessmentState.recordRejection, QualityAssessmentState.recordRejection]
  split
  · exact h
  · rw [h]

private theorem ledger_recordDuplicates {s t : QualityAssessmentState}
    (h : t.qualityRejectionLedger = s.qualityRejectionLedger) (fs : List CanonicalFinding) :
    (recordDuplicates q t fs).qualityRejectionLedger =
      (recordDuplicates q s fs).qualityRejectionLedger := by
  rw [recordDuplicates, recordDuplicates]
  induction fs generalizing s t with
  | nil => exact h
  | cons f fs ih =>
    rw [List.foldl_cons, List.foldl_cons]
    exact ih (ledger_recordRejection h f (sharedDuplicate q f))

namespace IngestRun

private theorem conserves_batch {r : IngestRun cap} {cfg : IngestSettings} {out : Surroundings}
    {schedule : List Nat} {findings : List CanonicalFinding}
    (h : r.RejectsBatch (.batch cfg out schedule findings)) :
    Conserves q r (.batch cfg out schedule findings) := by
  by_cases hne : findings = []
  · subst hne
    have hchunks : gateChunks cfg out [] = [] := rfl
    have hdecided : decided q r (.batch cfg out schedule []) = [] := by
      rw [decided, hchunks, run_nil]
      rfl
    have hquality : (r.step q (.batch cfg out schedule [])).quality = r.quality := by
      rw [quality, step, ingestBatch, hchunks, run_nil]
      simp only [ingestFindingsBatch, if_true]
      cases h0 : (out.withTasks []).initializeSchema <;> rfl
    exact
      { decided := by
          rw [hdecided]
          rfl
        accepted := by
          rw [hdecided, hquality]
          rfl
        rejected := by
          rw [hdecided, hquality]
          rfl
        ledger := by
          rw [hdecided, hquality]
          rfl }
  · obtain ⟨hconnected, hk, ha, hurls, hknows⟩ := h.resolve_left hne
    obtain ⟨bs, hbs, hflat⟩ := exists_boundaries hk findings
    have hchunks : gateChunks cfg out findings = bs.map (·.findings) := by
      rw [gateChunks, if_neg hne, hconnected, hbs]
    obtain ⟨n, hm, hn⟩ : ∃ n, r.store.gate.dedupManager = some n ∧ n.knows "" = true :=
      (Option.any_eq_true _ _).1 hknows
    have hall : ∀ chunk ∈ bs.map (·.findings), ∀ f ∈ chunk,
        QualityGate.extractUrlFromProvenance f.provenance ≠ "" := by
      intro chunk hc f hf
      apply hurls
      rw [← hflat]
      exact List.mem_flatten.2 ⟨chunk, hc, hf⟩
    obtain ⟨htasks, hcounted⟩ := run_rejecting (q := q) hm hn hall schedule
    have hdecided : decided q r (.batch cfg out schedule findings) =
        findings.map fun f => (f, sharedDuplicate q f) := by
      simp only [decided, hchunks, htasks]
      rw [← hflat]
      induction bs.map (·.findings) with
      | nil => rfl
      | cons chunk chunks ih =>
        rw [List.map_cons, List.zip_cons_cons, List.flatMap_cons, ih, List.flatten_cons,
          List.map_append]
        congr 1
        have hzip : (chunk.map id).zip (chunk.map (sharedDuplicate q)) =
            chunk.map fun f => (f, sharedDuplicate q f) := List.zip_map'
        rwa [List.map_id] at hzip
    have hquality : (r.step q (.batch cfg out schedule findings)).quality =
        recordDuplicates q (GatePhase.run q (bs.map (·.findings)) schedule
          r.store.gate).2.qualityState findings := by
      simp only [quality, step, ingestBatch, hchunks, htasks]
      exact exec_ingestFindingsBatch_rejected hne hconnected ha hbs hflat
    obtain ⟨l, hl⟩ := recordDuplicates_eq (q := q)
      (GatePhase.run q (bs.map (·.findings)) schedule r.store.gate).2.qualityState findings
    rw [hflat] at hcounted
    have hnone : (findings.map fun f => (f, sharedDuplicate q f)).countP (·.2.accepted) = 0 := by
      rw [List.countP_eq_zero]
      intro p hp
      obtain ⟨f, _, rfl⟩ := List.mem_map.1 hp
      exact Bool.false_ne_true
    have hevery : (findings.map fun f => (f, sharedDuplicate q f)).countP (!·.2.accepted) =
        findings.length := by
      rw [List.countP_map]
      apply List.countP_eq_length.2
      intro f _
      rfl
    exact
      { decided := by
          rw [hdecided, List.map_map]
          exact List.map_id findings
        accepted := by
          rw [hdecided, hnone, hquality, hl]
          exact hcounted.accepted
        rejected := by
          rw [hdecided, hevery, hquality, hl]
          have hr := hcounted.rejected
          have hd := hcounted.duplicates
          show (GatePhase.run q _ schedule _).2.qualityState.qualityRejectedCount +
            (GatePhase.run q _ schedule _).2.qualityState.qualityDuplicateCount +
              (GatePhase.run q _ schedule _).2.qualityState.persistentDuplicateCount =
            r.store.gate.qualityState.qualityRejectedCount +
              r.store.gate.qualityState.qualityDuplicateCount +
                r.store.gate.qualityState.persistentDuplicateCount + findings.length
          omega
        ledger := by
          rw [hdecided, hquality, ledger_recordDuplicates hcounted.ledger, List.foldl_map]
          rfl }

section Pages

open QualityGate

/-- A run that begins with a gate. -/
private def withGate (gate : GateStore 10000) : IngestRun 10000 where
  store :=
    { gate := gate
      temporalAnonymizer := true
      graphAttachment := true
      writeOpCounter := some 0 }

/-- The record of a page, in LMDB and in DuckDB. -/
private def recorded (f : CanonicalFinding) : ActivationResult where
  findingId := f.findingId
  lmdbSuccess := true
  duckdbSuccess := some true
  lmdbKey := "finding:" ++ f.findingId
  desync := false
  error := none
  accepted := true

private def quiet : Surroundings where
  assessFindingQualityBatch _ _ := .ok []
  assessFindingQuality _ := .error (.valueError "")
  recordCanonicalFindingsBatchArrow _ fs := .ok (fs.map recorded)
  recordFailOpenBatch fs := .ok (fs.map recorded)

private def pages : List CanonicalFinding :=
  [pageFinding "a" "https://a.example", pageFinding "b" "https://b.example"]

/-- The gate once it has accepted a batch of pages. -/
private def acceptedPages : GateStore 10000 :=
  (exec (assessFindingQualityBatch plainFunctions pages) freshStore).2

end Pages

end IngestRun

end Hledac.Knowledge
