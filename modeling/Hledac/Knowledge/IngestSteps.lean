import Hledac.Knowledge.IngestBatch

/-!
# The steps of batch ingest

What each step of `async_ingest_findings_batch` returns when the tasks under it return, and which
steps raise when one of them does.
-/

namespace Hledac.Knowledge

open Hledac.Lib Hledac.Utils
open Raising

variable {out : Surroundings} {findings : List CanonicalFinding}

/-! ### Chunks -/

/-- The attributes, less the quality state. -/
def DuckDBShadowStore.attributes (s : DuckDBShadowStore) : Bool × Bool × Option Nat :=
  (s.temporalAnonymizer, s.graphAttachment, s.writeOpCounter)

/-- What the chunk `b` adds to the flush buffer, given its decisions: findings and global indices. -/
def acceptedOf (b : ChunkBoundary) (decisions : List FindingQualityDecision) :
    List (CanonicalFinding × Nat) :=
  (b.findings.zipIdx.filter fun p => (decisionAt decisions p.2).accepted).map fun p =>
    (p.1, b.chunkStart + p.2)

/-- The result of `processFinding`, whose effects are on the quality state alone. -/
private def chunkStep (out : Surroundings) (chunkStart : Nat)
    (decisions : List FindingQualityDecision) (result : IngestChunkResult)
    (p : CanonicalFinding × Nat) : IngestChunkResult :=
  match getFindingDecision out p.1 p.2 decisions result.batchRustOk with
  | none =>
    { result with
      failOpenFindings := result.failOpenFindings ++ [p.1]
      failOpenIndices := result.failOpenIndices ++ [chunkStart + p.2] }
  | some decision =>
    if decision.accepted then
      { result with
        acceptedFindings := result.acceptedFindings ++ [p.1]
        acceptedIndices := result.acceptedIndices ++ [chunkStart + p.2] }
    else result

private theorem yields_processFinding (a : Bool × Bool × Option Nat) (chunkStart : Nat)
    (decisions : List FindingQualityDecision) (z : Bool) (result : IngestChunkResult)
    (p : CanonicalFinding × Nat) :
    Yields (fun s => s.attributes = a) (processFinding out chunkStart decisions z result p)
      (chunkStep out chunkStart decisions result p) := by
  rw [processFinding, chunkStep]
  cases getFindingDecision out p.1 p.2 decisions result.batchRustOk with
  | none => exact yields_pure _
  | some d =>
    cases hd : d.accepted with
    | false =>
      simp only [hd, Bool.not_false, if_true, Bool.false_eq_true, if_false]
      have hrecord : Yields (fun s => s.attributes = a) (recordQualityRejection p.1 d) ⟨⟩ :=
        yields_modify fun _ h => h
      exact hrecord.bind (yields_pure _)
    | true =>
      simp only [hd, Bool.not_true, Bool.false_eq_true, if_false, if_true, applyZeroAttribution,
        ite_self]
      exact yields_pure _

private theorem foldl_chunkStep (chunkStart : Nat) (decisions : List FindingQualityDecision)
    (ps : List (CanonicalFinding × Nat)) (result : IngestChunkResult)
    (h : result.batchRustOk = true) :
    ps.foldl (chunkStep out chunkStart decisions) result =
      let accepted := ps.filter fun p => (decisionAt decisions p.2).accepted
      { result with
        acceptedFindings := result.acceptedFindings ++ accepted.map (·.1)
        acceptedIndices := result.acceptedIndices ++ accepted.map (chunkStart + ·.2) } := by
  induction ps generalizing result with
  | nil => simp
  | cons p ps ih =>
    have hstep : chunkStep out chunkStart decisions result p =
        if (decisionAt decisions p.2).accepted then
          { result with
            acceptedFindings := result.acceptedFindings ++ [p.1]
            acceptedIndices := result.acceptedIndices ++ [chunkStart + p.2] }
        else result := by
      rw [chunkStep, getFindingDecision, if_pos h]
    rw [List.foldl_cons, hstep]
    cases hd : (decisionAt decisions p.2).accepted with
    | false =>
      simp only [Bool.false_eq_true, if_false]
      rw [ih result h]
      simp only [List.filter_cons, hd, Bool.false_eq_true, if_false]
    | true =>
      simp only [if_true]
      refine (ih _ (by exact h)).trans ?_
      simp only [List.filter_cons, hd, if_true, List.map_cons, List.append_assoc,
        List.singleton_append]

theorem yields_processChunk (a : Bool × Bool × Option Nat) (b : ChunkBoundary)
    (decisions : List FindingQualityDecision) (z : Bool) :
    Yields (fun s => s.attributes = a)
      (processChunk out b.chunkStart b.chunkEnd b.findings (.ok decisions) z)
      { chunkStart := b.chunkStart
        chunkEnd := b.chunkEnd
        decisions
        acceptedFindings := (acceptedOf b decisions).map (·.1)
        acceptedIndices := (acceptedOf b decisions).map (·.2) } := by
  have h : Yields (fun s => s.attributes = a)
      (b.findings.zipIdx.foldlM (processFinding out b.chunkStart decisions z)
        { chunkStart := b.chunkStart, chunkEnd := b.chunkEnd, decisions })
      (b.findings.zipIdx.foldl (chunkStep out b.chunkStart decisions)
        { chunkStart := b.chunkStart, chunkEnd := b.chunkEnd, decisions }) :=
    yields_foldlM (fun r p _ => yields_processFinding a b.chunkStart decisions z r p) _
  rw [foldl_chunkStep _ _ _ _ rfl] at h
  simpa only [processChunk, acceptedOf, List.map_map, List.nil_append, Function.comp_def] using h

/-! ### The flush buffer -/

/-- The loop variables after a chunk whose accepted findings are `ps`. -/
def Assembly.add (a : Assembly) (ps : List (CanonicalFinding × Nat)) : Assembly :=
  let c := a.flushCtrl.extend (ps.map (·.1)) (ps.map (·.2))
  let f := if c.shouldFlush then c.yieldFlush false else (none, c)
  { results := a.results
    flushCtrl := f.2
    pendingFlushes := a.pendingFlushes ++ f.1.toList
    allAcceptedFindings := a.allAcceptedFindings ++ ps.map (·.1) }

/-- All flushes, the final one included. -/
def Assembly.flushes (a : Assembly) : List FlushBatch :=
  a.pendingFlushes ++ (a.flushCtrl.yieldFlush true).1.toList

/-- The findings of a flush with their indices. -/
def FlushBatch.Holds (b : FlushBatch) (ps : List (CanonicalFinding × Nat)) : Prop :=
  b.findings = ps.map (·.1) ∧ b.indices = ps.map (·.2)

theorem yields_ingestChunk (a : Bool × Bool × Option Nat) (ha : a.1 = true) (z : Bool)
    (acc : Assembly) (b : ChunkBoundary) (decisions : List FindingQualityDecision) :
    Yields (fun s => s.attributes = a) (ingestChunk out z acc b (.ok decisions))
      (acc.add (acceptedOf b decisions)) := by
  have hread : Yields (fun s => s.attributes = a) readTemporalAnonymizer ⟨⟩ := by
    intro s hs
    have ht : s.temporalAnonymizer = true := by rw [← ha, ← hs]; rfl
    rw [readTemporalAnonymizer, exec_bind_ok (exec_get s), ht]
    exact ⟨rfl, hs⟩
  rw [ingestChunk]
  apply hread.bind
  apply (yields_processChunk a b decisions z).bind
  have hopen : Yields (fun s => s.attributes = a)
      (handleFailOpenBatch out [] acc.results []) acc.results := yields_pure _
  exact hopen.bind (yields_pure _)

@[simp] theorem Assembly.results_foldl_add (a : Assembly)
    (gs : List (List (CanonicalFinding × Nat))) : (gs.foldl Assembly.add a).results = a.results := by
  induction gs generalizing a with
  | nil => rfl
  | cons g gs ih => exact ih (a.add g)

/-- The flush buffer once a chunk's accepted findings are in. -/
def Assembly.extended (a : Assembly) (ps : List (CanonicalFinding × Nat)) : FlushController :=
  a.flushCtrl.extend (ps.map (·.1)) (ps.map (·.2))

theorem Assembly.add_of_flush {a : Assembly} {ps : List (CanonicalFinding × Nat)}
    (h : (a.extended ps).shouldFlush = true) :
    (a.add ps).flushCtrl = { a.extended ps with pendingFindings := [], pendingIndices := [] } ∧
      (a.add ps).pendingFlushes = a.pendingFlushes ++
        [{ findings := (a.extended ps).pendingFindings
           indices := (a.extended ps).pendingIndices
           isFinal := !(a.extended ps).checkInvariant }] := by
  have hlen : ¬ (a.extended ps).pendingFindings.length = 0 := by
    intro h0
    simp [FlushController.shouldFlush, h0] at h
  rw [add, ← extended, if_pos h, FlushController.yieldFlush, if_neg hlen]
  exact ⟨rfl, rfl⟩

theorem Assembly.add_of_not_flush {a : Assembly} {ps : List (CanonicalFinding × Nat)}
    (h : (a.extended ps).shouldFlush = false) :
    (a.add ps).flushCtrl = a.extended ps ∧ (a.add ps).pendingFlushes = a.pendingFlushes := by
  rw [add, ← extended, h]
  exact ⟨rfl, List.append_nil _⟩

/-- The buffer holds `ps`, findings and indices side by side, under the limits of the settings. -/
structure FlushController.Buffers (c : FlushController) (least : Nat)
    (ps : List (CanonicalFinding × Nat)) : Prop where
  findings : c.pendingFindings = ps.map (·.1)
  indices : c.pendingIndices = ps.map (·.2)
  minFlush : c.minFlush = least
  maxInterval_pos : 0 < c.maxInterval

theorem FlushController.Buffers.extended {a : Assembly} {least : Nat}
    {ps : List (CanonicalFinding × Nat)} (h : a.flushCtrl.Buffers least ps)
    (g : List (CanonicalFinding × Nat)) : (a.extended g).Buffers least (ps ++ g) where
  findings := by
    rw [List.map_append, ← h.findings]
    rfl
  indices := by
    rw [List.map_append, ← h.indices]
    rfl
  minFlush := h.minFlush
  maxInterval_pos := h.maxInterval_pos

theorem FlushController.Buffers.shouldFlush_iff {c : FlushController} {least : Nat}
    {ps : List (CanonicalFinding × Nat)} (h : c.Buffers least ps) :
    c.shouldFlush = true ↔ ps ≠ [] ∧ least ≤ ps.length := by
  have hx : ¬ c.maxInterval ≤ 0 := not_le.2 h.maxInterval_pos
  rw [shouldFlush, h.findings, List.length_map, h.minFlush]
  cases ps with
  | nil => simp
  | cons p ps => simp [hx]

theorem flushes_foldl_add {least : Nat} (a : Assembly) {ps : List (CanonicalFinding × Nat)}
    (h : a.flushCtrl.Buffers least ps) (gs : List (List (CanonicalFinding × Nat))) :
    ∃ new, (gs.foldl Assembly.add a).flushes = a.pendingFlushes ++ new ∧
      List.Forall₂ FlushBatch.Holds new (grouped least ps gs) := by
  induction gs generalizing a ps with
  | nil =>
    refine ⟨(a.flushCtrl.yieldFlush true).1.toList, rfl, ?_⟩
    rw [grouped, FlushController.yieldFlush, h.findings, List.length_map]
    cases ps with
    | nil => exact .nil
    | cons p ps => exact .cons ⟨rfl, h.indices⟩ .nil
  | cons g gs ih =>
    have hg := h.extended g
    rw [List.foldl_cons, grouped]
    split
    · next hflush =>
      obtain ⟨hc, hp⟩ := Assembly.add_of_flush (hg.shouldFlush_iff.2 hflush)
      have hempty : (a.add g).flushCtrl.Buffers least [] := by
        rw [hc]
        exact ⟨rfl, rfl, hg.minFlush, hg.maxInterval_pos⟩
      obtain ⟨new, hnew, hall⟩ := ih (a.add g) hempty
      refine ⟨⟨_, _, !(a.extended g).checkInvariant⟩ :: new, ?_,
        .cons ⟨hg.findings, hg.indices⟩ hall⟩
      rw [hnew, hp, List.append_assoc, List.singleton_append]
    · next hno =>
      obtain ⟨hc, hp⟩ := Assembly.add_of_not_flush
        (Bool.eq_false_iff.2 fun hs => hno (hg.shouldFlush_iff.1 hs))
      obtain ⟨new, hnew, hall⟩ := ih (a.add g) (by rw [hc]; exact hg)
      exact ⟨new, by rw [hnew, hp], hall⟩

theorem Assembly.allAcceptedFindings_foldl_add (a : Assembly)
    (gs : List (List (CanonicalFinding × Nat))) :
    (gs.foldl Assembly.add a).allAcceptedFindings =
      a.allAcceptedFindings ++ gs.flatten.map (·.1) := by
  induction gs generalizing a with
  | nil => simp
  | cons g gs ih =>
    rw [List.foldl_cons, ih, List.flatten_cons, List.map_append, ← List.append_assoc]
    rfl

/-! ### The writers -/

/-- The index of each finding of the batches with the result its writer returned for it. -/
def assignments (bs : List (List (CanonicalFinding × Nat))) (rss : List (List ActivationResult)) :
    List (Nat × ActivationResult) :=
  (bs.zip rss).flatMap fun p => (p.1.map (·.2)).zip p.2

/-- The finding that a result says was stored. -/
def storedOf (findings : List CanonicalFinding) (p : Nat × ActivationResult) :
    List CanonicalFinding :=
  if p.2.accepted then findings[p.1]?.toList else []

/-- What the writers come to. -/
def writerTasks (out : Surroundings) (flushes : List FlushBatch) :
    List (Except StoreError (List ActivationResult)) :=
  flushes.zipIdx.map fun p => out.recordCanonicalFindingsBatchArrow p.2 p.1.findings

private theorem foldl_collect {α β γ : Type} (f : α → List β) (g : β → List γ) (xs : List α)
    (acc : List β × List γ) :
    xs.foldl (fun acc x => (acc.1 ++ f x, acc.2 ++ (f x).flatMap g)) acc =
      (acc.1 ++ xs.flatMap f, acc.2 ++ (xs.flatMap f).flatMap g) := by
  induction xs generalizing acc with
  | nil => simp
  | cons x xs ih =>
    rw [List.foldl_cons, ih, List.flatMap_cons, List.flatMap_append]
    simp only [List.append_assoc]

theorem yields_takeFlush (P : DuckDBShadowStore → Prop)
    (acc : List (Nat × ActivationResult) × List CanonicalFinding) {b : FlushBatch}
    (hb : ∀ i ∈ b.indices, i < findings.length) (rs : List ActivationResult) :
    Yields P (takeFlush findings acc b (.ok rs))
      (acc.1 ++ b.indices.zip rs, acc.2 ++ (b.indices.zip rs).flatMap (storedOf findings)) := by
  have hfold : (b.indices.zip rs).foldl
      (fun acc p => (acc.1 ++ [p], acc.2 ++ [p].flatMap (storedOf findings))) acc =
        (acc.1 ++ b.indices.zip rs, acc.2 ++ (b.indices.zip rs).flatMap (storedOf findings)) := by
    rw [foldl_collect (fun p => [p]), List.flatMap_singleton']
  rw [takeFlush, ← hfold]
  apply yields_foldlM
  rintro acc ⟨i, r⟩ hp
  rw [takeResult, List.flatMap_singleton, storedOf]
  cases hr : r.accepted with
  | false =>
    simp only [Bool.false_eq_true, if_false, List.append_nil]
    exact yields_pure _
  | true =>
    have hi : i < findings.length := hb i (List.of_mem_zip hp).1
    simp only [if_true, List.getElem?_eq_getElem hi, Option.toList_some]
    exact yields_pure _

private theorem yields_takeFlushes (P : DuckDBShadowStore → Prop) (e : StoreError)
    {flushes : List FlushBatch} {bs : List (List (CanonicalFinding × Nat))}
    (hh : List.Forall₂ FlushBatch.Holds flushes bs)
    (hb : ∀ b ∈ bs, ∀ p ∈ b, p.2 < findings.length) {rss : List (List ActivationResult)}
    (hl : rss.length = flushes.length)
    (acc : List (Nat × ActivationResult) × List CanonicalFinding) :
    Yields P (foldZip e (takeFlush findings) acc flushes (rss.map .ok))
      (acc.1 ++ assignments bs rss,
        acc.2 ++ (assignments bs rss).flatMap (storedOf findings)) := by
  induction hh generalizing acc rss with
  | nil =>
    rw [List.length_eq_zero_iff.1 hl]
    have hnil : Yields P (foldZip e (takeFlush findings) acc [] []) acc := yields_pure acc
    simpa [assignments] using hnil
  | @cons f b fs bs hfb _ ih =>
    obtain ⟨rs, rss, rfl⟩ := List.exists_cons_of_length_eq_add_one hl
    have hf : ∀ i ∈ f.indices, i < findings.length := by
      intro i hi
      rw [hfb.2] at hi
      obtain ⟨p, hp, rfl⟩ := List.mem_map.1 hi
      exact hb b List.mem_cons_self p hp
    have hlen : rss.length = fs.length := by simpa using hl
    have hrest := ih (fun b hb' => hb b (List.mem_cons_of_mem _ hb')) hlen
      (acc.1 ++ f.indices.zip rs, acc.2 ++ (f.indices.zip rs).flatMap (storedOf findings))
    have hcons : assignments (b :: bs) (rs :: rss) = f.indices.zip rs ++ assignments bs rss := by
      rw [assignments, List.zip_cons_cons, List.flatMap_cons, hfb.2, assignments]
    rw [hcons, List.flatMap_append, ← List.append_assoc, ← List.append_assoc]
    exact (yields_takeFlush P acc hf rs).bind hrest

theorem yields_executeStoragePipeline (P : DuckDBShadowStore → Prop) {flushes : List FlushBatch}
    {bs : List (List (CanonicalFinding × Nat))} {rss : List (List ActivationResult)}
    (hne : flushes ≠ []) (hh : List.Forall₂ FlushBatch.Holds flushes bs)
    (hb : ∀ b ∈ bs, ∀ p ∈ b, p.2 < findings.length)
    (hr : writerTasks out flushes = rss.map .ok) :
    Yields P (executeStoragePipeline out findings flushes)
      (assignments bs rss, (assignments bs rss).flatMap (storedOf findings)) := by
  have hl : rss.length = flushes.length := by
    rw [← List.length_map (Except.ok (ε := StoreError)), ← hr, writerTasks, List.length_map,
      List.length_zipIdx]
  rw [executeStoragePipeline, if_neg hne]
  show Yields P (foldZip zipTooShort (takeFlush findings) ([], []) flushes
    (parallelOk out.recorded (writerTasks out flushes))) _
  rw [hr, parallelOk_of_forall_ok]
  exact yields_takeFlushes P zipTooShort hh hb hl ([], [])

theorem fails_executeStoragePipeline (P : DuckDBShadowStore → Prop) {flushes : List FlushBatch}
    {e : StoreError} (h : .error e ∈ writerTasks out flushes) :
    Fails P (executeStoragePipeline out findings flushes) := by
  have hlt := length_parallelOk_lt out.recorded h
  rw [show (writerTasks out flushes).length = flushes.length by
    rw [writerTasks, List.length_map, List.length_zipIdx]] at hlt
  have hne : flushes ≠ [] := by
    rintro rfl
    exact absurd hlt (Nat.not_lt_zero _)
  rw [executeStoragePipeline, if_neg hne]
  exact fails_foldZip (Nat.ne_of_gt hlt)

theorem yields_storeAssembled (P : DuckDBShadowStore → Prop) {a : Assembly}
    {bs : List (List (CanonicalFinding × Nat))} {rss : List (List ActivationResult)}
    (ha : a.flushes = [] → a.allAcceptedFindings = [])
    (hh : List.Forall₂ FlushBatch.Holds a.flushes bs)
    (hb : ∀ b ∈ bs, ∀ p ∈ b, p.2 < findings.length)
    (hr : writerTasks out a.flushes = rss.map .ok) :
    Yields P (storeAssembled out findings a)
      (setEntries a.results (assignments bs rss),
        (assignments bs rss).flatMap (storedOf findings)) := by
  rw [storeAssembled, ← Assembly.flushes]
  by_cases hne : a.flushes = []
  · rw [hne] at hh
    cases hh
    simp only [hne, if_true, ha hne]
    exact yields_pure _
  · simp only [if_neg hne]
    exact (yields_executeStoragePipeline P hne hh hb hr).bind (yields_pure _)

theorem fails_storeAssembled (P : DuckDBShadowStore → Prop) {a : Assembly} {e : StoreError}
    (h : .error e ∈ writerTasks out a.flushes) : Fails P (storeAssembled out findings a) := by
  have hne : a.flushes ≠ [] := by
    intro h0
    rw [h0] at h
    cases h
  rw [storeAssembled, ← Assembly.flushes]
  simp only [if_neg hne]
  exact (fails_executeStoragePipeline P h).bind _

/-! ### The end of the method -/

theorem mapM_id_eq_some_iff {α : Type} {xs : List (Option α)} {ys : List α} :
    xs.mapM id = some ys ↔ xs = ys.map some := by
  induction xs generalizing ys with
  | nil =>
    rw [List.mapM_nil]
    cases ys <;> simp [pure]
  | cons x xs ih =>
    rw [List.mapM_cons]
    cases x with
    | none => cases ys <;> simp
    | some a =>
      cases ys with
      | nil => cases xs.mapM id <;> simp [bind, pure]
      | cons y ys =>
        rw [List.map_cons, List.cons.injEq, ← ih]
        cases xs.mapM id <;> simp [bind, pure]

variable (out) in
private theorem exec_updateTruthGraph (s : DuckDBShadowStore) (accepted : List CanonicalFinding) :
    (accepted ≠ [] → s.graphAttachment = true ∧ out.truthWriteGraph = .ok ()) ∧
        exec (updateTruthGraph out accepted) s = (.ok ⟨⟩, s) ∨
      ¬ (accepted ≠ [] → s.graphAttachment = true ∧ out.truthWriteGraph = .ok ()) ∧
        ∃ e, exec (updateTruthGraph out accepted) s = (.error e, s) := by
  by_cases ha : accepted = []
  · left
    refine ⟨fun h => absurd ha h, ?_⟩
    rw [updateTruthGraph, if_neg (not_not.2 ha)]
    rfl
  · rw [updateTruthGraph, if_pos ha, exec_bind_ok (exec_get s)]
    cases hg : s.graphAttachment with
    | false => exact .inr ⟨fun h => Bool.false_ne_true (h ha).1, _, rfl⟩
    | true =>
      cases ht : out.truthWriteGraph with
      | error e => exact .inr ⟨fun h => by simpa using (h ha).2, e, rfl⟩
      | ok u => exact .inl ⟨fun _ => ⟨rfl, rfl⟩, rfl⟩

private theorem exec_addWriteOps (s : DuckDBShadowStore) (n : Nat) :
    (s.writeOpCounter.isSome = true ∧ ∃ t, exec (addWriteOps n) s = (.ok ⟨⟩, t)) ∨
      (s.writeOpCounter.isSome = false ∧ ∃ e, exec (addWriteOps n) s = (.error e, s)) := by
  rw [addWriteOps, exec_bind_ok (exec_get s)]
  cases s.writeOpCounter with
  | none => exact .inr ⟨rfl, _, rfl⟩
  | some count => exact .inl ⟨rfl, _, rfl⟩

/-- The end of the method returns the result list where nothing is missing in it. -/
theorem returns_finishBatch_iff {s : DuckDBShadowStore} {results : List (Option IngestEntry)}
    {accepted : List CanonicalFinding} {Q : List IngestEntry → Prop} :
    Returns s (finishBatch out results accepted) Q ↔
      (accepted ≠ [] → s.graphAttachment = true ∧ out.truthWriteGraph = .ok ()) ∧
        s.writeOpCounter.isSome = true ∧ ∃ entries, results = entries.map some ∧ Q entries := by
  rw [finishBatch, Returns]
  rcases exec_updateTruthGraph out s accepted with ⟨hg, hx⟩ | ⟨hg, e, hx⟩
  · rw [exec_bind_ok hx]
    cases hm : results.mapM id with
    | none =>
      constructor
      · rintro ⟨_, _, h, _⟩
        cases h
      · rintro ⟨_, _, entries, he, _⟩
        rw [mapM_id_eq_some_iff.2 he] at hm
        cases hm
    | some entries =>
      have he := mapM_id_eq_some_iff.1 hm
      rcases exec_addWriteOps s (entries.countP IngestEntry.accepted) with ⟨hc, t, ht⟩ | ⟨hc, e, ht⟩
      · simp only [exec_bind_ok ht, exec_pure]
        constructor
        · rintro ⟨_, _, h, hq⟩
          cases h
          exact ⟨hg, hc, entries, he, hq⟩
        · rintro ⟨_, _, entries', he', hq⟩
          rw [mapM_id_eq_some_iff.2 he'] at hm
          cases hm
          exact ⟨entries, t, rfl, hq⟩
      · simp only [exec_bind_error ht]
        constructor
        · rintro ⟨_, _, h, _⟩
          cases h
        · rintro ⟨_, h, _⟩
          rw [hc] at h
          cases h
  · rw [exec_bind_error hx]
    constructor
    · rintro ⟨_, _, h, _⟩
      cases h
    · rintro ⟨h, _⟩
      exact absurd h hg

end Hledac.Knowledge
