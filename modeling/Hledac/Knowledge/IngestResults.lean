import Hledac.Knowledge.IngestSteps

/-!
# Which batches keep a result for every finding

`async_ingest_findings_batch` promises a list with one entry for each finding, whatever the gate
and the writers come to. The entries it writes are those of the writers alone: what the gate
rejects, and what a task raises, leaves a hole or a list that is too short.
-/

namespace Hledac.Knowledge

open Hledac.Lib Hledac.Utils
open Raising

variable {cfg : IngestSettings} {out : Surroundings} {findings : List CanonicalFinding}

/-- The gate's decision for finding number `i`; none where the assessment of its chunk raises. -/
def gateDecision (cfg : IngestSettings) (out : Surroundings) (findings : List CanonicalFinding)
    (i : Nat) : Option FindingQualityDecision :=
  if 0 < cfg.chunkSize then
    let k := cfg.chunkSize.toNat
    match out.assessFindingQualityBatch (i / k) (chunk k findings (i / k)) with
    | .ok decisions => some (decisionAt decisions (i % k))
    | .error _ => none
  else none

/-- The entry that finding `f` is owed, given the gate's decision for it. -/
def IsEntryFor (decision : Option FindingQualityDecision) (f : CanonicalFinding)
    (e : IngestEntry) : Prop :=
  match decision with
  | some d => if d.accepted then ∃ r, e = .activation r ∧ r.findingId = f.findingId
    else e = .decision d
  | none => ∃ r, e = .activation r ∧ r.findingId = f.findingId

/-- Ingest returns one entry for each finding, and the one that the finding is owed. -/
def IngestsOneToOne (cfg : IngestSettings) (out : Surroundings) (s : DuckDBShadowStore)
    (findings : List CanonicalFinding) : Prop :=
  Returns s (ingestFindingsBatch cfg out findings) fun entries =>
    entries.length = findings.length ∧
      ∀ i f, findings[i]? = some f →
        ∃ e, entries[i]? = some e ∧ IsEntryFor (gateDecision cfg out findings i) f e

/-- The batches that the writers are given when the gate accepts every finding. -/
def storedBatches (cfg : IngestSettings) (findings : List CanonicalFinding) :
    List (List CanonicalFinding) :=
  grouped cfg.minFlush [] (chunks cfg.chunkSize.toNat findings)

/-- The store is complete, the gate accepts every finding, and the writers return in order a result
for each finding of their batch. -/
structure StoresEveryFinding (cfg : IngestSettings) (out : Surroundings) (s : DuckDBShadowStore)
    (findings : List CanonicalFinding) : Prop where
  connects : out.ensureConnected = .ok ()
  cuts : 0 < cfg.chunkSize
  anonymizer : s.temporalAnonymizer = true ∨
    out.zeroAttribution = true ∧ out.anonymizerImports = true
  accepts : ∀ i < findings.length, ∃ d, gateDecision cfg out findings i = some d ∧
    d.accepted = true
  stores : ∀ j batch, (storedBatches cfg findings)[j]? = some batch →
    ∃ rs, out.recordCanonicalFindingsBatchArrow j batch = .ok rs ∧
      batch.map (·.findingId) <+: rs.map (·.findingId)
  graph : (∃ j batch rs, (storedBatches cfg findings)[j]? = some batch ∧
      out.recordCanonicalFindingsBatchArrow j batch = .ok rs ∧
      ∃ r ∈ rs.take batch.length, r.accepted = true) →
    s.graphAttachment = true ∧ out.truthWriteGraph = .ok ()
  counts : s.writeOpCounter.isSome = true

/-! ### Results and batches -/

private theorem getElem?_setEntries_of_notMem {rs : List (Option IngestEntry)}
    {as : List (Nat × ActivationResult)} {i : Nat} (hi : i ∉ as.map (·.1)) :
    (setEntries rs as)[i]? = rs[i]? := by
  induction as generalizing rs with
  | nil => rfl
  | cons a as ih =>
    rw [List.map_cons, List.mem_cons, not_or] at hi
    show (setEntries (rs.set a.1 _) as)[i]? = _
    rw [ih hi.2, List.getElem?_set_ne (Ne.symm hi.1)]

private theorem getElem?_setEntries_of_mem {rs : List (Option IngestEntry)}
    {as : List (Nat × ActivationResult)} (hn : (as.map (·.1)).Nodup) {i : Nat}
    {r : ActivationResult} (hr : (i, r) ∈ as) (hi : i < rs.length) :
    (setEntries rs as)[i]? = some (some (.activation r)) := by
  induction as generalizing rs with
  | nil => cases hr
  | cons a as ih =>
    rw [List.map_cons, List.nodup_cons] at hn
    show (setEntries (rs.set a.1 _) as)[i]? = _
    rcases List.mem_cons.1 hr with rfl | hr
    · rw [getElem?_setEntries_of_notMem hn.1, List.getElem?_set_self hi]
    · exact ih hn.2 hr (by rwa [List.length_set])

@[simp] theorem length_setEntries (rs : List (Option IngestEntry))
    (as : List (Nat × ActivationResult)) : (setEntries rs as).length = rs.length := by
  induction as generalizing rs with
  | nil => rfl
  | cons a as ih =>
    show (setEntries (rs.set a.1 _) as).length = _
    rw [ih, List.length_set]

/-- In one batch every finding finds a result of its own exactly where the results begin with those of
the batch, in order. -/
private theorem zip_matches_iff {b : List (CanonicalFinding × Nat)} (hn : (b.map (·.2)).Nodup)
    (rs : List ActivationResult) :
    (∀ p ∈ b, ∃ r, (p.2, r) ∈ (b.map (·.2)).zip rs ∧ r.findingId = p.1.findingId) ↔
      b.map (·.1.findingId) <+: rs.map (·.findingId) := by
  induction b generalizing rs with
  | nil => simp
  | cons p b ih =>
    rw [List.map_cons, List.nodup_cons] at hn
    cases rs with
    | nil =>
      constructor
      · intro h
        obtain ⟨r, hr, _⟩ := h p List.mem_cons_self
        rw [List.zip_nil_right] at hr
        cases hr
      · intro h
        exact absurd (List.prefix_nil.1 h) (List.cons_ne_nil _ _)
    | cons r rs =>
      rw [List.map_cons, List.map_cons, List.map_cons, List.zip_cons_cons, List.cons_prefix_cons,
        ← ih hn.2 rs]
      have hfirst : ∀ r', (p.2, r') ∈ (p.2, r) :: (b.map (·.2)).zip rs ↔ r' = r := by
        intro r'
        rw [List.mem_cons, Prod.mk.injEq]
        constructor
        · rintro (⟨_, h⟩ | h)
          · exact h
          · exact absurd (List.of_mem_zip h).1 hn.1
        · rintro rfl
          exact .inl ⟨rfl, rfl⟩
      have hlater : ∀ q ∈ b, ∀ r', (q.2, r') ∈ (p.2, r) :: (b.map (·.2)).zip rs ↔
          (q.2, r') ∈ (b.map (·.2)).zip rs := by
        intro q hq r'
        rw [List.mem_cons, Prod.mk.injEq]
        constructor
        · rintro (⟨h, _⟩ | h)
          · exact absurd (h ▸ List.mem_map_of_mem hq) hn.1
          · exact h
        · exact .inr
      rw [List.forall_mem_cons]
      simp only [hfirst, exists_eq_left]
      constructor
      · rintro ⟨h1, h2⟩
        exact ⟨h1.symm, fun q hq => by simpa only [hlater q hq] using h2 q hq⟩
      · rintro ⟨h1, h2⟩
        exact ⟨h1.symm, fun q hq => by simpa only [hlater q hq] using h2 q hq⟩

private theorem assignments_cons (b : List (CanonicalFinding × Nat))
    (bs : List (List (CanonicalFinding × Nat))) (rs : List ActivationResult)
    (rss : List (List ActivationResult)) :
    assignments (b :: bs) (rs :: rss) = (b.map (·.2)).zip rs ++ assignments bs rss := by
  rw [assignments, List.zip_cons_cons, List.flatMap_cons, assignments]

private theorem map_fst_zip_of_take {α β : Type} (xs : List α) (ys : List β) :
    (xs.zip ys).map (·.1) <+: xs := by
  induction xs generalizing ys with
  | nil => simp
  | cons x xs ih =>
    cases ys with
    | nil => simp
    | cons y ys =>
      rw [List.zip_cons_cons, List.map_cons, List.cons_prefix_cons]
      exact ⟨rfl, ih ys⟩

theorem fst_mem_of_mem_assignments {bs : List (List (CanonicalFinding × Nat))}
    {rss : List (List ActivationResult)} {q : Nat × ActivationResult}
    (h : q ∈ assignments bs rss) : q.1 ∈ bs.flatten.map (·.2) := by
  obtain ⟨⟨b, rs⟩, hb, hq⟩ := List.mem_flatMap.1 h
  obtain ⟨p, hp, hpq⟩ := List.mem_map.1 (List.of_mem_zip hq).1
  exact List.mem_map.2 ⟨p, List.mem_flatten.2 ⟨b, (List.of_mem_zip hb).1, hp⟩, hpq⟩

private theorem nodup_assignments {bs : List (List (CanonicalFinding × Nat))}
    (hn : (bs.flatten.map (·.2)).Nodup) (rss : List (List ActivationResult)) :
    ((assignments bs rss).map (·.1)).Nodup := by
  induction bs generalizing rss with
  | nil => simp [assignments]
  | cons b bs ih =>
    cases rss with
    | nil => simp [assignments]
    | cons rs rss =>
      rw [List.flatten_cons, List.map_append, List.nodup_append] at hn
      obtain ⟨hb, hbs, hd⟩ := hn
      rw [assignments_cons, List.map_append, List.nodup_append]
      refine ⟨?_, ih hbs rss, ?_⟩
      · exact hb.sublist (map_fst_zip_of_take _ _).sublist
      · intro i hi j hj
        obtain ⟨q, hq, rfl⟩ := List.mem_map.1 hi
        obtain ⟨q', hq', rfl⟩ := List.mem_map.1 hj
        exact hd _ (List.of_mem_zip hq).1 _ (fst_mem_of_mem_assignments hq')

private theorem assignments_match_iff {bs : List (List (CanonicalFinding × Nat))}
    (hn : (bs.flatten.map (·.2)).Nodup) {rss : List (List ActivationResult)}
    (hl : rss.length = bs.length) :
    (∀ p ∈ bs.flatten, ∃ r, (p.2, r) ∈ assignments bs rss ∧ r.findingId = p.1.findingId) ↔
      ∀ q ∈ bs.zip rss, q.1.map (·.1.findingId) <+: q.2.map (·.findingId) := by
  induction bs generalizing rss with
  | nil => simp
  | cons b bs ih =>
    obtain ⟨rs, rss, rfl⟩ := List.exists_cons_of_length_eq_add_one hl
    rw [List.flatten_cons, List.map_append, List.nodup_append] at hn
    obtain ⟨hb, hbs, hd⟩ := hn
    have hhead : ∀ p ∈ b, ∀ r, (p.2, r) ∈ assignments (b :: bs) (rs :: rss) ↔
        (p.2, r) ∈ (b.map (·.2)).zip rs := by
      intro p hp r
      rw [assignments_cons, List.mem_append, or_iff_left]
      intro h
      exact hd _ (List.mem_map_of_mem hp) _ (fst_mem_of_mem_assignments h) rfl
    have htail : ∀ p ∈ bs.flatten, ∀ r, (p.2, r) ∈ assignments (b :: bs) (rs :: rss) ↔
        (p.2, r) ∈ assignments bs rss := by
      intro p hp r
      rw [assignments_cons, List.mem_append, or_iff_right]
      intro h
      exact hd _ (List.of_mem_zip h).1 _ (List.mem_map_of_mem hp) rfl
    rw [List.zip_cons_cons, List.forall_mem_cons, List.flatten_cons, List.forall_mem_append,
      ← ih hbs (by simpa using hl), ← zip_matches_iff hb rs]
    constructor
    · rintro ⟨h1, h2⟩
      exact ⟨fun p hp => by simpa only [hhead p hp] using h1 p hp,
        fun p hp => by simpa only [htail p hp] using h2 p hp⟩
    · rintro ⟨h1, h2⟩
      exact ⟨fun p hp => by simpa only [hhead p hp] using h1 p hp,
        fun p hp => by simpa only [htail p hp] using h2 p hp⟩

/-! ### The gate -/

/-- The gate accepts finding number `i`. -/
def acceptsAt (cfg : IngestSettings) (out : Surroundings) (findings : List CanonicalFinding)
    (i : Nat) : Bool :=
  (gateDecision cfg out findings i).any (·.accepted)

theorem acceptsAt_iff {i : Nat} : acceptsAt cfg out findings i = true ↔
    ∃ d, gateDecision cfg out findings i = some d ∧ d.accepted = true := by
  rw [acceptsAt]
  exact Option.any_eq_true _ _

/-- The accepted findings of each chunk, with their indices. -/
def acceptedChunks (cfg : IngestSettings) (out : Surroundings)
    (findings : List CanonicalFinding) : List (List (CanonicalFinding × Nat)) :=
  (chunks cfg.chunkSize.toNat findings.zipIdx).map (List.filter fun p =>
    acceptsAt cfg out findings p.2)

/-- What the gate comes to for chunk number `c`. -/
def gateTask (cfg : IngestSettings) (out : Surroundings) (findings : List CanonicalFinding)
    (c : Nat) : Except StoreError (List FindingQualityDecision) :=
  out.assessFindingQualityBatch c (chunk cfg.chunkSize.toNat findings c)

/-- Chunk number `c` as the first loop leaves it. -/
private def boundaryAt (cfg : IngestSettings) (findings : List CanonicalFinding) (c : Nat) :
    ChunkBoundary :=
  let k := cfg.chunkSize.toNat
  { chunkStart := c * k
    chunkEnd := min (c * k + k) findings.length
    findings := chunk k findings c }

private theorem map_zipIdx_map_range {α β : Type} (n : Nat) (f : Nat → α) (g : Nat → α → β) :
    (((List.range n).map f).zipIdx.map fun p => g p.2 p.1) =
      (List.range n).map fun c => g c (f c) := by
  apply List.ext_getElem
  · simp
  · intro i _ _
    simp

private theorem gateDecision_of_ok (hk : 0 < cfg.chunkSize) {c i : Nat}
    (hi : i < cfg.chunkSize.toNat) {ds : List FindingQualityDecision}
    (h : gateTask cfg out findings c = .ok ds) :
    gateDecision cfg out findings (c * cfg.chunkSize.toNat + i) = some (decisionAt ds i) := by
  have hdiv : (c * cfg.chunkSize.toNat + i) / cfg.chunkSize.toNat = c := by
    rw [Nat.mul_comm, Nat.mul_add_div (by omega), Nat.div_eq_of_lt hi, Nat.add_zero]
  have hmod : (c * cfg.chunkSize.toNat + i) % cfg.chunkSize.toNat = i := by
    rw [Nat.mul_comm, Nat.mul_add_mod, Nat.mod_eq_of_lt hi]
  rw [gateTask] at h
  simp only [gateDecision, if_pos hk, hdiv, hmod, h]

private theorem acceptedOf_boundaryAt (hk : 0 < cfg.chunkSize) {c : Nat}
    {ds : List FindingQualityDecision} (h : gateTask cfg out findings c = .ok ds) :
    acceptedOf (boundaryAt cfg findings c) ds =
      (chunk cfg.chunkSize.toNat findings.zipIdx c).filter fun p =>
        acceptsAt cfg out findings p.2 := by
  rw [← zipIdx_chunk, List.zipIdx_eq_map_add, List.filter_map, acceptedOf]
  apply congrArg (List.map _)
  apply List.filter_congr
  rintro ⟨f, i⟩ hp
  have hi : i < cfg.chunkSize.toNat := by
    have hlt := (List.mem_zipIdx' hp).1
    rw [boundaryAt, chunk, List.length_take] at hlt
    omega
  simp only [Function.comp_apply, acceptsAt, gateDecision_of_ok hk hi h, Option.any_some]

/-! ### The whole method -/

variable (out) in
private theorem exec_hoistZeroAttribution (s : DuckDBShadowStore) :
    ∃ z t, exec (hoistZeroAttribution out) s = (.ok z, t) ∧ t.attributes =
      (s.temporalAnonymizer || out.zeroAttribution && out.anonymizerImports,
        s.graphAttachment, s.writeOpCounter) := by
  rw [hoistZeroAttribution, exec_bind_ok (exec_get s)]
  cases hz : out.zeroAttribution with
  | false => exact ⟨false, s, rfl, by simp [DuckDBShadowStore.attributes]⟩
  | true =>
    cases ha : s.temporalAnonymizer with
    | true => exact ⟨true, s, rfl, by simp [DuckDBShadowStore.attributes, ha]⟩
    | false =>
      cases hi : out.anonymizerImports with
      | false => exact ⟨false, s, rfl, by simp [DuckDBShadowStore.attributes, ha]⟩
      | true => exact ⟨true, _, rfl, rfl⟩

private theorem ok_or_error {ε α : Type} (xs : List (Except ε α)) :
    (∃ as : List α, xs = as.map .ok) ∨ ∃ e, .error e ∈ xs := by
  induction xs with
  | nil => exact .inl ⟨[], rfl⟩
  | cons x xs ih =>
    cases x with
    | error e => exact .inr ⟨e, List.mem_cons_self⟩
    | ok a =>
      rcases ih with ⟨as, rfl⟩ | ⟨e, he⟩
      · exact .inl ⟨a :: as, rfl⟩
      · exact .inr ⟨e, List.mem_cons_of_mem _ he⟩

/-- The loop variables before the first chunk. -/
def Assembly.start (cfg : IngestSettings) (findings : List CanonicalFinding) : Assembly where
  results := List.replicate findings.length none
  flushCtrl := { minFlush := cfg.minFlush, maxInterval := cfg.maxFlushInterval }

/-- The loop over the chunks. -/
private def chunkLoop (cfg : IngestSettings) (out : Surroundings)
    (findings : List CanonicalFinding) (z : Bool) : StoreM Assembly :=
  let boundaries := (List.range (chunkCount cfg.chunkSize.toNat findings.length)).map
    (boundaryAt cfg findings)
  foldZip zipTooShort (ingestChunk out z) (.start cfg findings) boundaries
    (gatherDecisions out boundaries)

private theorem gatherDecisions_eq (m : Nat) :
    gatherDecisions out ((List.range m).map (boundaryAt cfg findings)) =
      parallelOk out.assessed ((List.range m).map (gateTask cfg out findings)) := by
  rw [gatherDecisions]
  exact congrArg _ (map_zipIdx_map_range m (boundaryAt cfg findings) fun c b =>
    out.assessFindingQualityBatch c b.findings)

private def Assembly.addOutcome (t : Assembly) (b : ChunkBoundary) :
    Except StoreError (List FindingQualityDecision) → Assembly
  | .ok decisions => t.add (acceptedOf b decisions)
  | .error _ => t

private theorem yields_chunkLoop {a : Bool × Bool × Option Nat} (ha : a.1 = true)
    (hk : 0 < cfg.chunkSize)
    (hg : ∀ c < chunkCount cfg.chunkSize.toNat findings.length,
      ∃ ds, gateTask cfg out findings c = .ok ds) (z : Bool) :
    Yields (fun s => s.attributes = a) (chunkLoop cfg out findings z)
      ((acceptedChunks cfg out findings).foldl Assembly.add (.start cfg findings)) := by
  choose! ds hds using hg
  have hchunks : acceptedChunks cfg out findings =
      (List.range (chunkCount cfg.chunkSize.toNat findings.length)).map fun c =>
        acceptedOf (boundaryAt cfg findings c) (ds c) := by
    rw [acceptedChunks, chunks, List.length_zipIdx, List.map_map]
    apply List.map_congr_left
    intro c hc
    exact (acceptedOf_boundaryAt hk (hds c (List.mem_range.1 hc))).symm
  have htasks : (List.range (chunkCount cfg.chunkSize.toNat findings.length)).map
      (gateTask cfg out findings) =
        ((List.range (chunkCount cfg.chunkSize.toNat findings.length)).map ds).map .ok := by
    rw [List.map_map]
    apply List.map_congr_left
    intro c hc
    exact hds c (List.mem_range.1 hc)
  have hfold : (acceptedChunks cfg out findings).foldl Assembly.add (.start cfg findings) =
      (((List.range (chunkCount cfg.chunkSize.toNat findings.length)).map
        (boundaryAt cfg findings)).zip
          (((List.range (chunkCount cfg.chunkSize.toNat findings.length)).map ds).map .ok)).foldl
        (fun t p => t.addOutcome p.1 p.2) (.start cfg findings) := by
    rw [hchunks, List.map_map, List.zip_map', List.foldl_map, List.foldl_map]
    rfl
  rw [chunkLoop, gatherDecisions_eq, htasks, parallelOk_of_forall_ok, hfold]
  apply yields_foldZip
  · simp only [List.length_map]
  · rintro t ⟨b, q⟩ hp
    obtain ⟨_, _, rfl⟩ := List.mem_map.1 (List.of_mem_zip hp).2
    exact yields_ingestChunk a ha z t b _

private theorem fails_chunkLoop {a : Bool × Bool × Option Nat}
    (hm : 0 < chunkCount cfg.chunkSize.toNat findings.length)
    (h : a.1 = false ∨ ∃ c < chunkCount cfg.chunkSize.toNat findings.length,
      ∃ e, gateTask cfg out findings c = .error e) (z : Bool) :
    Fails (fun s => s.attributes = a) (chunkLoop cfg out findings z) := by
  rw [chunkLoop, gatherDecisions_eq]
  rcases h with ha | ⟨c, hc, e, he⟩
  · apply fails_foldZip_of_body
    · simpa using Nat.ne_of_gt hm
    · intro b q
      apply Fails.bind
      intro s hs
      have ht : s.temporalAnonymizer = false := by rw [← ha, ← hs]; rfl
      rw [readTemporalAnonymizer, exec_bind_ok (exec_get s), ht]
      trivial
  · apply fails_foldZip
    have hlt := length_parallelOk_lt out.assessed
      (List.mem_map.2 ⟨c, List.mem_range.2 hc, he⟩)
    rw [List.length_map] at hlt ⊢
    omega

/-- What the writers come to, batch by batch. -/
def batchTasks (out : Surroundings) (bs : List (List CanonicalFinding)) :
    List (Except StoreError (List ActivationResult)) :=
  bs.zipIdx.map fun p => out.recordCanonicalFindingsBatchArrow p.2 p.1

variable (out) in
private theorem writerTasks_eq {flushes : List FlushBatch}
    {bs : List (List (CanonicalFinding × Nat))} (h : List.Forall₂ FlushBatch.Holds flushes bs) :
    writerTasks out flushes = batchTasks out (bs.map (List.map (·.1))) := by
  have hf : flushes.map (·.findings) = bs.map (List.map (·.1)) := by
    induction h with
    | nil => rfl
    | cons hb _ ih => rw [List.map_cons, List.map_cons, ih, hb.1]
  rw [batchTasks, ← hf, List.zipIdx_map, List.map_map]
  rfl

theorem flatten_acceptedChunks (hk : 0 < cfg.chunkSize) :
    (acceptedChunks cfg out findings).flatten =
      findings.zipIdx.filter fun p => acceptsAt cfg out findings p.2 := by
  rw [acceptedChunks, ← List.filter_flatten, flatten_chunks (by omega)]

theorem map_grouped_acceptedChunks
    (h : ∀ i < findings.length, acceptsAt cfg out findings i = true) :
    (grouped cfg.minFlush [] (acceptedChunks cfg out findings)).map (List.map (·.1)) =
      storedBatches cfg findings := by
  have hall : acceptedChunks cfg out findings = chunks cfg.chunkSize.toNat findings.zipIdx := by
    rw [acceptedChunks]
    conv_rhs => rw [← List.map_id (chunks cfg.chunkSize.toNat findings.zipIdx)]
    apply List.map_congr_left
    intro g hg
    apply List.filter_eq_self.2
    intro p hp
    obtain ⟨c, _, rfl⟩ := List.mem_map.1 hg
    apply h
    have hx := (index_of_mem_chunk hp).2.1
    exact (List.getElem?_eq_some_iff.1 hx).1
  rw [hall, storedBatches, ← grouped_map, ← chunks_map, List.zipIdx_map_fst, List.map_nil]

private theorem exists_map_some {α : Type} {xs : List (Option α)} (h : none ∉ xs) :
    ∃ ys : List α, xs = ys.map some := by
  induction xs with
  | nil => exact ⟨[], rfl⟩
  | cons x xs ih =>
    rw [List.mem_cons, not_or] at h
    obtain ⟨ys, rfl⟩ := ih h.2
    cases x with
    | none => exact absurd rfl h.1
    | some a => exact ⟨a :: ys, rfl⟩

/-- The writers fill the result list as it is owed exactly where the gate accepts every finding and the
results of each batch begin with those of its findings. -/
private theorem entries_iff {bs : List (List (CanonicalFinding × Nat))}
    {rss : List (List ActivationResult)}
    (hbs : bs.flatten = findings.zipIdx.filter fun p => acceptsAt cfg out findings p.2)
    (hl : rss.length = bs.length) :
    (∃ entries : List IngestEntry,
        setEntries (List.replicate findings.length none) (assignments bs rss) =
          entries.map some ∧ entries.length = findings.length ∧
          ∀ i f, findings[i]? = some f →
            ∃ e, entries[i]? = some e ∧ IsEntryFor (gateDecision cfg out findings i) f e) ↔
      (∀ i < findings.length, acceptsAt cfg out findings i = true) ∧
        ∀ q ∈ bs.zip rss, q.1.map (·.1.findingId) <+: q.2.map (·.findingId) := by
  have hn : (bs.flatten.map (·.2)).Nodup := by
    rw [hbs]
    apply List.Nodup.sublist (List.filter_sublist.map _)
    rw [List.zipIdx_map_snd]
    exact List.nodup_range'
  have hmem : ∀ {p : CanonicalFinding × Nat}, p ∈ bs.flatten →
      findings[p.2]? = some p.1 ∧ acceptsAt cfg out findings p.2 = true := by
    intro p hp
    rw [hbs, List.mem_filter, List.mem_zipIdx_iff_getElem?] at hp
    exact hp
  rw [← assignments_match_iff hn hl]
  constructor
  · rintro ⟨entries, hset, hlen, hentry⟩
    -- a slot that is filled holds the result assigned to its index
    have hfilled : ∀ i e, entries[i]? = some e →
        ∃ r, (i, r) ∈ assignments bs rss ∧ e = .activation r := by
      intro i e he
      have hs : (setEntries (List.replicate findings.length none) (assignments bs rss))[i]? =
          some (some e) := by
        rw [hset, List.getElem?_map, he]
        rfl
      have hi : i < findings.length := by
        rw [← hlen]
        exact (List.getElem?_eq_some_iff.1 he).1
      by_cases hk : i ∈ (assignments bs rss).map (·.1)
      · obtain ⟨⟨_, r⟩, hr, rfl⟩ := List.mem_map.1 hk
        rw [getElem?_setEntries_of_mem (nodup_assignments hn rss) hr (by simpa using hi)] at hs
        exact ⟨r, hr, by simpa using hs.symm⟩
      · rw [getElem?_setEntries_of_notMem hk, List.getElem?_replicate, if_pos hi] at hs
        cases hs
    constructor
    · intro i hi
      obtain ⟨e, he, _⟩ := hentry i _ (List.getElem?_eq_getElem hi)
      obtain ⟨r, hr, _⟩ := hfilled i e he
      obtain ⟨p, hp, hpi⟩ := List.mem_map.1 (fst_mem_of_mem_assignments hr)
      rw [← show p.2 = i from hpi]
      exact (hmem hp).2
    · intro p hp
      obtain ⟨hf, ha⟩ := hmem hp
      obtain ⟨e, he, hright⟩ := hentry p.2 p.1 hf
      obtain ⟨r, hr, rfl⟩ := hfilled p.2 e he
      obtain ⟨d, hd, hacc⟩ := acceptsAt_iff.1 ha
      simp only [hd, IsEntryFor, if_pos hacc] at hright
      obtain ⟨_, hr', hid⟩ := hright
      cases hr'
      exact ⟨r, hr, hid⟩
  · rintro ⟨hall, hmatch⟩
    have hslot : ∀ (i : Nat) (f : CanonicalFinding), findings[i]? = some f →
        ∃ r : ActivationResult, (setEntries (List.replicate findings.length none) (assignments bs rss))[i]? =
          some (some (.activation r)) ∧ r.findingId = f.findingId := by
      intro i f hf
      have hi : i < findings.length := (List.getElem?_eq_some_iff.1 hf).1
      have hp : (f, i) ∈ bs.flatten := by
        rw [hbs, List.mem_filter, List.mem_zipIdx_iff_getElem?]
        exact ⟨hf, hall i hi⟩
      obtain ⟨r, hr, hid⟩ := hmatch _ hp
      exact ⟨r, getElem?_setEntries_of_mem (nodup_assignments hn rss) hr (by simpa using hi), hid⟩
    have hnone : none ∉ setEntries (List.replicate findings.length none)
        (assignments bs rss) := by
      intro h
      obtain ⟨i, hi, hx⟩ := List.mem_iff_getElem.1 h
      rw [length_setEntries, List.length_replicate] at hi
      obtain ⟨r, hr, _⟩ := hslot i _ (List.getElem?_eq_getElem hi)
      rw [List.getElem?_eq_getElem (by simpa using hi), hx] at hr
      cases hr
    obtain ⟨entries, hset⟩ := exists_map_some hnone
    have hlen : entries.length = findings.length := by
      rw [← List.length_map some, ← hset, length_setEntries, List.length_replicate]
    refine ⟨entries, hset, hlen, ?_⟩
    intro i f hf
    obtain ⟨r, hr, hid⟩ := hslot i f hf
    rw [hset, List.getElem?_map] at hr
    obtain ⟨e, he, hea⟩ := Option.map_eq_some_iff.1 hr
    cases hea
    refine ⟨_, he, ?_⟩
    obtain ⟨d, hd, hacc⟩ := acceptsAt_iff.1 (hall i (List.getElem?_eq_some_iff.1 hf).1)
    simp only [hd, IsEntryFor, if_pos hacc]
    exact ⟨r, rfl, hid⟩

/-! ### The result of a batch -/

private theorem batchTasks_eq_iff {bs : List (List CanonicalFinding)}
    {rss : List (List ActivationResult)} :
    batchTasks out bs = rss.map .ok ↔ rss.length = bs.length ∧
      ∀ j batch rs, bs[j]? = some batch → rss[j]? = some rs →
        out.recordCanonicalFindingsBatchArrow j batch = .ok rs := by
  constructor
  · intro h
    have hl : rss.length = bs.length := by
      rw [← List.length_map (Except.ok (ε := StoreError)), ← h, batchTasks, List.length_map,
        List.length_zipIdx]
    refine ⟨hl, ?_⟩
    intro j batch rs hb hr
    have hj : (batchTasks out bs)[j]? = (rss.map Except.ok)[j]? := by rw [h]
    simpa [batchTasks, hb, hr] using hj
  · rintro ⟨hl, h⟩
    apply List.ext_getElem?
    intro j
    rw [batchTasks, List.getElem?_map, List.getElem?_zipIdx, List.getElem?_map]
    cases hb : bs[j]? with
    | none =>
      have hr : rss[j]? = none := by
        rw [List.getElem?_eq_none_iff, hl, ← List.getElem?_eq_none_iff, hb]
      rw [hr]
      rfl
    | some batch =>
      have hlt : j < rss.length := by
        rw [hl]
        exact (List.getElem?_eq_some_iff.1 hb).1
      rw [List.getElem?_eq_getElem hlt]
      simp [h j batch _ hb (List.getElem?_eq_getElem hlt)]

private theorem map_snd_zip_take {α β : Type} (xs : List α) (ys : List β) :
    (xs.zip ys).map (·.2) = ys.take xs.length := by
  induction xs generalizing ys with
  | nil => simp
  | cons x xs ih =>
    cases ys with
    | nil => simp
    | cons y ys => rw [List.zip_cons_cons, List.map_cons, ih, List.length_cons, List.take_succ_cons]

/-- Something was stored where a writer says so in a result that counts. -/
private theorem stored_ne_nil_iff {bs : List (List (CanonicalFinding × Nat))}
    (hb : ∀ b ∈ bs, ∀ p ∈ b, p.2 < findings.length) {rss : List (List ActivationResult)}
    (ht : batchTasks out (bs.map (List.map (·.1))) = rss.map .ok) :
    (assignments bs rss).flatMap (storedOf findings) ≠ [] ↔
      ∃ j batch rs, (bs.map (List.map (·.1)))[j]? = some batch ∧
        out.recordCanonicalFindingsBatchArrow j batch = .ok rs ∧
          ∃ r ∈ rs.take batch.length, r.accepted = true := by
  obtain ⟨hl, hok⟩ := batchTasks_eq_iff.1 ht
  rw [List.length_map] at hl
  have hstored : ∀ p ∈ assignments bs rss,
      (storedOf findings p ≠ [] ↔ p.2.accepted = true) := by
    intro p hp
    obtain ⟨q, hq, hqp⟩ := List.mem_map.1 (fst_mem_of_mem_assignments hp)
    obtain ⟨b, hbm, hqb⟩ := List.mem_flatten.1 hq
    have hi : p.1 < findings.length := by
      rw [← hqp]
      exact hb b hbm q hqb
    rw [storedOf, List.getElem?_eq_getElem hi]
    cases p.2.accepted <;> simp
  calc (assignments bs rss).flatMap (storedOf findings) ≠ []
      ↔ ∃ p ∈ assignments bs rss, p.2.accepted = true := by
        rw [ne_eq, List.flatMap_eq_nil_iff, not_forall]
        constructor
        · rintro ⟨p, hp⟩
          rw [Classical.not_imp] at hp
          exact ⟨p, hp.1, (hstored p hp.1).1 hp.2⟩
        · rintro ⟨p, hp, ha⟩
          exact ⟨p, fun h => (hstored p hp).2 ha (h hp)⟩
    _ ↔ ∃ q ∈ bs.zip rss, ∃ r ∈ q.2.take q.1.length, r.accepted = true := by
        simp only [assignments, List.mem_flatMap, ← map_snd_zip_take, List.mem_map]
        constructor
        · rintro ⟨p, ⟨q, hq, hp⟩, ha⟩
          have hr : p.2 ∈ ((q.1.map (·.2)).zip q.2).map (·.2) := List.mem_map_of_mem hp
          rw [map_snd_zip_take, List.length_map, ← map_snd_zip_take] at hr
          exact ⟨q, hq, p.2, List.mem_map.1 hr, ha⟩
        · rintro ⟨q, hq, r, hr, ha⟩
          have hr' : r ∈ (q.1.zip q.2).map (·.2) := List.mem_map.2 hr
          rw [map_snd_zip_take, ← List.length_map (·.2), ← map_snd_zip_take] at hr'
          obtain ⟨p, hp, rfl⟩ := List.mem_map.1 hr'
          exact ⟨p, ⟨q, hq, hp⟩, ha⟩
    _ ↔ _ := by
        constructor
        · rintro ⟨⟨b, rs⟩, hq, r, hr, ha⟩
          obtain ⟨j, hj⟩ := List.mem_iff_getElem?.1 hq
          obtain ⟨hjb, hjr⟩ := List.getElem?_zip_eq_some.1 hj
          have hjb' : (bs.map (List.map (·.1)))[j]? = some (b.map (·.1)) := by
            rw [List.getElem?_map, hjb]
            rfl
          refine ⟨j, _, rs, hjb', hok j _ rs hjb' hjr, r, ?_, ha⟩
          rwa [List.length_map]
        · rintro ⟨j, batch, rs, hj, hrs, r, hr, ha⟩
          rw [List.getElem?_map] at hj
          obtain ⟨b, hjb, rfl⟩ := Option.map_eq_some_iff.1 hj
          have hlt : j < rss.length := by
            rw [hl]
            exact (List.getElem?_eq_some_iff.1 hjb).1
          have hjr := List.getElem?_eq_getElem hlt
          have hx := hok j _ _ (by rw [List.getElem?_map, hjb]; rfl) hjr
          rw [hrs] at hx
          cases hx
          have hq : (b, rss[j]) ∈ bs.zip rss :=
            List.mem_iff_getElem?.2 ⟨j, List.getElem?_zip_eq_some.2 ⟨hjb, hjr⟩⟩
          rw [List.length_map] at hr
          exact ⟨(b, rss[j]), hq, r, hr, ha⟩

/-- The batches of the accepted findings, with their indices. -/
private def acceptedBatches (cfg : IngestSettings) (out : Surroundings)
    (findings : List CanonicalFinding) : List (List (CanonicalFinding × Nat)) :=
  grouped cfg.minFlush [] (acceptedChunks cfg out findings)

private theorem flatten_acceptedBatches (hk : 0 < cfg.chunkSize) :
    (acceptedBatches cfg out findings).flatten =
      findings.zipIdx.filter fun p => acceptsAt cfg out findings p.2 := by
  rw [acceptedBatches, flatten_grouped, List.nil_append, flatten_acceptedChunks hk]

variable (out findings) in
private theorem lt_of_mem_acceptedBatches (hk : 0 < cfg.chunkSize) :
    ∀ b ∈ acceptedBatches cfg out findings, ∀ p ∈ b, p.2 < findings.length := by
  intro b hb p hp
  have hm : p ∈ (acceptedBatches cfg out findings).flatten := List.mem_flatten.2 ⟨b, hb, hp⟩
  rw [flatten_acceptedBatches hk, List.mem_filter, List.mem_zipIdx_iff_getElem?] at hm
  exact (List.getElem?_eq_some_iff.1 hm.1).1

/-- What the loop over the chunks leaves. -/
private def assembled (cfg : IngestSettings) (out : Surroundings)
    (findings : List CanonicalFinding) : Assembly :=
  (acceptedChunks cfg out findings).foldl Assembly.add (.start cfg findings)

variable (cfg out findings) in
private theorem holds_flushes_assembled :
    List.Forall₂ FlushBatch.Holds (assembled cfg out findings).flushes
      (acceptedBatches cfg out findings) := by
  have hstart : (Assembly.start cfg findings).flushCtrl.Buffers cfg.minFlush [] :=
    ⟨rfl, rfl, rfl, cfg.maxFlushInterval_pos⟩
  obtain ⟨new, hnew, hall⟩ := flushes_foldl_add (.start cfg findings) hstart
    (acceptedChunks cfg out findings)
  rw [assembled, hnew]
  exact hall

/-- From the chunks on, where none of them is lost: the writers and the end of the method decide. -/
private theorem returns_storeAssembled_iff (hk : 0 < cfg.chunkSize) {t : DuckDBShadowStore}
    {Q : List IngestEntry → Prop} :
    Returns t (storeAssembled out findings (assembled cfg out findings) >>=
        fun p => finishBatch out p.1 p.2) Q ↔
      ∃ rss : List (List ActivationResult),
        batchTasks out ((acceptedBatches cfg out findings).map (List.map (·.1))) = rss.map .ok ∧
          ((assignments (acceptedBatches cfg out findings) rss).flatMap (storedOf findings) ≠ [] →
            t.graphAttachment = true ∧ out.truthWriteGraph = .ok ()) ∧
          t.writeOpCounter.isSome = true ∧
          ∃ entries, setEntries (List.replicate findings.length none)
            (assignments (acceptedBatches cfg out findings) rss) = entries.map some ∧
              Q entries := by
  have hh := holds_flushes_assembled cfg out findings
  have hw := writerTasks_eq out hh
  rcases ok_or_error (writerTasks out (assembled cfg out findings).flushes) with ⟨rss, hr⟩ | ⟨e, he⟩
  · have hempty : (assembled cfg out findings).flushes = [] →
        (assembled cfg out findings).allAcceptedFindings = [] := by
      intro h0
      rw [h0] at hh
      have hb : acceptedBatches cfg out findings = [] := List.forall₂_nil_left_iff.1 hh
      have hf := flatten_grouped cfg.minFlush [] (acceptedChunks cfg out findings)
      rw [← acceptedBatches, hb, List.flatten_nil, List.nil_append] at hf
      rw [assembled, Assembly.allAcceptedFindings_foldl_add, ← hf]
      rfl
    have hy := yields_storeAssembled (fun s => s = t) hempty hh (lt_of_mem_acceptedBatches out findings hk) hr
    rw [hy.returns_bind_iff rfl (R := Returns t (finishBatch out
      (setEntries (List.replicate findings.length none)
        (assignments (acceptedBatches cfg out findings) rss))
      ((assignments (acceptedBatches cfg out findings) rss).flatMap (storedOf findings))) Q)]
    · rw [returns_finishBatch_iff]
      constructor
      · intro h
        exact ⟨rss, by rw [← hw, hr], h⟩
      · rintro ⟨rss', hrss, h⟩
        have hinj : rss' = rss := by
          rw [← hw, hr] at hrss
          exact (List.map_injective_iff.2 (fun _ _ h => Except.ok.inj h) hrss).symm
        rw [hinj] at h
        exact h
    · rintro _ rfl
      rw [assembled, Assembly.results_foldl_add]
      rfl
  · constructor
    · intro h
      exact absurd h ((fails_storeAssembled (fun s => s = t) he).not_returns_bind rfl)
    · rintro ⟨rss, hrss, _⟩
      rw [hw, hrss] at he
      obtain ⟨_, _, hx⟩ := List.mem_map.1 he
      cases hx

private theorem ingestFindingsBatch_eq (hne : findings ≠ []) (hk : 0 < cfg.chunkSize) :
    ingestFindingsBatch cfg out findings = (do
      Raising.ofExcept out.ensureConnected
      let z ← hoistZeroAttribution out
      let a ← chunkLoop cfg out findings z
      let p ← storeAssembled out findings a
      finishBatch out p.1 p.2) := by
  have hb : chunkBoundaries cfg.chunkSize findings = .ok
      ((List.range (chunkCount cfg.chunkSize.toNat findings.length)).map
        (boundaryAt cfg findings)) := by
    rw [chunkBoundaries, if_neg (by omega), if_neg (by omega)]
    rfl
  simp only [ingestFindingsBatch, if_neg hne, hb]
  rfl

variable (out) in
private theorem returns_hoist_bind_iff (s : DuckDBShadowStore) :
    ∃ z t, t.attributes = (s.temporalAnonymizer || out.zeroAttribution && out.anonymizerImports,
        s.graphAttachment, s.writeOpCounter) ∧
      ∀ (f : Bool → StoreM (List IngestEntry)) (Q : List IngestEntry → Prop),
        Returns s (hoistZeroAttribution out >>= f) Q ↔ Returns t (f z) Q := by
  obtain ⟨z, t, hx, ht⟩ := exec_hoistZeroAttribution out s
  refine ⟨z, t, ht, ?_⟩
  intro f Q
  rw [Returns, exec_bind_ok hx, Returns]

/-- What the batch returns when the chunks can be cut. -/
private theorem returns_ingestFindingsBatch_iff (hne : findings ≠ []) (hk : 0 < cfg.chunkSize)
    {s : DuckDBShadowStore} {Q : List IngestEntry → Prop} :
    Returns s (ingestFindingsBatch cfg out findings) Q ↔
      out.ensureConnected = .ok () ∧
        (s.temporalAnonymizer || out.zeroAttribution && out.anonymizerImports) = true ∧
        (∀ c < chunkCount cfg.chunkSize.toNat findings.length,
          ∃ ds, gateTask cfg out findings c = .ok ds) ∧
        ∃ rss : List (List ActivationResult),
          batchTasks out ((acceptedBatches cfg out findings).map (List.map (·.1))) =
              rss.map .ok ∧
            ((assignments (acceptedBatches cfg out findings) rss).flatMap (storedOf findings) ≠ [] →
              s.graphAttachment = true ∧ out.truthWriteGraph = .ok ()) ∧
            s.writeOpCounter.isSome = true ∧
            ∃ entries, setEntries (List.replicate findings.length none)
              (assignments (acceptedBatches cfg out findings) rss) = entries.map some ∧
                Q entries := by
  obtain ⟨z, t, ht, hhoist⟩ := returns_hoist_bind_iff out s
  have hg : t.graphAttachment = s.graphAttachment := congrArg (·.2.1) ht
  have hw : t.writeOpCounter = s.writeOpCounter := congrArg (·.2.2) ht
  have hm : 0 < chunkCount cfg.chunkSize.toNat findings.length := by
    rw [lt_chunkCount_iff (by omega), Nat.zero_mul]
    exact List.length_pos_of_ne_nil hne
  rw [ingestFindingsBatch_eq hne hk, returns_ofExcept_bind_iff]
  simp only [hhoist, Unique.exists_iff, PUnit.default_eq_unit, ← hg, ← hw]
  apply and_congr_right
  intro _
  by_cases hok : (s.temporalAnonymizer || out.zeroAttribution && out.anonymizerImports) = true ∧
      ∀ c < chunkCount cfg.chunkSize.toNat findings.length,
        ∃ ds, gateTask cfg out findings c = .ok ds
  · rw [and_iff_right hok.1, and_iff_right hok.2]
    apply (yields_chunkLoop (a := t.attributes) (by rw [ht]; exact hok.1) hk hok.2 z).returns_bind_iff
      rfl
    intro t' ht'
    have hg' : t'.graphAttachment = t.graphAttachment := congrArg (·.2.1) ht'
    have hw' : t'.writeOpCounter = t.writeOpCounter := congrArg (·.2.2) ht'
    rw [← hg', ← hw']
    exact returns_storeAssembled_iff hk
  · have hfail : (s.temporalAnonymizer || out.zeroAttribution && out.anonymizerImports) = false ∨
        ∃ c < chunkCount cfg.chunkSize.toNat findings.length,
          ∃ e, gateTask cfg out findings c = .error e := by
      rw [not_and_or, Bool.not_eq_true] at hok
      apply hok.imp_right
      intro h
      push Not at h
      obtain ⟨c, hc, hds⟩ := h
      cases hx : gateTask cfg out findings c with
      | error e => exact ⟨c, hc, e, hx⟩
      | ok ds => exact absurd hx (hds ds)
    constructor
    · intro h
      exact absurd h ((fails_chunkLoop hm hfail z).not_returns_bind ht)
    · rintro ⟨h1, h2, _⟩
      exact absurd ⟨h1, h2⟩ hok

private theorem not_returns_of_not_pos (hne : findings ≠ []) (hk : ¬ 0 < cfg.chunkSize)
    {s : DuckDBShadowStore} {Q : List IngestEntry → Prop} :
    ¬ Returns s (ingestFindingsBatch cfg out findings) Q := by
  intro h
  simp only [ingestFindingsBatch, if_neg hne] at h
  obtain ⟨_, _, h⟩ := returns_ofExcept_bind_iff.1 h
  obtain ⟨boundaries, hb, h⟩ := returns_ofExcept_bind_iff.1 h
  have h0 : boundaries = [] := by
    rw [chunkBoundaries] at hb
    split at hb
    · cases hb
    · rw [if_pos (by omega)] at hb
      cases hb
      rfl
  subst h0
  obtain ⟨z, t, _, hhoist⟩ := returns_hoist_bind_iff out s
  have hfinish : Returns t (finishBatch out (List.replicate findings.length none) []) Q :=
    (hhoist _ _).1 h
  obtain ⟨_, _, entries, hset, _⟩ := returns_finishBatch_iff.1 hfinish
  cases entries with
  | nil => exact hne (List.length_eq_zero_iff.1 (by simpa using congrArg List.length hset))
  | cons e entries =>
    have hmem : some e ∈ List.replicate findings.length (none : Option IngestEntry) := by
      rw [show List.replicate findings.length none = _ from hset]
      exact List.mem_cons_self
    cases (List.mem_replicate.1 hmem).2

private theorem gateTask_of_gateDecision (hk : 0 < cfg.chunkSize) {c : Nat}
    {d : FindingQualityDecision}
    (h : gateDecision cfg out findings (c * cfg.chunkSize.toNat) = some d) :
    ∃ ds, gateTask cfg out findings c = .ok ds := by
  cases hx : gateTask cfg out findings c with
  | ok ds => exact ⟨ds, rfl⟩
  | error e =>
    have hdiv : c * cfg.chunkSize.toNat / cfg.chunkSize.toNat = c :=
      Nat.mul_div_cancel c (by omega)
    rw [gateTask] at hx
    simp [gateDecision, hk, hdiv, hx] at h

private theorem stores_iff {bs : List (List (CanonicalFinding × Nat))} :
    (∃ rss : List (List ActivationResult), batchTasks out (bs.map (List.map (·.1))) = rss.map .ok ∧
        ∀ q ∈ bs.zip rss, q.1.map (·.1.findingId) <+: q.2.map (·.findingId)) ↔
      ∀ j batch, (bs.map (List.map (·.1)))[j]? = some batch →
        ∃ rs, out.recordCanonicalFindingsBatchArrow j batch = .ok rs ∧
          batch.map (·.findingId) <+: rs.map (·.findingId) := by
  have hids : ∀ b : List (CanonicalFinding × Nat),
      (b.map (·.1)).map (·.findingId) = b.map (·.1.findingId) := fun b => List.map_map
  constructor
  · rintro ⟨rss, ht, hpre⟩ j batch hj
    obtain ⟨hl, hok⟩ := batchTasks_eq_iff.1 ht
    have hlt : j < rss.length := by
      rw [hl]
      exact (List.getElem?_eq_some_iff.1 hj).1
    have hr := List.getElem?_eq_getElem hlt
    refine ⟨rss[j], hok j batch _ hj hr, ?_⟩
    rw [List.getElem?_map] at hj
    obtain ⟨b, hb, rfl⟩ := Option.map_eq_some_iff.1 hj
    rw [hids]
    exact hpre (b, rss[j]) (List.mem_iff_getElem?.2 ⟨j, List.getElem?_zip_eq_some.2 ⟨hb, hr⟩⟩)
  · intro h
    rcases ok_or_error (batchTasks out (bs.map (List.map (·.1)))) with ⟨rss, ht⟩ | ⟨e, he⟩
    · refine ⟨rss, ht, ?_⟩
      rintro ⟨b, rs⟩ hq
      obtain ⟨j, hj⟩ := List.mem_iff_getElem?.1 hq
      obtain ⟨hb, hr⟩ := List.getElem?_zip_eq_some.1 hj
      have hb' : (bs.map (List.map (·.1)))[j]? = some (b.map (·.1)) := by
        rw [List.getElem?_map, hb]
        rfl
      obtain ⟨rs', hrs, hpre⟩ := h j _ hb'
      rw [(batchTasks_eq_iff.1 ht).2 j _ rs hb' hr] at hrs
      cases hrs
      rwa [hids] at hpre
    · obtain ⟨⟨batch, j⟩, hp, hx⟩ := List.mem_map.1 he
      obtain ⟨rs, hrs, _⟩ := h j batch (List.mem_zipIdx_iff_getElem?.1 hp)
      rw [hrs] at hx
      cases hx

private def page (id : String) : CanonicalFinding where
  findingId := id
  query := "q"
  sourceType := "web"
  payloadText := some "text"

private def decided (accepted : Bool) : FindingQualityDecision where
  accepted := accepted
  reason := none
  entropy := 0
  normalizedHash := none
  duplicate := false

/-- The gate decides as `accepted` says, and the writers store everything. -/
private def calm (accepted : Bool) : Surroundings where
  assessFindingQualityBatch _ fs := .ok (fs.map fun _ => decided accepted)
  assessFindingQuality _ := .ok (decided accepted)
  recordCanonicalFindingsBatchArrow _ fs := .ok (fs.map fun f =>
    { findingId := f.findingId
      lmdbSuccess := true
      duckdbSuccess := some true
      lmdbKey := f.findingId
      desync := false
      error := none
      accepted := true })
  recordFailOpenBatch _ := .ok []

private def openStore : DuckDBShadowStore where
  temporalAnonymizer := true
  graphAttachment := true
  writeOpCounter := some 0

end Hledac.Knowledge
