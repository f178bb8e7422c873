import Hledac.Knowledge.QualityGateSteps

/-!
# The batch gate against the single gate

What the guards return for a finding with a URL, what a whole batch and a whole sequence of single
assessments return, and the inputs on which the two agree.
-/

namespace Hledac.Knowledge.QualityGate

open Hledac.Lib
open Raising

variable {cap : Nat} {q : QualityFunctions}

/-- The fingerprint of the URL of a finding. -/
def urlFingerprint (q : QualityFunctions) (f : CanonicalFinding) : String :=
  q.computeUrlFingerprint (extractUrlFromProvenance f.provenance)

/-- The batch returns, and accepts and remembers what assessing the findings one after another
does. -/
def BatchMatchesSingle (q : QualityFunctions) (s : GateStore cap)
    (findings : List CanonicalFinding) : Prop :=
  ∃ batch t, exec (assessFindingQualityBatch q findings) s = (.ok batch, t) ∧
    ∃ single u, exec (findings.mapM (assessFindingQuality q)) s = (.ok single, u) ∧
      batch.map (·.accepted) = single.map (·.accepted) ∧ ∀ fp, t.knows fp = u.knows fp

/-- Every finding has a URL, and the empty key that a batch uses for all of them is known like their
fingerprints: all known, with the same entries leaving the hot cache for them; or none known, with
nothing remembered of what is accepted. -/
def UrlsKnownAlike (q : QualityFunctions) (s : GateStore cap)
    (findings : List CanonicalFinding) : Prop :=
  findings = [] ∨ (∀ f ∈ findings, extractUrlFromProvenance f.provenance ≠ "") ∧
    match s.dedupManager with
    | none => ∀ f ∈ findings, isFeedSource f = true
    | some m =>
      let fps := findings.map (urlFingerprint q)
      m.knows "" = true ∧ m.KnowsEach fps ∧
          (∀ fp, (fps.foldl DedupManager.promote m).knows fp = (m.promote "").knows fp) ∨
        m.knows "" = false ∧ m.lmdb = none ∧ (∀ f ∈ findings, isFeedSource f = true) ∧
          ∀ fp ∈ fps, m.knows fp = false

/-! ### The guards -/

/-- The store has the manager `m`. -/
private def Has (m : Option (DedupManager cap)) (s : GateStore cap) : Prop := s.dedupManager = m

private theorem ensures_guards {m : DedupManager cap} {i : GateInput} (hurl : i.urlFp ≠ "") :
    Ensures (Has (some m)) (runStatefulQualityGuards i)
      (fun r t => r.1.accepted = !m.knows i.fp ∧
        r.2 = (if m.knows i.fp then [] else if i.batch then [(i.fp, i.finding.findingId)] else []) ∧
          Has (some (m.assessed i.batch i.fp i.finding)) t)
      fun _ _ => False := by
  intro s hs
  cases h : m.knows i.fp with
  | true =>
    rw [exec_guards_of_knows hs h, DedupManager.assessed, if_pos h]
    exact ⟨rfl, rfl, rfl⟩
  | false =>
    rw [exec_guards_of_url hs h hurl, DedupManager.assessed, h]
    exact ⟨rfl, rfl, rfl⟩

private theorem has_writtenStore {s : GateStore cap} (hs : Has none s) (i : GateInput)
    (state : QualityAssessmentState) : Has none { writtenStore s i with qualityState := state } := by
  rw [writtenStore]
  split <;> exact hs

variable (cap) in
private theorem ensures_guards_of_no_manager {i : GateInput} (hurl : i.urlFp ≠ "")
    (hfeed : isFeedSource i.finding = true) :
    Ensures (Has (none : Option (DedupManager cap))) (runStatefulQualityGuards i)
      (fun r t => r.1.accepted = true ∧ Has none t) fun _ _ => False := by
  intro s hs
  obtain ⟨state, hx⟩ := exec_guards_of_no_manager hs hurl
  rw [hx, hfeed]
  exact ⟨rfl, has_writtenStore hs i state⟩

private theorem fails_guards_of_no_manager {i : GateInput} (hurl : i.urlFp ≠ "")
    (hfeed : isFeedSource i.finding = false) :
    Fails (Has (none : Option (DedupManager cap))) (runStatefulQualityGuards i) := by
  intro s hs
  obtain ⟨state, hx⟩ := exec_guards_of_no_manager hs hurl
  rw [hx, hfeed]
  trivial

/-! ### One finding after another -/

theorem startsWith_extractUrl {provenance : List String}
    (h : extractUrlFromProvenance provenance ≠ "") :
    startsWith "http" (extractUrlFromProvenance provenance) = true := by
  rw [extractUrlFromProvenance] at h ⊢
  cases hf : provenance.find? (startsWith "http") with
  | none =>
    rw [hf] at h
    exact absurd rfl h
  | some url => exact List.find?_some hf

theorem urlFingerprint_ne {f : CanonicalFinding}
    (h : extractUrlFromProvenance f.provenance ≠ "") : urlFingerprint q f ≠ "" :=
  q.computeUrlFingerprint_ne (startsWith_extractUrl h)

/-- The guards as the single gate calls them for a finding with a URL. -/
private def singleInput (q : QualityFunctions) (f : CanonicalFinding) : GateInput where
  fp := urlFingerprint q f
  entropy := 0
  urlFp := urlFingerprint q f
  finding := f
  batch := false

private theorem assessFindingQuality_of_url {f : CanonicalFinding}
    (h : extractUrlFromProvenance f.provenance ≠ "") :
    (assessFindingQuality q f : GateM cap FindingQualityDecision) = tryCatch (do
      return (← runStatefulQualityGuards (singleInput q f)).1) fun _ => pure qualityCheckError := by
  have hu := urlFingerprint_ne (q := q) h
  rw [urlFingerprint] at hu
  simp only [assessFindingQuality, if_pos h, if_pos hu]
  rfl

private theorem ensures_assess {m : DedupManager cap} {f : CanonicalFinding}
    (h : extractUrlFromProvenance f.provenance ≠ "") :
    Ensures (Has (some m)) (assessFindingQuality q f)
      (fun d t => d.accepted = !m.knows (urlFingerprint q f) ∧
        Has (some (m.assessed false (urlFingerprint q f) f)) t) fun _ _ => False := by
  rw [assessFindingQuality_of_url h]
  apply Ensures.tryCatch (R := fun _ _ => False)
  · apply (ensures_guards (i := singleInput q f) (urlFingerprint_ne h)).bind
    intro r
    exact ensures_pure fun _ hs => ⟨hs.1, hs.2.2⟩
  · intro _ _ hs
    exact hs.elim

private theorem ensures_assess_of_no_manager {f : CanonicalFinding}
    (h : extractUrlFromProvenance f.provenance ≠ "") (hfeed : isFeedSource f = true) :
    Ensures (Has (none : Option (DedupManager cap))) (assessFindingQuality q f)
      (fun d t => d.accepted = true ∧ Has none t) fun _ _ => False := by
  rw [assessFindingQuality_of_url h]
  apply Ensures.tryCatch (R := fun _ _ => False)
  · apply (ensures_guards_of_no_manager cap (i := singleInput q f) (urlFingerprint_ne h) hfeed).bind
    intro r
    exact ensures_pure fun _ hs => hs
  · intro _ _ hs
    exact hs.elim

private theorem ensures_singles {m : DedupManager cap} {fs : List CanonicalFinding}
    (h : ∀ f ∈ fs, extractUrlFromProvenance f.provenance ≠ "") :
    Ensures (Has (some m)) (fs.mapM (assessFindingQuality q))
      (fun ds t => ds.map (·.accepted) = DedupManager.verdicts false (urlFingerprint q) m fs ∧
        Has (some (m.assessedAll false (urlFingerprint q) fs)) t) fun _ _ => False := by
  induction fs generalizing m with
  | nil => exact ensures_pure fun _ hs => ⟨rfl, hs⟩
  | cons f fs ih =>
    rw [List.mapM_cons]
    apply (ensures_assess (h f List.mem_cons_self)).bind
    intro d s hs
    apply (ih fun g hg => h g (List.mem_cons_of_mem _ hg)).bind
    · intro ds
      apply ensures_pure
      intro t ht
      refine ⟨?_, ht.2⟩
      rw [List.map_cons, hs.1, ht.1]
      rfl
    · exact hs.2

private theorem ensures_singles_of_no_manager {fs : List CanonicalFinding}
    (h : ∀ f ∈ fs, extractUrlFromProvenance f.provenance ≠ "")
    (hfeed : ∀ f ∈ fs, isFeedSource f = true) :
    Ensures (Has (none : Option (DedupManager cap))) (fs.mapM (assessFindingQuality q))
      (fun ds t => ds.map (·.accepted) = List.replicate fs.length true ∧ Has none t)
      fun _ _ => False := by
  induction fs with
  | nil => exact ensures_pure fun _ hs => ⟨rfl, hs⟩
  | cons f fs ih =>
    rw [List.mapM_cons]
    apply (ensures_assess_of_no_manager (h f List.mem_cons_self)
      (hfeed f List.mem_cons_self)).bind
    intro d s hs
    apply (ih (fun g hg => h g (List.mem_cons_of_mem _ hg))
      fun g hg => hfeed g (List.mem_cons_of_mem _ hg)).bind
    · intro ds
      apply ensures_pure
      intro t ht
      refine ⟨?_, ht.2⟩
      rw [List.map_cons, hs.1, ht.1]
      rfl
    · exact hs.2

/-! ### A batch -/

/-- The row of a finding with a URL. -/
def urlRow (q : QualityFunctions) (f : CanonicalFinding) :
    CanonicalFinding × String × ℚ × String :=
  (f, urlFingerprint q f, 0, "")

private theorem ensures_assessRow {m : DedupManager cap} {f : CanonicalFinding}
    (h : extractUrlFromProvenance f.provenance ≠ "")
    (acc : List FindingQualityDecision × List (String × String)) :
    Ensures (Has (some m)) (assessRow acc (urlRow q f))
      (fun r t => r.1.map (·.accepted) = acc.1.map (·.accepted) ++ [!m.knows ""] ∧
        r.2 = acc.2 ++ (if m.knows "" then [] else [("", f.findingId)]) ∧
          Has (some (m.assessed true "" f)) t) fun _ _ => False := by
  rw [assessRow]
  apply (ensures_guards (i := ⟨"", 0, urlFingerprint q f, f, true⟩) (urlFingerprint_ne h)).bind
  intro r
  apply ensures_pure
  intro t ht
  refine ⟨?_, ?_, ht.2.2⟩
  · rw [List.map_append, List.map_singleton, ht.1]
  · rw [ht.2.1]
    rfl

private theorem ensures_rows {m : DedupManager cap} {fs : List CanonicalFinding}
    (h : ∀ f ∈ fs, extractUrlFromProvenance f.provenance ≠ "")
    (acc : List FindingQualityDecision × List (String × String)) :
    Ensures (Has (some m)) ((fs.map (urlRow q)).foldlM assessRow acc)
      (fun r t => r.1.map (·.accepted) =
          acc.1.map (·.accepted) ++ DedupManager.verdicts true (fun _ => "") m fs ∧
        r.2 = acc.2 ++ DedupManager.queued (fun _ => "") m fs ∧
          Has (some (m.assessedAll true (fun _ => "") fs)) t) fun _ _ => False := by
  induction fs generalizing m acc with
  | nil =>
    apply ensures_pure
    intro s hs
    exact ⟨(List.append_nil _).symm, (List.append_nil _).symm, hs⟩
  | cons f fs ih =>
    rw [List.map_cons, List.foldlM_cons]
    apply (ensures_assessRow (h f List.mem_cons_self) acc).bind
    intro r s hs
    apply (ih (fun g hg => h g (List.mem_cons_of_mem _ hg)) r).imp (fun _ h => h) _ (fun _ _ h => h)
    · exact hs.2.2
    · intro r' t ht
      refine ⟨?_, ?_, ht.2.2⟩
      · rw [ht.1, hs.1, List.append_assoc]
        rfl
      · rw [ht.2.1, hs.2.1, List.append_assoc]
        rfl

theorem preprocess_of_urls {fs : List CanonicalFinding}
    (h : ∀ f ∈ fs, extractUrlFromProvenance f.provenance ≠ "") :
    preprocessFindingsBatch q fs = .ok (fs.map fun f => (urlRow q f).2) := by
  have hnone : (fs.filter fun f => extractUrlFromProvenance f.provenance == "") = [] := by
    apply List.filter_eq_nil_iff.2
    intro f hf
    rw [beq_iff_eq]
    exact h f hf
  have hscatter : ∀ rows, scatter q fs rows = fs.map fun f => (urlRow q f).2 := by
    intro rows
    induction fs with
    | nil => rfl
    | cons f fs ih =>
      have hrest : (fs.filter fun f => extractUrlFromProvenance f.provenance == "") = [] := by
        apply List.filter_eq_nil_iff.2
        intro g hg
        rw [beq_iff_eq]
        exact h g (List.mem_cons_of_mem _ hg)
      simp only [scatter, if_pos (h f List.mem_cons_self)]
      rw [ih (fun g hg => h g (List.mem_cons_of_mem _ hg)) hrest]
      rfl
  rw [preprocessFindingsBatch, hnone]
  exact congrArg Except.ok (hscatter _)

theorem preprocess_of_payload {fs : List CanonicalFinding} {f : CanonicalFinding}
    (hf : f ∈ fs) (h : extractUrlFromProvenance f.provenance = "") :
    preprocessFindingsBatch q fs = .error (.nameError "_compute_dedup_fingerprint") := by
  have hmem : f ∈ fs.filter fun f => extractUrlFromProvenance f.provenance == "" :=
    List.mem_filter.2 ⟨hf, beq_iff_eq.2 h⟩
  have hne := List.ne_nil_of_mem hmem
  simp only [preprocessFindingsBatch, if_neg hne, dedupFpFallbackPython,
    if_neg (mt List.map_eq_nil_iff.1 hne)]
  rfl

private theorem ensures_flush {m : DedupManager cap} (items : List (String × String)) :
    Ensures (Has (some m)) (flushDedupBatch items)
      (fun _ => Has (some (m.storePersistentDedupBatch items))) fun _ _ => False := by
  intro s hs
  rw [flushDedupBatch, exec_bind_ok (exec_get s), hs]
  by_cases h : items = []
  · simp only [h, ne_eq, not_true_eq_false, if_false, DedupManager.storePersistentDedupBatch_nil]
    exact hs
  · simp only [ne_eq, h, not_false_eq_true, if_true]
    exact rfl

private theorem assessBatch_of_urls {fs : List CanonicalFinding}
    (h : ∀ f ∈ fs, extractUrlFromProvenance f.provenance ≠ "") :
    (assessFindingQualityBatch q fs : GateM cap (List FindingQualityDecision)) = (do
      let r ← (fs.map (urlRow q)).foldlM assessRow ([], [])
      flushDedupBatch r.2
      return r.1) := by
  have hzip : fs.zip (fs.map fun f => (urlRow q f).2) = fs.map (urlRow q) := by
    have hself : (fs.map id).zip (fs.map fun f => (urlRow q f).2) = fs.map (urlRow q) :=
      List.zip_map'
    rwa [List.map_id] at hself
  rw [assessFindingQualityBatch, preprocess_of_urls h]
  show ((fs.zip (fs.map fun f => (urlRow q f).2)).foldlM assessRow ([], []) >>= _) = _
  rw [hzip]

private theorem exec_assessBatch_nil (s : GateStore cap) :
    exec (assessFindingQualityBatch q []) s = (.ok [], s) := by
  have hflush : exec (flushDedupBatch []) s = (.ok ⟨⟩, s) := by
    rw [flushDedupBatch, exec_bind_ok (exec_get s)]
    cases s.dedupManager <;> rfl
  rw [assessBatch_of_urls (by simp)]
  show exec (flushDedupBatch [] >>= fun _ => pure []) s = _
  rw [exec_bind_ok hflush]
  rfl

private theorem ensures_batch {m : DedupManager cap} {fs : List CanonicalFinding}
    (h : ∀ f ∈ fs, extractUrlFromProvenance f.provenance ≠ "") :
    Ensures (Has (some m)) (assessFindingQualityBatch q fs)
      (fun ds t => ds.map (·.accepted) = DedupManager.verdicts true (fun _ => "") m fs ∧
        Has (some ((m.assessedAll true (fun _ => "") fs).storePersistentDedupBatch
          (DedupManager.queued (fun _ => "") m fs))) t) fun _ _ => False := by
  rw [assessBatch_of_urls h]
  apply (ensures_rows h ([], [])).bind
  intro r s hs
  apply (ensures_flush r.2).bind
  · intro _
    apply ensures_pure
    intro t ht
    have hqueued : r.2 = DedupManager.queued (fun _ => "") m fs := hs.2.1
    rw [hqueued] at ht
    exact ⟨hs.1, ht⟩
  · exact hs.2.2

/-- Without a manager a batch returns where all findings are a feed's. -/
private theorem ensures_batch_of_no_manager {fs : List CanonicalFinding}
    (h : ∀ f ∈ fs, extractUrlFromProvenance f.provenance ≠ "")
    (hfeed : ∀ f ∈ fs, isFeedSource f = true) :
    Ensures (Has (none : Option (DedupManager cap))) (assessFindingQualityBatch q fs)
      (fun ds t => ds.map (·.accepted) = List.replicate fs.length true ∧ Has none t)
      fun _ _ => False := by
  have hrows : ∀ acc : List FindingQualityDecision × List (String × String),
      Ensures (Has (none : Option (DedupManager cap))) ((fs.map (urlRow q)).foldlM assessRow acc)
        (fun r t => r.1.map (·.accepted) =
          acc.1.map (·.accepted) ++ List.replicate fs.length true ∧ Has none t)
        fun _ _ => False := by
    induction fs with
    | nil =>
      intro acc
      apply ensures_pure
      intro s hs
      exact ⟨(List.append_nil _).symm, hs⟩
    | cons f fs ih =>
      intro acc
      have hguards := ensures_guards_of_no_manager cap
        (i := ⟨"", 0, urlFingerprint q f, f, true⟩)
        (urlFingerprint_ne (h f List.mem_cons_self)) (hfeed f List.mem_cons_self)
      rw [List.map_cons, List.foldlM_cons]
      apply Ensures.bind (R := fun r t =>
        r.1.map (·.accepted) = acc.1.map (·.accepted) ++ [true] ∧ Has none t)
      · rw [assessRow]
        apply hguards.bind
        intro r
        apply ensures_pure
        intro t ht
        refine ⟨?_, ht.2⟩
        rw [List.map_append, List.map_singleton, ht.1]
      · intro r s hs
        apply (ih (fun g hg => h g (List.mem_cons_of_mem _ hg))
          (fun g hg => hfeed g (List.mem_cons_of_mem _ hg)) r).imp (fun _ h => h) _ (fun _ _ h => h)
        · exact hs.2
        · intro r' t ht
          refine ⟨?_, ht.2⟩
          rw [ht.1, hs.1, List.append_assoc]
          rfl
  rw [assessBatch_of_urls h]
  apply (hrows ([], [])).bind
  intro r s hs
  have hflush : Yields (Has (none : Option (DedupManager cap))) (flushDedupBatch r.2) ⟨⟩ := by
    intro t ht
    rw [flushDedupBatch, exec_bind_ok (exec_get t), ht]
    exact ⟨rfl, ht⟩
  apply hflush.bind
  · exact ensures_pure fun _ ht => ⟨hs.1, ht⟩
  · exact hs.2

/-- Without a manager a batch with a finding that is no feed's raises. -/
private theorem fails_batch_of_no_manager {fs : List CanonicalFinding}
    (h : ∀ f ∈ fs, extractUrlFromProvenance f.provenance ≠ "")
    (hfeed : ∃ f ∈ fs, isFeedSource f = false) :
    Fails (Has (none : Option (DedupManager cap))) (assessFindingQualityBatch q fs) := by
  have hrows : ∀ acc : List FindingQualityDecision × List (String × String),
      Fails (Has (none : Option (DedupManager cap)))
        ((fs.map (urlRow q)).foldlM assessRow acc) := by
    induction fs with
    | nil =>
      obtain ⟨f, hf, _⟩ := hfeed
      cases hf
    | cons f fs ih =>
      intro acc
      have hu := urlFingerprint_ne (q := q) (h f List.mem_cons_self)
      rw [List.map_cons, List.foldlM_cons]
      cases hf : isFeedSource f with
      | false =>
        apply Fails.bind
        rw [assessRow]
        exact (fails_guards_of_no_manager (i := ⟨"", 0, urlFingerprint q f, f, true⟩) hu hf).bind _
      | true =>
        have hrest : ∃ g ∈ fs, isFeedSource g = false := by
          obtain ⟨g, hg, hgf⟩ := hfeed
          rcases List.mem_cons.1 hg with rfl | hg
          · rw [hf] at hgf
            cases hgf
          · exact ⟨g, hg, hgf⟩
        apply Ensures.bind (R := fun _ => Has none)
        · rw [assessRow]
          apply Ensures.imp (P := Has none) (Q := fun _ => Has none) (E := fun _ _ => False) _
            (fun _ h => h) (fun _ _ h => h) (fun _ _ h => h.elim)
          apply (ensures_guards_of_no_manager cap (i := ⟨"", 0, urlFingerprint q f, f, true⟩) hu hf).bind
          intro r
          exact ensures_pure fun _ ht => ht.2
        · exact ih (fun g hg => h g (List.mem_cons_of_mem _ hg)) hrest
  rw [assessBatch_of_urls h]
  exact (hrows ([], [])).bind _

/-! ### The two together -/

/-- The two runs over the caches, decision by decision, and what is known after them. -/
private def RunsMatch (q : QualityFunctions) (m : DedupManager cap) (fs : List CanonicalFinding) :
    Prop :=
  DedupManager.verdicts true (fun _ => "") m fs =
      DedupManager.verdicts false (urlFingerprint q) m fs ∧
    ∀ fp, ((m.assessedAll true (fun _ => "") fs).storePersistentDedupBatch
      (DedupManager.queued (fun _ => "") m fs)).knows fp =
        (m.assessedAll false (urlFingerprint q) fs).knows fp

private theorem runsMatch_iff_of_knows {m : DedupManager cap} {fs : List CanonicalFinding}
    (hne : fs ≠ []) (hk : m.knows "" = true) :
    RunsMatch q m fs ↔ m.KnowsEach (fs.map (urlFingerprint q)) ∧
      ∀ fp, ((fs.map (urlFingerprint q)).foldl DedupManager.promote m).knows fp =
        (m.promote "").knows fp := by
  have hbatch : DedupManager.verdicts true (fun _ => "") m fs = List.replicate fs.length false ∧
      m.assessedAll true (fun _ => "") fs = m.promote "" ∧
        DedupManager.queued (fun _ => "") m fs = [] := by
    cases fs with
    | nil => exact absurd rfl hne
    | cons f fs =>
      have hstep : m.assessed true "" f = m.promote "" := by
        rw [DedupManager.assessed, if_pos hk]
      have hmem := DedupManager.mem_keys_promote hk
      obtain ⟨hv, ha⟩ := DedupManager.verdicts_const_of_mem true hmem fs
      rw [DedupManager.verdicts, DedupManager.assessedAll_cons, DedupManager.queued, hstep, hv, ha,
        DedupManager.queued_const_of_mem hmem, hk]
      exact ⟨rfl, rfl, rfl⟩
  obtain ⟨hv, ha, hq⟩ := hbatch
  rw [RunsMatch, hv, ha, hq, DedupManager.storePersistentDedupBatch_nil, eq_comm,
    DedupManager.verdicts_eq_replicate_false_iff]
  apply and_congr_right
  intro heach
  rw [DedupManager.assessedAll_of_knowsEach heach]
  exact forall_congr' fun fp => eq_comm

/-- The shared key is not known: the batch accepts the first finding. -/
private theorem runsMatch_iff_of_not_knows {m : DedupManager cap} {fs : List CanonicalFinding}
    (hne : fs ≠ []) (hurl : ∀ f ∈ fs, extractUrlFromProvenance f.provenance ≠ "")
    (hk : m.knows "" = false) :
    RunsMatch q m fs ↔ m.lmdb = none ∧ (∀ f ∈ fs, isFeedSource f = true) ∧
      ∀ fp ∈ fs.map (urlFingerprint q), m.knows fp = false := by
  have hkey : ∀ f ∈ fs, "" ≠ urlFingerprint q f := fun f hf => (urlFingerprint_ne (hurl f hf)).symm
  constructor
  · rintro ⟨hv, hknown⟩
    -- the single gate never learns the empty key
    have hsingle : (m.assessedAll false (urlFingerprint q) fs).knows "" = false := by
      rw [← Bool.not_eq_true]
      intro h
      rw [DedupManager.knows_of_knows_assessedAll hkey h] at hk
      cases hk
    have hbatch := (hknown "").trans hsingle
    have hlmdb : m.lmdb = none := by
      rw [← Option.isNone_iff_eq_none, ← Option.isSome_eq_false_iff, ← Bool.not_eq_true]
      intro hl
      have hl' : (m.assessedAll true (fun _ => "") fs).lmdb.isSome = true :=
        DedupManager.lmdb_isSome_assessedAll.trans hl
      have hitem : "" ∈ (DedupManager.queued (fun _ => "") m fs).map Prod.fst := by
        cases fs with
        | nil => exact absurd rfl hne
        | cons f fs =>
          rw [DedupManager.queued, hk]
          exact List.mem_cons_self
      rw [DedupManager.knows_storePersistentDedupBatch hl' hitem] at hbatch
      cases hbatch
    have hfeed : ∀ f ∈ fs, isFeedSource f = true := by
      by_contra h
      push Not at h
      obtain ⟨f, hf, hff⟩ := h
      have hmem := DedupManager.mem_keys_assessedAll_const m ""
        ⟨f, hf, Bool.eq_false_iff.2 hff⟩
      have hl' : (m.assessedAll true (fun _ => "") fs).lmdb = none := by
        rw [← Option.isNone_iff_eq_none, ← Option.isSome_eq_false_iff,
          DedupManager.lmdb_isSome_assessedAll, hlmdb]
        rfl
      rw [DedupManager.storePersistentDedupBatch_of_lmdb_none hl',
        DedupManager.knows_of_mem hmem] at hbatch
      cases hbatch
    refine ⟨hlmdb, hfeed, ?_⟩
    rw [(DedupManager.verdicts_of_feed _ _ hlmdb hfeed).1,
      (DedupManager.verdicts_of_feed _ _ hlmdb hfeed).1, List.map_inj_left] at hv
    intro fp hfp
    obtain ⟨f, hf, rfl⟩ := List.mem_map.1 hfp
    have h := hv f hf
    rw [hk, Bool.not_false] at h
    simpa using h.symm
  · rintro ⟨hlmdb, hfeed, hnew⟩
    obtain ⟨hv, ha⟩ := DedupManager.verdicts_of_feed true (fun _ => "") hlmdb hfeed
    obtain ⟨hv', ha'⟩ := DedupManager.verdicts_of_feed false (urlFingerprint q)
      hlmdb hfeed
    rw [RunsMatch, hv, ha, hv', ha', DedupManager.storePersistentDedupBatch_of_lmdb_none hlmdb]
    refine ⟨?_, fun _ => rfl⟩
    apply List.map_congr_left
    intro f hf
    rw [hk, hnew _ (List.mem_map_of_mem hf)]

private theorem knows_of_has {m : DedupManager cap} {s : GateStore cap} (h : Has (some m) s)
    (fp : String) : s.knows fp = m.knows fp := by
  rw [GateStore.knows, show s.dedupManager = some m from h]
  rfl

private theorem batchMatchesSingle_iff_runsMatch {m : DedupManager cap} {s : GateStore cap}
    (hs : Has (some m) s) {fs : List CanonicalFinding}
    (hurl : ∀ f ∈ fs, extractUrlFromProvenance f.provenance ≠ "") :
    BatchMatchesSingle q s fs ↔ RunsMatch q m fs := by
  obtain ⟨ds, t, hx, hd, ht⟩ := (ensures_batch (q := q) hurl).exists_returns hs
  obtain ⟨ds', u, hx', hd', hu⟩ := (ensures_singles (q := q) hurl).exists_returns hs
  rw [RunsMatch, ← hd, ← hd']
  constructor
  · rintro ⟨es, v, hy, es', w, hy', haccepted, hknown⟩
    rw [hx] at hy
    rw [hx'] at hy'
    cases hy
    cases hy'
    refine ⟨haccepted, ?_⟩
    intro fp
    rw [← knows_of_has ht, ← knows_of_has hu]
    exact hknown fp
  · rintro ⟨haccepted, hknown⟩
    refine ⟨ds, t, hx, ds', u, hx', haccepted, ?_⟩
    intro fp
    rw [knows_of_has ht, knows_of_has hu]
    exact hknown fp

private theorem plain_url_ne (url : String) (h : startsWith "http" url = true) : url ≠ "" := by
  rintro rfl
  revert h
  decide

private theorem length_plain_hash (text : String) : (if text = "https://a.example" then
    "11691b2f2d8c365bac2086756b59bcef" else "00000000000000000000000000000000").length = 32 := by
  split <;> decide

/-- The digest of the page is the real one, the others are not used. -/
def plainFunctions : QualityFunctions where
  normalizeForQuality := id
  computeEntropy _ := 4
  normalizeOsintUrl url := url
  blake2b text := if text = "https://a.example" then "11691b2f2d8c365bac2086756b59bcef"
    else "00000000000000000000000000000000"
  normalizeOsintUrl_ne := plain_url_ne
  length_blake2b := length_plain_hash

/-- A finding of the web with one URL. -/
def pageFinding (id : String) (url : String) : CanonicalFinding where
  findingId := id
  query := "q"
  sourceType := "web"
  provenance := [url]

private theorem store_cap_pos : 0 < 10000 := by decide

/-- A store with a persistent map that knows nothing. -/
def freshStore : GateStore 10000 where
  dedupManager := some { hotCache := .empty store_cap_pos, lmdb := some fun _ => none }

end Hledac.Knowledge.QualityGate
