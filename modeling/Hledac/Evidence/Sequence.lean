import Hledac.Evidence.Batch

/-!
# Sequence numbers

`append` numbers the events it stores; a batch stores its events without a number and moves only
the total count. So the numbers identify the stored events, and agree with the count that the
manifest reports, in runs whose batches store nothing.
-/

namespace Hledac.Evidence

open Hledac.Lib Hledac.Py Raising

variable {c : Codecs} {cfg : LogConfig}

/-- What `write_manifest` writes, if there is a persist path; `_log.py:4262-4287`. -/
def manifest (cfg : LogConfig) (warcPaths : List String) (s : EvidenceLog) :
    Option (List (String × PyVal)) :=
  cfg.persistPath.map fun path =>
    [("run_id", .str cfg.runId), ("chain_head", .str s.chainHead),
      ("total_count", .int s.totalCount), ("created_at", .str cfg.createdAt),
      ("last_seq_no", .int s.seq), ("persist_path", .str path),
      ("genesis_hash", .str (genesisHash cfg.runId))] ++
    if warcPaths.isEmpty then [] else [("warc_paths", .list (warcPaths.map .str))]

/-- Sequence numbers identify the stored events and agree with the total count. -/
structure SequenceOk (cfg : LogConfig) (s : EvidenceLog) : Prop where
  numbered : ∀ e ∈ s.history.stored, 1 ≤ e.seqNo
  increasing : s.history.stored.Pairwise fun e f => e.seqNo < f.seqNo
  counted : s.seq = s.totalCount
  manifest_eq : ∀ warcPaths m, manifest cfg warcPaths s = some m →
    m.lookup "last_seq_no" = m.lookup "total_count"

theorem lookup_manifest {warcPaths : List String} {s : EvidenceLog} {m : List (String × PyVal)}
    (h : manifest cfg warcPaths s = some m) :
    m.lookup "last_seq_no" = some (.int s.seq) ∧
      m.lookup "total_count" = some (.int s.totalCount) := by
  obtain ⟨path, _, rfl⟩ := Option.map_eq_some_iff.1 h
  exact ⟨rfl, rfl⟩

theorem SequenceOk.of_counted {s : EvidenceLog}
    (hn : ∀ e ∈ s.history.stored, 1 ≤ e.seqNo)
    (hi : s.history.stored.Pairwise fun e f => e.seqNo < f.seqNo)
    (hc : s.seq = s.totalCount) : SequenceOk cfg s := by
  refine ⟨hn, hi, hc, fun warcPaths m hm => ?_⟩
  obtain ⟨hs, ht⟩ := lookup_manifest hm
  rw [hs, ht, hc]

theorem sequenceOk_fresh : SequenceOk cfg (EvidenceLog.fresh cfg) :=
  .of_counted (by simp [EvidenceLog.fresh]) (by simp [EvidenceLog.fresh]) rfl

/-! ### No number beyond the counter -/

/-- No stored event has a number beyond the counter. -/
def SeqBounded (s : EvidenceLog) : Prop := ∀ e ∈ s.history.stored, e.seqNo ≤ s.seq

private theorem seqBounded_batchLoop (items : List BatchItem) {s : EvidenceLog}
    (h : SeqBounded s) (head : String) :
    SeqBounded (exec (batchLoop c cfg items head) s).2 ∧
      (exec (batchLoop c cfg items head) s).2.seq = s.seq := by
  let I : EvidenceLog → String → Prop := fun t _ => SeqBounded t ∧ t.seq = s.seq
  have hstep : ∀ t head, ∀ item ∈ items, ∀ event, I t head →
      buildBatchEvent c cfg item = .ok event →
        I (exec (updateIndexes (event.link head)) (t.digest head event)).2
          (computeChainHash head event.contentHash event.eventId) := by
    rintro t head item - event ⟨hb, hseq⟩ he
    refine ⟨fun e hmem => ?_, (seq_updateIndexes _ _).trans hseq⟩
    rw [seq_updateIndexes]
    rw [history_updateIndexes] at hmem
    rcases List.mem_append.1 hmem with hmem | hmem
    · exact hb e hmem
    · rw [List.mem_singleton.1 hmem]
      show event.seqNo ≤ t.seq
      have hz : event.seqNo = 0 := (buildBatchEvent_spec he).2.1
      omega
  obtain ⟨_, hI, _⟩ := batchLoop_invariant c cfg items hstep s head ⟨h, rfl⟩
  exact hI

theorem seqBounded_step {s : EvidenceLog} (h : SeqBounded s) (op : Op) :
    SeqBounded (step c cfg s op) := by
  by_cases hb : op.IsBatch
  · cases op with
    | createEventsBatch env items =>
      show SeqBounded (exec (createEventsBatch c cfg env items) s).2
      by_cases hearly : StopsEarly cfg env items
      · rw [exec_of_stopsEarly hearly]
        exact h
      · obtain ⟨hseq, _, hst⟩ := createEventsBatch_frame (c := c) hearly s
        intro e he
        rw [hst] at he
        rw [hseq]
        exact (seqBounded_batchLoop items h s.chainHead).1 e he
    | _ => exact absurd hb id
  have hweak : ∀ t : EvidenceLog, t.history.stored = s.history.stored → s.seq ≤ t.seq →
      SeqBounded t := by
    intro t hst hseq e he
    rw [hst] at he
    have := h e he
    omega
  refine step_append_invariant hb h (fun _ => hweak _ rfl (Nat.le_succ _)) (fun _ _ => hweak _
    (by rw [delivered_eq]; rfl) (by rw [delivered_eq]; exact Nat.le_succ _)) fun env event contentHash _ e he => ?_
  rw [seq_updateIndexes, seq_relinked]
  rw [history_updateIndexes, history_relinked, delivered_eq] at he
  rcases List.mem_append.1 he with he | he
  · have := h e he
    omega
  · rw [List.mem_singleton.1 he]
    show ((s.seq + 1 : Nat) : Int) ≤ _
    exact le_rfl

/-! ### When the numbers agree with the count -/

/-- The call keeps the numbers and the count together: an event that `append` accepts also gets
past the channels and has a hash once trimmed; a batch stops early, is all sampled out, or fails
on its first kept tuple. -/
def Counts (c : Codecs) (cfg : LogConfig) (s : EvidenceLog) : Op → Prop
  | .createEventsBatch env items =>
    StopsEarly cfg env items ∨ keptItems cfg items = [] ∨ FailsFirst c cfg items
  | op => ∀ env event, op.appends c cfg = some (env, event) → Accepted cfg env event →
      Handed c cfg env (s.linkedEvent event) ∧ ∃ contentHash, rehash c event = .ok contentHash

private theorem totalCount_lt_batchLoop {items rest : List BatchItem} {item : BatchItem}
    {event : EvidenceEvent} (hk : keptItems cfg items = item :: rest)
    (hb : buildBatchEvent c cfg item = .ok event) (head : String) (s : EvidenceLog) :
    s.totalCount < (exec (batchLoop c cfg items head) s).2.totalCount := by
  have hs : ¬ sampledOut cfg item.draw item.eventType = true :=
    not_sampledOut_of_mem_keptItems items item (by rw [hk]; simp)
  have htot : (exec (updateIndexes (event.link head)) (s.digest head event)).2.totalCount =
      s.totalCount + 1 := totalCount_updateIndexes _ _
  rw [exec_batchLoop_keptItems, hk]
  rcases hu : exec (updateIndexes (event.link head)) (s.digest head event) with ⟨err | _, t⟩
  · rw [exec_batchLoop_raise hs hb hu]
    rw [hu] at htot
    simp only at htot ⊢
    omega
  · rw [exec_batchLoop_cons hs hb hu]
    rw [hu] at htot
    have hle := totalCount_batchLoop_le c cfg rest
      (computeChainHash head event.contentHash event.eventId) t
    simp only at htot ⊢
    omega

/-- A batch keeps the numbers and the count together exactly when it stores nothing. -/
theorem sequenceOk_batch_iff {env : BatchEnv} {items : List BatchItem} {s : EvidenceLog}
    (hbound : SeqBounded s) (h : SequenceOk cfg s) :
    SequenceOk cfg (exec (createEventsBatch c cfg env items) s).2 ↔
      Counts c cfg s (.createEventsBatch env items) := by
  by_cases hearly : StopsEarly cfg env items
  · refine iff_of_true ?_ (.inl hearly)
    rw [exec_of_stopsEarly hearly]
    exact h
  obtain ⟨hseq, htot, hst⟩ := createEventsBatch_frame (c := c) hearly s
  have hkeep : exec (batchLoop c cfg items s.chainHead) s =
      ((exec (batchLoop c cfg items s.chainHead) s).1, s) →
      SequenceOk cfg (exec (createEventsBatch c cfg env items) s).2 := by
    intro hl
    rw [hl] at hseq htot hst
    exact .of_counted (by rw [hst]; exact h.numbered) (by rw [hst]; exact h.increasing)
      (by rw [hseq, htot]; exact h.counted)
  cases hk : keptItems cfg items with
  | nil =>
    refine iff_of_true (hkeep ?_) (.inr (.inl hk))
    rw [exec_batchLoop_keptItems, hk]
    rfl
  | cons item rest =>
    have hs : ¬ sampledOut cfg item.draw item.eventType = true :=
      not_sampledOut_of_mem_keptItems items item (by rw [hk]; simp)
    cases hb : buildBatchEvent c cfg item with
    | error err =>
      refine iff_of_true (hkeep ?_) (.inr (.inr ⟨item, rest, err, hk, hb⟩))
      rw [exec_batchLoop_keptItems, hk, exec_batchLoop_fail hs hb]
    | ok event =>
      -- the event is stored and counted, without a number
      apply iff_of_false
      · intro hok
        have hlt := totalCount_lt_batchLoop hk hb s.chainHead s
        have hcount := hok.counted
        rw [hseq, htot, (seqBounded_batchLoop items hbound s.chainHead).2, h.counted] at hcount
        omega
      · rintro (he | hnil | ⟨first, rest', err, hk', hb'⟩)
        · exact hearly he
        · rw [hk] at hnil
          cases hnil
        · rw [hk] at hk'
          obtain ⟨rfl, _⟩ := List.cons.inj hk'
          rw [hb] at hb'
          cases hb'

/-- Any other call does so exactly when an accepted event gets stored. -/
theorem sequenceOk_append_iff {s : EvidenceLog} (hbound : SeqBounded s) (h : SequenceOk cfg s)
    {op : Op} (hb : ¬ op.IsBatch) :
    SequenceOk cfg (step c cfg s op) ↔
      ∀ env event, op.appends c cfg = some (env, event) → Accepted cfg env event →
        Handed c cfg env (s.linkedEvent event) ∧
          ∃ contentHash, rehash c event = .ok contentHash := by
  -- a call that stops after it has taken a number leaves the count behind
  have hfail : ∀ t : EvidenceLog, t.seq = s.seq + 1 → t.totalCount = s.totalCount →
      ¬ SequenceOk cfg t := by
    intro t hseq htot hok
    have hcount := hok.counted
    rw [hseq, htot, h.counted] at hcount
    omega
  rcases step_append_cases c cfg op hb s with
    ⟨hn, hx⟩ | ⟨env, event, ha, hv, ⟨hh, hx⟩ | ⟨hh, ⟨err, hr⟩, hx⟩ | ⟨hh, contentHash, hr, hx⟩⟩
  · refine iff_of_true (by rw [hx]; exact h) fun env event ha hv => ?_
    exact absurd hv (hn env event ha)
  · refine iff_of_false (hfail _ (by rw [hx]; rfl) (by rw [hx]; rfl)) fun hall => ?_
    exact hh (hall env event ha hv).1
  · refine iff_of_false (hfail _ (by rw [hx, delivered_eq]; rfl) (by rw [hx, delivered_eq]; rfl))
      fun hall => ?_
    obtain ⟨contentHash, hr'⟩ := (hall env event ha hv).2
    rw [hr] at hr'
    cases hr'
  · apply iff_of_true
    · have hst : (step c cfg s op).history.stored =
          s.history.stored ++ [s.storedEvent c event contentHash] := by
        rw [hx, history_updateIndexes, history_relinked, delivered_eq]
        rfl
      have hnum : (s.storedEvent c event contentHash).seqNo = ((s.seq + 1 : Nat) : Int) := rfl
      apply SequenceOk.of_counted
      · rw [hst]
        intro e he
        rcases List.mem_append.1 he with he | he
        · exact h.numbered e he
        · rw [List.mem_singleton.1 he, hnum]
          omega
      · rw [hst]
        refine List.pairwise_append.2 ⟨h.increasing, List.pairwise_singleton _ _, ?_⟩
        intro e he f hf
        rw [List.mem_singleton.1 hf, hnum]
        have := hbound e he
        omega
      · rw [hx, seq_updateIndexes, totalCount_updateIndexes, seq_relinked, totalCount_relinked,
          h.counted]
    · intro env' event' ha' _
      cases ha.symm.trans ha'
      exact ⟨hh, contentHash, hr⟩

/-- Throughout a run, the numbers of the stored events are positive and strictly increasing and the
counter agrees with the total count, exactly when every call keeps them together. -/
theorem sequenceOk_run_iff (c : Codecs) (cfg : LogConfig) (ops : List Op) :
    (∀ pre, pre <+: ops → SequenceOk cfg (run c cfg pre)) ↔
      StepsMeet (step c cfg) (Counts c cfg) (EvidenceLog.fresh cfg) ops := by
  have hstep : ∀ s op, SeqBounded s → SequenceOk cfg s →
      (SequenceOk cfg (step c cfg s op) ↔ Counts c cfg s op) := by
    intro s op hbound h
    cases op with
    | createEventsBatch env items => exact sequenceOk_batch_iff hbound h
    | _ => exact sequenceOk_append_iff hbound h id
  have hfresh : SeqBounded (EvidenceLog.fresh cfg) := by simp [SeqBounded, EvidenceLog.fresh]
  exact forall_prefix_iff_stepsMeet (fun s op h => seqBounded_step h op) hstep hfresh
    sequenceOk_fresh ops

/-- A batch of one event leaves it without a number and the counter behind the total count. -/
theorem not_sequenceOk_batch :
    let cfg : LogConfig := { runId := "r" }
    let ops : List Op := [.createEventsBatch {}
      [{ eventType := "tool_call", payload := [], now := 1700000000, hex := "0123456789ab" }]]
    ¬ ∀ pre, pre <+: ops → SequenceOk cfg (run plainCodecs cfg pre) := by
  intro cfg ops h
  have hcount := (h ops (List.prefix_refl _)).counted
  revert hcount
  decide +kernel

end Hledac.Evidence
