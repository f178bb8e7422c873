import Hledac.Knowledge.ArrowBuilders

/-!
# What the Arrow builders hand over

The paths that insert what they build hand over scrubbed payloads or nothing. The builders that only build do not
scrub, so that a batch that was built in parallel is as it should be only where scrubbing changes none of its texts.
-/

namespace Hledac.Knowledge

open Hledac.Lib Hledac.Lib.Raising

namespace ArrowPaths

/-! ### The insert paths -/

/-- However the computation ends, it leaves `R` behind. -/
def Leaves {α : Type} (P : List ArrowBatch → Prop) (x : ArrowM α) (R : List ArrowBatch → Prop) : Prop :=
  Ensures P x (fun _ => R) fun _ => R

variable {k : ArrowPaths} {P R : List ArrowBatch → Prop} {batch : ArrowBatch} {findings : List CanonicalFinding}

theorem leaves_return {α : Type} (a : α) (h : ∀ s, P s → R s) : Leaves P (pure a) R :=
  ensures_pure h

theorem leaves_throw {α : Type} (e : StoreError) (h : ∀ s, P s → R s) : Leaves P (throw e : ArrowM α) R :=
  ensures_throw h

theorem leaves_ofExcept {α : Type} (x : Except StoreError α) : Leaves P (Raising.ofExcept x) P :=
  ensures_ofExcept (fun _ _ _ hs => hs) fun _ _ _ hs => hs

theorem Leaves.bind {α β : Type} {Q : List ArrowBatch → Prop} {x : ArrowM α} {f : α → ArrowM β}
    (hx : Leaves P x Q) (hQ : ∀ s, Q s → R s) (hf : ∀ a, Leaves Q (f a) R) : Leaves P (x >>= f) R := by
  apply Ensures.bind (R := fun _ => Q) _ hf
  exact hx.imp (fun _ hs => hs) (fun _ _ hs => hs) fun _ s hs => hQ s hs

theorem leaves_hand (tier : InsertTier) (h : ∀ s, P s → R (s ++ [batch])) : Leaves P (k.hand tier batch) R := by
  apply Ensures.bind (R := fun _ => R) (ensures_modify h)
  intro _
  apply Ensures.bind (R := fun _ => R) (ensures_get fun _ hs => hs)
  intro handed
  exact leaves_ofExcept _

theorem Leaves.orNext {path next : ArrowM InsertResult} (hpath : Leaves P path R) (hnext : Leaves R next R) :
    Leaves P (orNext path next) R := by
  apply hpath.bind fun _ hs => hs
  intro result
  split
  · exact leaves_return result fun _ hs => hs
  · exact hnext

theorem leaves_qeInsertBatch (n : Nat) (hfirst : ∀ s, P s → R (s ++ [batch])) (hagain : ∀ s, R s → R (s ++ [batch])) :
    Leaves P (k.qeInsertBatch batch n) R := by
  apply (leaves_hand .copyArrow hfirst).orNext
  split
  · exact (leaves_hand .parquet hagain).orNext (leaves_hand .mergeArrow hagain)
  · exact leaves_hand .mergeArrow hagain

theorem leaves_insertBatch (n : Nat) (hfirst : ∀ s, P s → R (s ++ [batch])) (hagain : ∀ s, R s → R (s ++ [batch])) :
    Leaves P (k.insertBatch batch n) R := by
  apply (leaves_qeInsertBatch n hfirst hagain).bind fun _ hs => hs
  intro result
  exact leaves_return _ fun _ hs => hs

theorem Leaves.exceptStopIteration {x : ArrowM InsertResult} (h : Leaves P x R) :
    Leaves P (exceptStopIteration x) R := by
  apply Ensures.tryCatch (R := fun _ => R) h
  intro e
  split
  · exact leaves_return _ fun _ hs => hs
  · exact leaves_throw e fun _ hs => hs

/-! ### The builders that insert -/

/-- The payload column that the findings should have. -/
def scrubbedColumn (k : ArrowPaths) (findings : List CanonicalFinding) : List String :=
  findings.map fun f => k.scrubPayload f.payloadText

/-- Everything handed over has the payload column of the findings. -/
def AllScrubbed (k : ArrowPaths) (findings : List CanonicalFinding) (handed : List ArrowBatch) : Prop :=
  ∀ batch ∈ handed, batch.payloadText = k.scrubbedColumn findings

theorem AllScrubbed.append {handed : List ArrowBatch} (h : k.AllScrubbed findings handed)
    (hbatch : batch.payloadText = k.scrubbedColumn findings) : k.AllScrubbed findings (handed ++ [batch]) := by
  intro b hb
  rcases List.mem_append.1 hb with hb | hb
  · exact h b hb
  · rw [List.mem_singleton.1 hb]
    exact hbatch

theorem leaves_scrubbed (n : Nat) (hbatch : batch.payloadText = k.scrubbedColumn findings) :
    Leaves (k.AllScrubbed findings) (k.insertBatch batch n) (k.AllScrubbed findings) :=
  leaves_insertBatch n (fun _ hs => hs.append hbatch) fun _ hs => hs.append hbatch

theorem arrowIpcToRecordBatch_payloadText {ipcBytes : IpcBytes}
    (h : k.arrowIpcToRecordBatch ipcBytes = .ok (some batch)) : batch = ⟨.recordBatch, ipcBytes⟩ := by
  unfold arrowIpcToRecordBatch at h
  split at h
  · cases h
  · split at h
    · exact (Option.some.inj (Except.ok.inj h)).symm
    · cases h

theorem buildIpcBytes_eq_some {payloadTexts : List String} {warc : Nat} {ipcBytes : IpcBytes}
    (h : k.buildIpcBytes payloadTexts warc = some ipcBytes) : ipcBytes = payloadTexts := by
  unfold buildIpcBytes at h
  split at h
  · exact (Option.some.inj h).symm
  · cases h

theorem buildRecordBatchFromFindings_eq_ok {payloadTexts : List String} {claims : Option (List String)}
    {ipcBytes : IpcBytes} (hne : ipcBytes ≠ [])
    (h : k.buildRecordBatchFromFindings findings payloadTexts claims = .ok (some ipcBytes)) :
    ipcBytes = payloadTexts := by
  unfold buildRecordBatchFromFindings at h
  cases claims with
  | none => cases h
  | some claims =>
    simp only at h
    split at h
    · exact absurd (Option.some.inj (Except.ok.inj h)).symm hne
    · split at h
      · cases h
      · split at h
        · cases h
        · exact buildIpcBytes_eq_some (Except.ok.inj h)

theorem buildArrowBatchFromFindings_eq_some {items : List RustItem} {ipcBytes : IpcBytes} (hne : ipcBytes ≠ [])
    (h : k.buildArrowBatchFromFindings items = some ipcBytes) : ipcBytes = items.map (·.payloadText) := by
  unfold buildArrowBatchFromFindings at h
  split at h
  · exact absurd (Option.some.inj h).symm hne
  · split at h
    · cases h
    · exact buildIpcBytes_eq_some h

theorem leaves_ipc {ipcBytes : IpcBytes} (hipc : ipcBytes = k.scrubbedColumn findings)
    {f : Option ArrowBatch → ArrowM InsertResult}
    (hnone : Leaves (k.AllScrubbed findings) (f none) (k.AllScrubbed findings))
    (hsome : ∀ batch, batch.payloadText = k.scrubbedColumn findings →
      Leaves (k.AllScrubbed findings) (f (some batch)) (k.AllScrubbed findings)) :
    Leaves (k.AllScrubbed findings) (Raising.ofExcept (k.arrowIpcToRecordBatch ipcBytes) >>= f)
      (k.AllScrubbed findings) := by
  apply Ensures.bind (R := fun read s => k.AllScrubbed findings s ∧
    ∀ batch, read = some batch → batch.payloadText = k.scrubbedColumn findings)
  · apply ensures_ofExcept
    · intro read s hread hs
      refine ⟨hs, ?_⟩
      rintro batch rfl
      rw [arrowIpcToRecordBatch_payloadText hread]
      exact hipc
    · intro _ _ _ hs
      exact hs
  · rintro read s ⟨hs, hread⟩
    cases read with
    | none => exact hnone s hs
    | some batch => exact hsome batch (hread batch rfl) s hs

theorem leaves_arrowInsertRustFindings (findingsDicts : Option (List EnrichedDict)) :
    Leaves (k.AllScrubbed findings) (k.arrowInsertRustFindings findings findingsDicts)
      (k.AllScrubbed findings) := by
  unfold arrowInsertRustFindings
  split
  · exact leaves_return _ fun _ hs => hs
  · split
    · exact leaves_return _ fun _ hs => hs
    · exact leaves_return _ fun _ hs => hs
    · next ipcBytes hbuilt =>
      split
      · exact leaves_return _ fun _ hs => hs
      · next hne =>
        apply leaves_ipc (buildRecordBatchFromFindings_eq_ok hne hbuilt)
        · exact (leaves_ofExcept moduleLogging).bind (fun _ hs => hs) fun _ => leaves_return _ fun _ hs => hs
        · intro batch hbatch
          exact (leaves_scrubbed findings.length hbatch).exceptStopIteration

theorem leaves_arrowInsertRustCols : Leaves P (k.arrowInsertRustCols findings none) P :=
  leaves_throw _ fun _ hs => hs

theorem leaves_arrowInsertRustDict :
    Leaves (k.AllScrubbed findings) (k.arrowInsertRustDict findings none) (k.AllScrubbed findings) := by
  have hcolumn : ((k.rustDicts findings none).map RustItem.dict).map (·.payloadText) = k.scrubbedColumn findings := by
    simp only [rustDicts, scrubbedColumn, List.map_map]
    rfl
  unfold arrowInsertRustDict
  split
  · exact leaves_return _ fun _ hs => hs
  · next ipcBytes hbuilt =>
    split
    · exact leaves_return _ fun _ hs => hs
    · next hne =>
      apply leaves_ipc ((buildArrowBatchFromFindings_eq_some hne hbuilt).trans hcolumn)
      · exact leaves_return _ fun _ hs => hs
      · intro batch hbatch
        exact leaves_scrubbed findings.length hbatch

theorem leaves_arrowInsertPython :
    Leaves (k.AllScrubbed findings) (k.arrowInsertPython findings none) (k.AllScrubbed findings) :=
  leaves_scrubbed findings.length rfl

theorem leaves_tryInsert {available : Bool} {path next : ArrowM InsertResult}
    (hpath : Leaves P path P) (hnext : Leaves P next P) : Leaves P (tryInsert available path next) P := by
  unfold tryInsert
  split
  · exact hpath.orNext hnext
  · exact hnext

theorem allScrubbed_handed (hparallel : k.buildArrowBatchParallel findings = none) :
    k.AllScrubbed findings (k.handed findings) := by
  have hleaves : Leaves (k.AllScrubbed findings) (k.syncRecordCanonicalFindingsBatchArrow findings)
      (k.AllScrubbed findings) := by
    unfold syncRecordCanonicalFindingsBatchArrow
    split
    · exact leaves_return _ fun _ hs => hs
    · split
      · exact leaves_return _ fun _ hs => hs
      · rw [hparallel]
        cases hdicts : k.findingsDicts with
        | error e => exact leaves_throw e fun _ hs => hs
        | ok dicts =>
          have hnone : dicts = none := by
            unfold findingsDicts at hdicts
            split at hdicts
            · cases hdicts
            · exact (Except.ok.inj hdicts).symm
          rw [hnone]
          exact leaves_tryInsert (leaves_arrowInsertRustFindings none) <|
            leaves_tryInsert leaves_arrowInsertRustCols <|
              leaves_tryInsert leaves_arrowInsertRustDict leaves_arrowInsertPython
  exact hleaves.final fun batch hbatch => absurd hbatch List.not_mem_nil

theorem forall_mem_handed_iff (hpyarrow : k.pyarrow = true) (hclaims : k.claimsEnabled = false)
    (hne : findings ≠ []) {totalRows : Nat}
    (hparallel : k.buildArrowBatchParallel findings = some (batch, totalRows)) :
    k.AllScrubbed findings (k.handed findings) ↔ batch.payloadText = k.scrubbedColumn findings := by
  have hleaves : Leaves (· = []) (k.syncRecordCanonicalFindingsBatchArrow findings)
      fun s => batch ∈ s ∧ ∀ b ∈ s, b = batch := by
    rw [syncRecordCanonicalFindingsBatchArrow, if_neg hne, hpyarrow, hparallel, findingsDicts, hclaims]
    apply (leaves_insertBatch totalRows _ _).exceptStopIteration
    · rintro s rfl
      exact ⟨List.mem_singleton_self batch, fun b hb => List.mem_singleton.1 hb⟩
    · rintro s ⟨_, hs⟩
      refine ⟨List.mem_append_right s (List.mem_singleton_self batch), ?_⟩
      intro b hb
      rcases List.mem_append.1 hb with hb | hb
      · exact hs b hb
      · exact List.mem_singleton.1 hb
  obtain ⟨hmem, honly⟩ := hleaves.final rfl
  constructor
  · intro hscrubbed
    exact hscrubbed batch hmem
  · intro hbatch b hb
    rw [honly b hb]
    exact hbatch

/-! ### The builders that only build -/

/-- The builder of tables builds one of the sub-batch: there are findings enough, and the provenance column of the
findings it takes can be built. -/
def BuilderBuilds (k : ArrowPaths) (sub : List CanonicalFinding) : Prop :=
  5 ≤ sub.length ∧ ∀ f ∈ sub.take k.chunkSize, f.provenance = [] ∨ (k.tupleText f.provenance).isSome

instance (k : ArrowPaths) (sub : List CanonicalFinding) : Decidable (k.BuilderBuilds sub) :=
  inferInstanceAs (Decidable (_ ∧ _))

/-- What a sub-batch becomes. -/
def subBatchKind (k : ArrowPaths) (sub : List CanonicalFinding) : ArrowKind :=
  if k.rustDict then .recordBatch else if k.BuilderBuilds sub then .table else .recordBatch

/-- The payload column of a sub-batch. -/
def subBatchColumn (k : ArrowPaths) (sub : List CanonicalFinding) : List String :=
  if k.rustDict then sub.map fun _ => ""
  else if k.BuilderBuilds sub then (sub.take k.chunkSize).map (·.rawPayload)
  else sub.map (·.rawPayload)

/-- A sub-batch whose payload column is the scrubbed one all the same: the extension leaves the column empty, and the
other builders neither scrub nor, where `chunk_size` is less than the sub-batch, take all findings. -/
def Untouched (k : ArrowPaths) (sub : List CanonicalFinding) : Prop :=
  if k.rustDict then ∀ f ∈ sub, k.scrubPayload f.payloadText = ""
  else (k.BuilderBuilds sub → sub.length ≤ k.chunkSize) ∧ ∀ f ∈ sub, k.scrubPayload f.payloadText = f.rawPayload

theorem length_subBatchColumn_le (sub : List CanonicalFinding) : (k.subBatchColumn sub).length ≤ sub.length := by
  unfold subBatchColumn
  split
  · exact Nat.le_of_eq (List.length_map _)
  · split
    · rw [List.length_map, List.length_take]
      omega
    · exact Nat.le_of_eq (List.length_map _)

theorem subBatchColumn_eq_iff (sub : List CanonicalFinding) :
    k.subBatchColumn sub = k.scrubbedColumn sub ↔ k.Untouched sub := by
  unfold subBatchColumn Untouched scrubbedColumn
  split
  · rw [List.map_inj_left]
    exact forall₂_congr fun f _ => eq_comm
  · split
    · next hbuilds =>
      constructor
      · intro heq
        have hlength := congrArg List.length heq
        simp only [List.length_map, List.length_take] at hlength
        have hle : sub.length ≤ k.chunkSize := by omega
        rw [List.take_of_length_le hle, List.map_inj_left] at heq
        exact ⟨fun _ => hle, fun f hf => (heq f hf).symm⟩
      · rintro ⟨hle, hsame⟩
        rw [List.take_of_length_le (hle hbuilds), List.map_inj_left]
        exact fun f hf => (hsame f hf).symm
    · next hbuilds =>
      rw [List.map_inj_left]
      constructor
      · intro hsame
        exact ⟨fun h => absurd h hbuilds, fun f hf => (hsame f hf).symm⟩
      · rintro ⟨_, hsame⟩ f hf
        exact (hsame f hf).symm

theorem tryPyarrowBatch_eq (sub : List CanonicalFinding) (h : 5 ≤ sub.length) :
    (k.tryPyarrowBatch (sub.take k.chunkSize)).toOption =
      if k.BuilderBuilds sub then some ⟨.table, (sub.take k.chunkSize).map (·.rawPayload)⟩ else none := by
  unfold tryPyarrowBatch
  have hiff : ((sub.take k.chunkSize).all fun f => f.provenance = [] || (k.tupleText f.provenance).isSome) = true ↔
      k.BuilderBuilds sub := by
    simp only [List.all_eq_true, Bool.or_eq_true, decide_eq_true_eq, BuilderBuilds, h, true_and]
  by_cases hbuilds : k.BuilderBuilds sub
  · rw [if_pos (hiff.2 hbuilds), if_pos hbuilds]
    rfl
  · rw [if_neg fun hall => hbuilds (hiff.1 hall), if_neg hbuilds]
    rfl

theorem arrowBuildPython_eq {sub : List CanonicalFinding} (hne : sub ≠ []) (hrust : k.rustDict = false) :
    k.arrowBuildPython sub none = .ok (some ⟨k.subBatchKind sub, k.subBatchColumn sub⟩) := by
  unfold arrowBuildPython buildArrowBatch subBatchKind subBatchColumn
  rw [hrust, if_neg hne, if_neg hne]
  by_cases hlength : sub.length < 5
  · have hbuilds : ¬ k.BuilderBuilds sub := fun h => absurd h.1 (by omega)
    rw [if_pos hlength, if_neg hbuilds, if_neg hbuilds]
    rfl
  · have htable := k.tryPyarrowBatch_eq sub (by omega)
    rw [if_neg hlength]
    cases hbuilt : k.tryPyarrowBatch (sub.take k.chunkSize) with
    | error e =>
      rw [hbuilt] at htable
      have hbuilds : ¬ k.BuilderBuilds sub := by
        intro h
        rw [if_pos h] at htable
        cases htable
      rw [if_neg hbuilds, if_neg hbuilds]
      rfl
    | ok table =>
      rw [hbuilt] at htable
      have hbuilds : k.BuilderBuilds sub := by
        by_contra h
        rw [if_neg h] at htable
        cases htable
      rw [if_pos hbuilds] at htable
      rw [if_pos hbuilds, if_pos hbuilds, Option.some.inj htable]
      rfl

theorem buildArrowBatchFromFindings_struct {sub : List CanonicalFinding} (hne : sub ≠ [])
    (hlength : sub.length ≤ maxFindingsPerCall) :
    k.buildArrowBatchFromFindings (sub.map .struct) = some (sub.map fun _ => "") := by
  have hpos : sub.length ≠ 0 := fun h => hne (List.length_eq_zero_iff.1 h)
  have hlengths : k.tryNew (List.replicate 8 sub.length ++ List.replicate 5 sub.length) = true := by
    rw [List.replicate_append_replicate]
    exact k.tryNew_replicate _ _
  have hcolumn : (sub.map RustItem.struct).map (·.payloadText) = sub.map fun _ => "" := by
    rw [List.map_map]
    rfl
  rw [buildArrowBatchFromFindings, List.length_map, if_neg hpos, if_neg (by omega), hcolumn, buildIpcBytes,
    List.length_map, if_pos hlengths]

theorem arrowBuildRustFindings_eq (sub : List CanonicalFinding) : k.arrowBuildRustFindings sub none = .ok none := by
  unfold arrowBuildRustFindings
  split <;> rfl

theorem arrowBuildRustCols_eq (sub : List CanonicalFinding) : k.arrowBuildRustCols sub none = .ok none := by
  unfold arrowBuildRustCols
  split <;> rfl

theorem tryBuild_none (available : Bool) (next : BuildOutcome) : tryBuild available (.ok none) next = next := by
  cases available <;> rfl

theorem buildArrowTableOnly_eq (hpyarrow : k.pyarrow = true) (hclaims : k.claimsEnabled = false)
    {sub : List CanonicalFinding} (hne : sub ≠ []) (hlength : sub.length ≤ maxFindingsPerCall) :
    k.buildArrowTableOnly sub =
      if k.rustDict = true ∧ k.readRecordBatch = false then .error (.nameError "_logging")
      else .ok (some ⟨k.subBatchKind sub, k.subBatchColumn sub⟩) := by
  have hdicts : k.findingsDicts = .ok none := by
    rw [findingsDicts, hclaims]
    rfl
  have hnonempty : (sub.map fun _ => "") ≠ [] := by simpa using hne
  rw [buildArrowTableOnly, if_neg hne, hpyarrow, hdicts]
  show tryBuild _ (k.arrowBuildRustFindings sub none) (tryBuild _ (k.arrowBuildRustCols sub none) _) = _
  rw [arrowBuildRustFindings_eq, tryBuild_none, arrowBuildRustCols_eq, tryBuild_none]
  cases hrust : k.rustDict with
  | false =>
    rw [if_neg (by simp), arrowBuildPython_eq hne hrust]
    rfl
  | true =>
    rw [arrowBuildRustDict, if_neg hne, buildArrowBatchFromFindings_struct hne hlength, subBatchKind,
      subBatchColumn, hrust]
    simp only [if_neg hnonempty, arrowIpcToRecordBatch]
    cases k.readRecordBatch <;> rfl

/-! ### The batch that is built in parallel -/

/-- The batch is built in parallel: there are findings enough for two sub-batches, the streams of the extension can be
read where it builds them, and the tables can be concatenated. -/
def GoesParallel (k : ArrowPaths) (findings : List CanonicalFinding) : Prop :=
  k.parallelArrowMinBatch ≤ findings.length ∧ 1 < (chunks parallelArrowSubBatch findings).length ∧
    (k.rustDict = true → k.readRecordBatch = true) ∧
      k.concatTables ((chunks parallelArrowSubBatch findings).map k.subBatchKind) = true

theorem sorted_tables {outcomes : List BuildOutcome} {tables : List ArrowBatch}
    (h : outcomes = tables.map fun table => .ok (some table)) :
    ((k.asCompleted outcomes.zipIdx).filterMap built).mergeSort (fun a b => decide (a.2 ≤ b.2)) = tables.zipIdx := by
  have hsource : outcomes.zipIdx.filterMap built = tables.zipIdx := by
    rw [h, List.zipIdx_map, List.filterMap_map]
    exact List.filterMap_some
  apply mergeSort_eq_zipIdx
  exact ((k.asCompleted_perm outcomes.zipIdx).filterMap built).trans (.of_eq hsource)

theorem map_fst_zipIdx {α β : Type} (f : α → β) (xs : List α) : (xs.zipIdx.map fun p => f p.1) = xs.map f := by
  show xs.zipIdx.map (f ∘ Prod.fst) = _
  rw [← List.map_map, List.zipIdx_map_fst]

theorem length_subBatch_le {sub : List CanonicalFinding} (h : sub ∈ chunks parallelArrowSubBatch findings) :
    sub.length ≤ maxFindingsPerCall :=
  (length_le_of_mem_chunks h).trans (by decide)

theorem futures_eq :
    ((chunks parallelArrowSubBatch findings).zipIdx.map fun sub => (k.buildArrowTableOnly sub.1, sub.2)) =
      ((chunks parallelArrowSubBatch findings).map k.buildArrowTableOnly).zipIdx := by
  rw [List.zipIdx_map]
  rfl

theorem buildArrowBatchParallel_of_built (hpyarrow : k.pyarrow = true) (hclaims : k.claimsEnabled = false)
    (hleast : k.parallelArrowMinBatch ≤ findings.length)
    (hcount : 1 < (chunks parallelArrowSubBatch findings).length)
    (hread : k.rustDict = true → k.readRecordBatch = true) :
    k.buildArrowBatchParallel findings =
      if k.concatTables ((chunks parallelArrowSubBatch findings).map k.subBatchKind) then
        some (⟨.table, ((chunks parallelArrowSubBatch findings).map k.subBatchColumn).flatten⟩,
          ((chunks parallelArrowSubBatch findings).map fun sub => (k.subBatchColumn sub).length).sum)
      else none := by
  have houtcomes : (chunks parallelArrowSubBatch findings).map k.buildArrowTableOnly =
      ((chunks parallelArrowSubBatch findings).map fun sub =>
        (⟨k.subBatchKind sub, k.subBatchColumn sub⟩ : ArrowBatch)).map fun table => .ok (some table) := by
    rw [List.map_map]
    apply List.map_congr_left
    intro sub hsub
    have hnot : ¬ (k.rustDict = true ∧ k.readRecordBatch = false) := by
      rintro ⟨hrust, hunread⟩
      rw [hread hrust] at hunread
      cases hunread
    rw [buildArrowTableOnly_eq hpyarrow hclaims (ne_nil_of_mem_chunks (by decide) hsub) (length_subBatch_le hsub),
      if_neg hnot]
    rfl
  have hbuilt : ((k.asCompleted ((chunks parallelArrowSubBatch findings).map k.buildArrowTableOnly).zipIdx).any
      fun future => (built future).isNone) = false := by
    rw [List.any_eq_false]
    intro future hfuture
    have hmem := (k.asCompleted_perm _).mem_iff.1 hfuture
    rw [houtcomes, List.zipIdx_map] at hmem
    obtain ⟨⟨table, idx⟩, _, rfl⟩ := List.mem_map.1 hmem
    exact Bool.false_ne_true
  have htables := sorted_tables (k := k) houtcomes
  rw [buildArrowBatchParallel, if_neg (by omega)]
  simp only [futures_eq, hbuilt, htables, if_neg (Nat.not_le.2 hcount), Bool.false_eq_true, if_false]
  rw [map_fst_zipIdx ArrowBatch.kind, map_fst_zipIdx ArrowBatch.payloadText,
    map_fst_zipIdx fun table : ArrowBatch => table.payloadText.length]
  simp only [List.map_map, Function.comp_def]

theorem buildArrowBatchParallel_of_unread (hpyarrow : k.pyarrow = true) (hclaims : k.claimsEnabled = false)
    (hcount : 1 < (chunks parallelArrowSubBatch findings).length) (hrust : k.rustDict = true)
    (hread : k.readRecordBatch = false) : k.buildArrowBatchParallel findings = none := by
  have hfailed : ((k.asCompleted ((chunks parallelArrowSubBatch findings).map k.buildArrowTableOnly).zipIdx).any
      fun future => (built future).isNone) = true := by
    obtain ⟨sub, hsub⟩ := List.exists_mem_of_length_pos (Nat.zero_lt_of_lt hcount)
    have houtcome := buildArrowTableOnly_eq hpyarrow hclaims (ne_nil_of_mem_chunks (by decide) hsub)
      (length_subBatch_le hsub)
    rw [if_pos ⟨hrust, hread⟩] at houtcome
    obtain ⟨idx, hidx⟩ := List.mem_iff_getElem?.1 (List.mem_map_of_mem (f := k.buildArrowTableOnly) hsub)
    rw [houtcome] at hidx
    rw [List.any_eq_true]
    exact ⟨(.error (.nameError "_logging"), idx),
      (k.asCompleted_perm _).mem_iff.2 (List.mem_zipIdx_iff_getElem?.2 hidx), rfl⟩
  rw [buildArrowBatchParallel]
  split
  · rfl
  · simp only [futures_eq, hfailed, if_true, ite_self]

theorem buildArrowBatchParallel_of_goesParallel (hpyarrow : k.pyarrow = true) (hclaims : k.claimsEnabled = false)
    (h : k.GoesParallel findings) :
    ∃ totalRows, k.buildArrowBatchParallel findings =
      some (⟨.table, ((chunks parallelArrowSubBatch findings).map k.subBatchColumn).flatten⟩, totalRows) := by
  obtain ⟨hleast, hcount, hread, hconcat⟩ := h
  rw [buildArrowBatchParallel_of_built hpyarrow hclaims hleast hcount hread, if_pos hconcat]
  exact ⟨_, rfl⟩

theorem buildArrowBatchParallel_of_not_goesParallel (hpyarrow : k.pyarrow = true)
    (hclaims : k.claimsEnabled = false) (h : ¬ k.GoesParallel findings) :
    k.buildArrowBatchParallel findings = none := by
  by_cases hleast : k.parallelArrowMinBatch ≤ findings.length
  · by_cases hcount : 1 < (chunks parallelArrowSubBatch findings).length
    · by_cases hread : k.rustDict = true → k.readRecordBatch = true
      · rw [buildArrowBatchParallel_of_built hpyarrow hclaims hleast hcount hread]
        exact if_neg fun hconcat => h ⟨hleast, hcount, hread, hconcat⟩
      · rw [Classical.not_imp, Bool.not_eq_true] at hread
        exact buildArrowBatchParallel_of_unread hpyarrow hclaims hcount hread.1 hread.2
    · rw [buildArrowBatchParallel, if_neg (by omega)]
      exact if_pos (by omega)
  · exact if_pos (by omega)

theorem flatten_subBatchColumn_eq_iff :
    ((chunks parallelArrowSubBatch findings).map k.subBatchColumn).flatten = k.scrubbedColumn findings ↔
      ∀ sub ∈ chunks parallelArrowSubBatch findings, k.Untouched sub := by
  have hwhole : k.scrubbedColumn findings =
      ((chunks parallelArrowSubBatch findings).map k.scrubbedColumn).flatten := by
    have hcolumn : (chunks parallelArrowSubBatch findings).map k.scrubbedColumn =
        chunks parallelArrowSubBatch (k.scrubbedColumn findings) := (chunks_map _ _ _).symm
    rw [hcolumn, flatten_chunks (by decide)]
  rw [hwhole, flatten_map_eq_flatten_map_iff]
  · exact forall₂_congr fun sub _ => subBatchColumn_eq_iff sub
  · intro sub _
    rw [scrubbedColumn, List.length_map]
    exact length_subBatchColumn_le sub

/-! ### Scrubbing alike -/

/-- Every batch that is handed to DuckDB for the findings, whichever builder it is from, has their scrubbed payloads in
their order. -/
def ScrubsAlike (k : ArrowPaths) (findings : List CanonicalFinding) : Prop :=
  ∀ batch ∈ k.handed findings, batch.payloadText = findings.map fun f => k.scrubPayload f.payloadText

theorem scrubsAlike_of_goesParallel (hpyarrow : k.pyarrow = true) (hclaims : k.claimsEnabled = false)
    (h : k.GoesParallel findings) :
    k.ScrubsAlike findings ↔ ∀ sub ∈ chunks parallelArrowSubBatch findings, k.Untouched sub := by
  have hne : findings ≠ [] := by
    rintro rfl
    exact absurd h.2.1 (by decide)
  obtain ⟨totalRows, hparallel⟩ := buildArrowBatchParallel_of_goesParallel hpyarrow hclaims h
  exact (forall_mem_handed_iff hpyarrow hclaims hne hparallel).trans flatten_subBatchColumn_eq_iff

/-- A store without the extension, over a `pyarrow` that concatenates tables only. -/
def plainPaths : ArrowPaths where
  pyarrow := true
  claimsEnabled := false
  chunkSize := 1536
  rustFindings := false
  rustCols := false
  rustDict := false
  scrub _ := "[REDACTED]"
  tryNew lengths := lengths.all fun n => lengths.head? = some n
  tryNew_replicate columns n := by cases columns <;> simp [List.replicate_succ]
  readRecordBatch := false
  tupleText _ := none
  concatTables kinds := kinds.all (· = .table)
  asCompleted futures := futures
  asCompleted_perm _ := .rfl
  answer _ batches := .ok ((batches.map fun batch => (batch.payloadText.length : Int)).sum, none)

/-- A finding with a secret, from no known place. -/
def secretFinding : CanonicalFinding :=
  { findingId := "f", query := "q", sourceType := "web", payloadText := some "password=hunter2" }

end ArrowPaths

end Hledac.Knowledge
