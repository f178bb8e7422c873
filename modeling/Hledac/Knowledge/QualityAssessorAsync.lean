import Mathlib.Algebra.Order.BigOperators.Group.List
import Hledac.Lib.Chunks
import Hledac.Utils.ParallelBackends
import Hledac.Knowledge.QualityAssessor

/-!
# A batch that is assessed in worker threads

`assess_batch_async` of `knowledge/quality_assessment.py` cuts the findings into chunks, has each assessed in a thread,
and joins what the threads return. `_check_gathered` has dropped the exceptions by then, so a chunk that raises moves
the decisions of all later chunks.
-/

namespace Hledac.Utils

variable {α ε β : Type}

/-- No element is an exception object. -/
def isClean (results : List (Returned α ε β)) : Bool := results.all fun r => !r.isException

/-- The look for exceptions, at first among a few; `_parallel.py:364-380`. -/
def noneRaised (results : List (Returned α ε β)) : Bool :=
  let n := results.length
  if n ≤ 8 then isClean results else isClean (results.take (min 8 (n >>> 2))) && isClean results

/-- The results taken apart, and what is raised: a list of one stands for the exception itself;
`_parallel.py:382-408`. -/
def takeApart (results : List (Returned α ε β)) :
    Except (List (Returned α ε β)) (List (Returned α ε β) × List ε) :=
  let okResults := results.filter fun r => !r.isException
  let otherErrors := results.filterMap Returned.exception?
  match results.filterMap Returned.baseException? with
  | [] => .ok (okResults, otherErrors)
  | cancelErrors => .error (cancelErrors.map .baseException ++ otherErrors.map .exception)

/-- `_check_gathered`; `_parallel.py:349-408`. -/
def checkGathered (results : List (Returned α ε β)) :
    Except (List (Returned α ε β)) (List (Returned α ε β) × List ε) :=
  if results = [] then .ok ([], [])
  else if noneRaised results then .ok (results, [])
  else takeApart results

theorem takeApart_of_isClean {results : List (Returned α ε β)} (h : isClean results = true) :
    takeApart results = .ok (results, []) := by
  rw [isClean, List.all_eq_true] at h
  have hnone (r : Returned α ε β) (hr : r ∈ results) : r.exception? = none ∧ r.baseException? = none := by
    have hr' := h r hr
    cases r with
    | none => exact ⟨rfl, rfl⟩
    | value a => exact ⟨rfl, rfl⟩
    | exception e => cases hr'
    | baseException b => cases hr'
  rw [takeApart, List.filter_eq_self.2 h, List.filterMap_eq_nil_iff.2 fun r hr => (hnone r hr).1,
    List.filterMap_eq_nil_iff.2 fun r hr => (hnone r hr).2]

theorem checkGathered_eq (results : List (Returned α ε β)) : checkGathered results = takeApart results := by
  rw [checkGathered]
  split
  · next h => rw [h]; rfl
  split
  · next h =>
    have hclean : isClean results = true := by
      rw [noneRaised] at h
      split at h
      · exact h
      · exact (Bool.and_eq_true_iff.1 h).2
    exact (takeApart_of_isClean hclean).symm
  · rfl

end Hledac.Utils

namespace Hledac.Knowledge.QualityAssessor

open Hledac.Lib Hledac.Utils

universe u

variable {cap : Nat} {cfg : AssessorConfig} {q : QualityFunctions}

/-- `_QUALITY_BATCH_SIZE_MIN`; `quality_assessment.py:100`. -/
def qualityBatchSizeMin : Nat := 50

/-- `_QUALITY_BATCH_SIZE_MAX`; `quality_assessment.py:101`. -/
def qualityBatchSizeMax : Nat := 200

/-! ### The chunks -/

section Chunks

variable {α : Type u} (least most : Nat) (xs : List α)

/-- The body of the loop over the starts of the chunks. -/
def addChunk (chunks : List (List α)) (i : Nat) : List (List α) :=
  let piece := (xs.drop i).take most
  if least ≤ piece.length ∨ xs.length ≤ i + most then chunks ++ [piece]
  else
    match chunks.getLast? with
    | some last => chunks.dropLast ++ [last ++ piece]
    | none => chunks ++ [piece]

/-- The chunks that go to the workers; `quality_assessment.py:959-970`. -/
def makeChunks : List (List α) :=
  (List.range (chunkCount most xs.length)).foldl (fun chunks c => addChunk least most xs chunks (c * most)) []

variable {least most xs}

theorem flatten_addChunk (chunks : List (List α)) (c : Nat) :
    (addChunk least most xs chunks (c * most)).flatten = chunks.flatten ++ chunk most xs c := by
  rw [addChunk]
  split
  · rw [List.flatten_append, List.flatten_singleton, chunk]
  · split
    · next last hlast =>
      obtain ⟨front, rfl⟩ := List.getLast?_eq_some_iff.1 hlast
      simp [chunk]
    · rw [List.flatten_append, List.flatten_singleton, chunk]

theorem ne_nil_of_mem_addChunk {chunks : List (List α)} (hchunks : ∀ ch ∈ chunks, ch ≠ []) {c : Nat}
    (hc : chunk most xs c ≠ []) : ∀ ch ∈ addChunk least most xs chunks (c * most), ch ≠ [] := by
  have happend : ∀ ch ∈ chunks ++ [chunk most xs c], ch ≠ [] := by
    intro ch hch
    cases List.mem_append.1 hch with
    | inl h => exact hchunks ch h
    | inr h => rwa [List.mem_singleton.1 h]
  rw [addChunk]
  split
  · exact happend
  · split
    · next last hlast =>
      intro ch hch
      cases List.mem_append.1 hch with
      | inl h => exact hchunks ch ((List.dropLast_sublist _).subset h)
      | inr h =>
        rw [List.mem_singleton.1 h]
        exact List.append_ne_nil_of_right_ne_nil _ hc
    · exact happend

theorem makeChunks_spec (hmost : 0 < most) :
    (makeChunks least most xs).flatten = xs ∧ ∀ ch ∈ makeChunks least most xs, ch ≠ [] := by
  have hpieces : ∀ c < chunkCount most xs.length, chunk most xs c ≠ [] := by
    intro c hc
    have hlt := (lt_chunkCount_iff hmost).1 hc
    rw [chunk, ← List.length_pos_iff, List.length_take, List.length_drop]
    omega
  have hloop : ∀ m ≤ chunkCount most xs.length,
      let made := (List.range m).foldl (fun chunks c => addChunk least most xs chunks (c * most)) []
      made.flatten = ((List.range m).map (chunk most xs)).flatten ∧ ∀ ch ∈ made, ch ≠ [] := by
    intro m
    induction m with
    | zero => exact fun _ => ⟨rfl, fun ch hch => absurd hch List.not_mem_nil⟩
    | succ m ih =>
      intro hm
      obtain ⟨hflatten, hne⟩ := ih (by omega)
      simp only [List.range_succ, List.foldl_append, List.foldl_cons, List.foldl_nil, List.map_append, List.map_cons,
        List.map_nil, List.flatten_append, List.flatten_singleton]
      exact ⟨by rw [flatten_addChunk, hflatten], ne_nil_of_mem_addChunk hne (hpieces m (by omega))⟩
  obtain ⟨hflatten, hne⟩ := hloop _ le_rfl
  exact ⟨hflatten.trans (flatten_chunks hmost xs), hne⟩

end Chunks

/-! ### The workers -/

/-- What a worker raises: an `Exception`, or a `CancelledError` or another `BaseException`. -/
inductive Failure where
  | exception (text : String)
  | base (text : String)
  deriving DecidableEq

/-- How the threads go: which chunks raise, and in what state of the assessor the decision of each position is
computed, as the threads of the other chunks change it meanwhile. -/
structure Workers (cap : Nat) where
  raised : Nat → Option Failure
  seen : Nat → AssessorState cap

/-- The decision that is computed for a finding. -/
def Workers.decision (w : Workers cap) (cfg : AssessorConfig) (q : QualityFunctions) (p : CanonicalFinding × Nat) :
    FindingQualityDecision := (assessRow cfg q (w.seen p.2) p.1).1

/-- What `asyncio.gather(…, return_exceptions=True)` holds for `to_thread(self.assess_batch, chunk)`. -/
def Workers.returned (w : Workers cap) (cfg : AssessorConfig) (q : QualityFunctions)
    (p : List (CanonicalFinding × Nat) × Nat) : Returned (List FindingQualityDecision) String String :=
  match w.raised p.2 with
  | some (.exception text) => .exception text
  | some (.base text) => .baseException text
  | none => .value (p.1.map (w.decision cfg q))

theorem Workers.decision_of_sequential (w : Workers cap) (s : AssessorState cap) (findings : List CanonicalFinding)
    (hseen : ∀ i, w.seen i = stateBefore (assessRow cfg q) s findings i) :
    findings.zipIdx.map (w.decision cfg q) = (assessBatch cfg q s findings).1 := by
  apply List.ext_getElem?
  intro i
  rw [assessBatch, getElem?_runEach, List.getElem?_map, List.getElem?_zipIdx]
  cases findings[i]? with
  | none => rfl
  | some f => rw [Option.map_some, Option.map_some, Option.map_some, Workers.decision, Nat.zero_add, hseen]

/-- The decisions of a chunk that is taken up into the result. -/
def extension : Returned (List FindingQualityDecision) String String → List FindingQualityDecision
  | .value decisions => decisions
  | _ => []

/-- The chunks that are assessed, each finding with its position: fewer than `least` findings are one chunk that no
thread gets. -/
def assessed (least most : Nat) (findings : List CanonicalFinding) : List (List (CanonicalFinding × Nat)) :=
  if findings = [] then []
  else if findings.length < least then [findings.zipIdx]
  else makeChunks least most findings.zipIdx

/-- `assess_batch_async`; `quality_assessment.py:928-986`. -/
def assessBatchAsync (least most : Nat) (cfg : AssessorConfig) (q : QualityFunctions) (w : Workers cap)
    (findings : List CanonicalFinding) :
    Except (List (Returned (List FindingQualityDecision) String String)) (List FindingQualityDecision) :=
  let n := findings.length
  if n = 0 then .ok []
  else if n < least then
    match w.returned cfg q (findings.zipIdx, 0) with
    | .value decisions => .ok decisions
    | raised => .error [raised]
  else do
    let chunks := makeChunks least most findings.zipIdx
    let (okResults, _) ← checkGathered (chunks.zipIdx.map (w.returned cfg q))
    return okResults.flatMap extension

/-- The decision of a finding whose quality check raises; `duckdb_store.py:9224-9231`. -/
def failOpenDecision : FindingQualityDecision where
  accepted := true
  reason := some "quality_check_error"
  entropy := 0
  normalizedHash := some ""
  duplicate := false

/-- A list of decisions comes back, one for each finding: its own, or the one of failed checks where its chunk raises.
-/
structure KeepsPositions (least most : Nat) (cfg : AssessorConfig) (q : QualityFunctions) (w : Workers cap)
    (findings : List CanonicalFinding) (decisions : List FindingQualityDecision) : Prop where
  returned : assessBatchAsync least most cfg q w findings = .ok decisions
  length : decisions.length = findings.length
  position : ∀ j ch, (assessed least most findings)[j]? = some ch → ∀ p ∈ ch,
    decisions[p.2]? = some (match w.raised j with
      | none => w.decision cfg q p
      | some _ => failOpenDecision)

/-! ### Results and positions -/

section Positions

variable {least most : Nat} {w : Workers cap} {findings : List CanonicalFinding}

theorem Workers.returned_of_none {p : List (CanonicalFinding × Nat) × Nat} (h : w.raised p.2 = none) :
    w.returned cfg q p = .value (p.1.map (w.decision cfg q)) := by
  rw [Workers.returned, h]

theorem length_extension_le (p : List (CanonicalFinding × Nat) × Nat) :
    (extension (w.returned cfg q p)).length ≤ p.1.length := by
  rw [Workers.returned]
  split
  · exact Nat.zero_le _
  · exact Nat.zero_le _
  · rw [extension, List.length_map]

theorem extension_eq_nil {p : List (CanonicalFinding × Nat) × Nat} (h : w.raised p.2 ≠ none) :
    extension (w.returned cfg q p) = [] := by
  rw [Workers.returned]
  split
  · rfl
  · rfl
  · next hnone => exact absurd hnone h

theorem isException_eq_false {p : List (CanonicalFinding × Nat) × Nat} (h : w.raised p.2 = none) :
    (w.returned cfg q p).isException = false := by
  rw [Workers.returned_of_none h]
  rfl

theorem flatMap_extension_filter (results : List (Returned (List FindingQualityDecision) String String)) :
    (results.filter fun r => !r.isException).flatMap extension = results.flatMap extension := by
  induction results with
  | nil => rfl
  | cons r rest ih =>
    rw [List.filter_cons, List.flatMap_cons]
    cases r with
    | none => exact ih
    | value decisions => exact congrArg (decisions ++ ·) ih
    | exception e => exact ih
    | baseException b => exact ih

theorem flatten_assessed (hmost : 0 < most) : (assessed least most findings).flatten = findings.zipIdx := by
  rw [assessed]
  split
  · next h => rw [h]; rfl
  split
  · exact List.flatten_singleton
  · exact (makeChunks_spec hmost).1

theorem assessBatchAsync_of_none (hmost : 0 < most)
    (h : ∀ j < (assessed least most findings).length, w.raised j = none) :
    assessBatchAsync least most cfg q w findings = .ok (findings.zipIdx.map (w.decision cfg q)) := by
  rw [assessed] at h
  rw [assessBatchAsync]
  split
  · next hn => rw [List.length_eq_zero_iff.1 hn]; rfl
  next hn =>
  rw [if_neg (mt List.length_eq_zero_iff.2 hn)] at h
  split
  · next hleast =>
    rw [if_pos hleast] at h
    rw [Workers.returned_of_none (h 0 Nat.one_pos)]
  next hleast =>
  rw [if_neg hleast] at h
  have hnone (p) (hp : p ∈ (makeChunks least most findings.zipIdx).zipIdx) : w.raised p.2 = none :=
    h p.2 (by simpa using List.snd_lt_of_mem_zipIdx hp)
  have hclean : isClean ((makeChunks least most findings.zipIdx).zipIdx.map (w.returned cfg q)) = true := by
    rw [isClean, List.all_map, List.all_eq_true]
    intro p hp
    rw [Function.comp_apply, isException_eq_false (hnone p hp), Bool.not_false]
  have hvalues : ((makeChunks least most findings.zipIdx).zipIdx.map (w.returned cfg q)).flatMap extension =
      findings.zipIdx.map (w.decision cfg q) := by
    calc _ = ((makeChunks least most findings.zipIdx).zipIdx.map Prod.fst).flatMap (List.map (w.decision cfg q)) := by
          rw [List.flatMap_map, List.flatMap_map]
          apply List.flatMap_congr
          intro p hp
          rw [Workers.returned_of_none (hnone p hp), extension]
      _ = _ := by
          rw [List.zipIdx_map_fst, List.flatMap_def, ← List.map_flatten, (makeChunks_spec hmost).1]
  simp only [checkGathered_eq, takeApart_of_isClean hclean]
  exact congrArg Except.ok hvalues

theorem length_assessBatchAsync_lt (hmost : 0 < most) {j : Nat} (hj : j < (assessed least most findings).length)
    (hraised : w.raised j ≠ none) {decisions : List FindingQualityDecision}
    (h : assessBatchAsync least most cfg q w findings = .ok decisions) : decisions.length < findings.length := by
  rw [assessed] at hj
  rw [assessBatchAsync] at h
  split at h
  · next hn =>
    rw [if_pos (List.length_eq_zero_iff.1 hn)] at hj
    exact absurd hj (Nat.not_lt_zero j)
  next hn =>
  rw [if_neg (mt List.length_eq_zero_iff.2 hn)] at hj
  split at h
  · next hleast =>
    -- the exception of a direct call is not caught
    rw [if_pos hleast, List.length_singleton, Nat.lt_one_iff] at hj
    subst hj
    cases hfailure : w.raised 0 with
    | none => exact absurd hfailure hraised
    | some failure =>
      rw [Workers.returned, hfailure] at h
      cases failure <;> cases h
  next hleast =>
  rw [if_neg hleast] at hj
  simp only [checkGathered_eq, takeApart] at h
  split at h
  · have hdecisions : decisions =
        ((makeChunks least most findings.zipIdx).zipIdx.map (w.returned cfg q)).flatMap extension :=
      (Except.ok.inj h).symm.trans (flatMap_extension_filter _)
    have htotal : ((makeChunks least most findings.zipIdx).zipIdx.map fun p => p.1.length).sum = findings.length := by
      calc _ = ((makeChunks least most findings.zipIdx).zipIdx.map Prod.fst).flatten.length := by
            rw [List.length_flatten, List.map_map]
            rfl
        _ = findings.length := by rw [List.zipIdx_map_fst, (makeChunks_spec hmost).1, List.length_zipIdx]
    rw [hdecisions, List.length_flatMap, List.map_map, ← htotal]
    apply List.sum_lt_sum
    · exact fun p _ => length_extension_le p
    · refine ⟨((makeChunks least most findings.zipIdx)[j], j), ?_, ?_⟩
      · exact List.mem_zipIdx_iff_getElem?.2 (List.getElem?_eq_getElem hj)
      · rw [Function.comp_apply, extension_eq_nil hraised, List.length_nil, List.length_pos_iff]
        exact (makeChunks_spec hmost).2 _ (List.getElem_mem hj)
  · cases h

/-- One decision for each finding in its place comes back exactly where no chunk raises. -/
theorem keeps_positions_iff (hmost : 0 < most) :
    (∃ decisions, KeepsPositions least most cfg q w findings decisions) ↔
      ∀ j < (assessed least most findings).length, w.raised j = none := by
  constructor
  · intro h j hj
    obtain ⟨decisions, hkeeps⟩ := h
    by_contra hraised
    have hlt := length_assessBatchAsync_lt hmost hj hraised hkeeps.returned
    exact absurd hkeeps.length (Nat.ne_of_lt hlt)
  · intro h
    refine ⟨_, assessBatchAsync_of_none hmost h, by simp, ?_⟩
    intro j ch hch p hp
    have hp' : findings[p.2]? = some p.1 := by
      rw [← List.mem_zipIdx_iff_getElem?, ← flatten_assessed hmost]
      exact List.mem_flatten.2 ⟨ch, List.mem_of_getElem? hch, hp⟩
    rw [h j (List.getElem?_eq_some_iff.1 hch).1, List.getElem?_map, List.getElem?_zipIdx, hp', Option.map_some,
      Option.map_some, Nat.zero_add]

end Positions

/-! ### Two chunks -/

private theorem ne_of_startsWith (url : String) (h : startsWith "http" url = true) : url ≠ "" := by
  intro hurl
  rw [hurl] at h
  exact absurd h (by decide)

private def onePageFunctions : QualityFunctions where
  normalizeForQuality := id
  computeEntropy _ := 4
  normalizeOsintUrl url := url
  blake2b _ := "11691b2f2d8c365bac2086756b59bcef"
  normalizeOsintUrl_ne := ne_of_startsWith
  length_blake2b _ := by decide

/-- The page, found again and again. -/
private def visits (n : Nat) : List CanonicalFinding :=
  List.replicate n { findingId := "f", query := "q", sourceType := "web", provenance := ["https://a.example"] }

private theorem workers_cap_pos : 0 < 10000 := by decide

/-- Threads of which the given ones raise. -/
private def workersRaising (raised : Nat → Option Failure) : Workers 10000 where
  raised := raised
  seen _ := { hotCache := .empty workers_cap_pos }

theorem keeps_positions_calm : ∃ decisions, KeepsPositions qualityBatchSizeMin qualityBatchSizeMax {} onePageFunctions
    (workersRaising fun _ => none) (visits 400) decisions :=
  (keeps_positions_iff (by decide)).2 fun _ _ => rfl

/-- The first of two chunks raises. -/
theorem not_keeps_positions :
    ¬ ∃ decisions, KeepsPositions qualityBatchSizeMin qualityBatchSizeMax {} onePageFunctions
      (workersRaising fun j => if j = 0 then some (.exception "MemoryError") else none) (visits 400) decisions := by
  intro h
  obtain ⟨decisions, hkeeps⟩ := h
  have hpos : 0 < (assessed qualityBatchSizeMin qualityBatchSizeMax (visits 400)).length := by
    rw [List.length_pos_iff]
    intro hnil
    have hlength := congrArg (fun chunks => chunks.flatten.length) hnil
    have hmost : 0 < qualityBatchSizeMax := by decide
    simp only [flatten_assessed hmost, List.length_zipIdx, visits, List.length_replicate] at hlength
    exact absurd hlength (by decide)
  have hlt := length_assessBatchAsync_lt (by decide) hpos (by simp [workersRaising]) hkeeps.returned
  exact absurd hkeeps.length (Nat.ne_of_lt hlt)

end Hledac.Knowledge.QualityAssessor
