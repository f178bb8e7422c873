import Hledac.Knowledge.QualityAssessor

/-!
# When a batch is assessed as its findings would be one by one

A batch looks a finding with a URL up under the empty fingerprint, and keeps the findings of feeds
out of the hot cache. The two ways of assessing agree exactly where, before every finding, the two
lookups do.
-/

namespace Hledac.Knowledge.QualityAssessor

open Hledac.Lib

variable {cap : Nat} {cfg : AssessorConfig} {q : QualityFunctions}

/-- What is compared of a decision. -/
def verdict (d : FindingQualityDecision) : Bool × Bool × Option String :=
  (d.accepted, d.duplicate, d.reason)

/-- A lookup finds the fingerprint. -/
def knows (cfg : AssessorConfig) (s : AssessorState cap) (fp : String) : Bool :=
  (s.hotCache.lookup fp).isSome || cfg.lmdbLookupFn && (s.lmdb fp).isSome

/-- What `assess` looks a finding up under. -/
def singleKey (q : QualityFunctions) (f : CanonicalFinding) : String :=
  (computeFingerprint q f (urlFingerprintOf q f)).1

/-- What a batch looks a finding up under. -/
def batchKey (q : QualityFunctions) (f : CanonicalFinding) : String := (batchRow q f).2.2

/-- Two findings with URLs that have one normal form. -/
def SameUrl (q : QualityFunctions) (f g : CanonicalFinding) : Prop :=
  urlOf f ≠ "" ∧ urlOf g ≠ "" ∧
    q.normalizeOsintUrl (urlOf f) = q.normalizeOsintUrl (urlOf g)

/-- A batch gives the verdicts of successive `assess` calls, and accepts no URL twice. -/
structure BatchAgrees (cfg : AssessorConfig) (q : QualityFunctions) (s : AssessorState cap)
    (findings : List CanonicalFinding) : Prop where
  verdicts : (assessEach cfg q s findings).1.map verdict =
    (assessBatch cfg q s findings).1.map verdict
  once : ∀ (i j : Nat) f g (d e : FindingQualityDecision), i < j →
    findings[i]? = some f → findings[j]? = some g → SameUrl q f g →
    (assessBatch cfg q s findings).1[i]? = some d → (assessBatch cfg q s findings).1[j]? = some e →
      ¬ (d.accepted = true ∧ e.accepted = true)

/-- Before every finding the two runs know its keys alike, and a URL that comes again is known, the
first or the second time. -/
structure LookupsAgree (cfg : AssessorConfig) (q : QualityFunctions) (s : AssessorState cap)
    (findings : List CanonicalFinding) : Prop where
  alike : ∀ i f, findings[i]? = some f →
    knows cfg (stateBefore (assess cfg q) s findings i) (singleKey q f) =
      knows cfg (stateBefore (assessRow cfg q) s findings i) (batchKey q f)
  again : ∀ (i j : Nat) f g, i < j → findings[i]? = some f → findings[j]? = some g → SameUrl q f g →
    knows cfg (stateBefore (assess cfg q) s findings i) (singleKey q f) = true ∨
      knows cfg (stateBefore (assess cfg q) s findings j) (singleKey q g) = true

/-! ### The lookups -/

/-- What the two runs share: all but the hot cache and the counters. -/
private structure Alike (s b : AssessorState cap) : Prop where
  lmdb : s.lmdb = b.lmdb
  semantic : s.semanticDedupCache = b.semanticDedupCache

private theorem Alike.refl (s : AssessorState cap) : Alike s s := ⟨rfl, rfl⟩

private theorem Alike.symm {s b : AssessorState cap} (h : Alike s b) : Alike b s :=
  ⟨h.lmdb.symm, h.semantic.symm⟩

private theorem Alike.trans {s b c : AssessorState cap} (h : Alike s b) (h' : Alike b c) :
    Alike s c :=
  ⟨h.lmdb.trans h'.lmdb, h.semantic.trans h'.semantic⟩

private theorem check_of_knows {s : AssessorState cap} {fp : String}
    (h : knows cfg s fp = true) (urlFp : String) (entropy : ℚ) :
    ∃ t, checkDuplicateCaches cfg s fp urlFp entropy =
      (some (makeDecision false (some (duplicateReason urlFp)) entropy fp true), t) ∧
        Alike s t := by
  rw [checkDuplicateCaches]
  cases hhot : s.hotCache.lookup fp with
  | some _ => exact ⟨_, rfl, rfl, rfl⟩
  | none =>
    rw [knows, hhot, Option.isSome_none, Bool.false_or, Bool.and_eq_true] at h
    obtain ⟨storedId, hid⟩ := Option.isSome_iff_exists.1 h.2
    simp only [h.1, if_true, hid]
    exact ⟨_, rfl, rfl, rfl⟩

private theorem check_of_not_knows {s : AssessorState cap} {fp : String}
    (h : knows cfg s fp = false) (urlFp : String) (entropy : ℚ) :
    checkDuplicateCaches cfg s fp urlFp entropy = (none, s) := by
  rw [knows, Bool.or_eq_false_iff, Option.isSome_eq_false_iff, Option.isNone_iff_eq_none] at h
  rw [checkDuplicateCaches, h.1]
  cases hf : cfg.lmdbLookupFn with
  | false => rfl
  | true =>
    rw [hf, Bool.true_and, Option.isSome_eq_false_iff, Option.isNone_iff_eq_none] at h
    simp only [if_true, h.2]

private theorem semanticDuplicate_alike {s b : AssessorState cap} (h : Alike s b) (text : String)
    (ioc feed : Bool) :
    (semanticDuplicate s text ioc feed).1 = (semanticDuplicate b text ioc feed).1 ∧
      Alike (semanticDuplicate s text ioc feed).2 (semanticDuplicate b text ioc feed).2 := by
  rw [semanticDuplicate, semanticDuplicate, ← h.semantic]
  cases s.semanticDedupCache with
  | none => exact ⟨rfl, h⟩
  | some cache =>
    simp only
    split
    · exact ⟨rfl, h⟩
    · cases (cache.checkAndCache text (3 / 4)).1 with
      | error e => exact ⟨rfl, h.lmdb, rfl⟩
      | ok hit => cases hit <;> exact ⟨rfl, h.lmdb, rfl⟩

private theorem lmdbStore_alike {s b : AssessorState cap} (h : Alike s b) (fp findingId : String) :
    Alike (lmdbStore cfg s fp findingId) (lmdbStore cfg b fp findingId) := by
  rw [lmdbStore, lmdbStore]
  split
  · exact ⟨by rw [h.lmdb], h.semantic⟩
  · exact h

private theorem addToHotCache_alike (s : AssessorState cap) (fp findingId : String) :
    Alike s (addToHotCache s fp findingId) := ⟨rfl, rfl⟩

/-! ### One finding -/

private theorem startsWith_urlOf {f : CanonicalFinding} (h : urlOf f ≠ "") :
    startsWith "http" (urlOf f) = true := by
  rw [urlOf] at h ⊢
  generalize f.provenance = provenance at h ⊢
  induction provenance with
  | nil => exact absurd rfl h
  | cons item rest ih =>
    simp only [QualityAssessmentState.extractUrlFromProvenance] at h ⊢
    split
    · next hs => exact hs
    · next hs =>
      rw [if_neg hs] at h
      split
      · next ht =>
        rw [Bool.and_eq_true] at ht
        exact ht.2
      · next ht =>
        rw [if_neg ht] at h
        exact ih h

section Url

variable {f : CanonicalFinding} (h : urlOf f ≠ "")

include h

private theorem urlFp_ne : q.computeUrlFingerprint (urlOf f) ≠ "" :=
  q.computeUrlFingerprint_ne (startsWith_urlOf h)

private theorem singleKey_of_url : singleKey q f = q.computeUrlFingerprint (urlOf f) := by
  rw [singleKey, urlFingerprintOf, if_pos h, computeFingerprint, if_pos (urlFp_ne h)]

private theorem batchKey_of_url : batchKey q f = "" := by
  rw [batchKey, batchRow, if_pos h]

private theorem assess_of_url (s : AssessorState cap) :
    assess cfg q s f =
      match checkDuplicateCaches cfg s (singleKey q f) (singleKey q f) 0 with
      | (some decision, s) => (decision, s)
      | (none, s) => acceptAndStore cfg s f (singleKey q f) 0 := by
  rw [singleKey_of_url h]
  simp only [assess, urlFingerprintOf, if_pos h, computeFingerprint, if_pos (urlFp_ne (q := q) h)]
  all_goals rfl

private theorem assessRow_of_url (b : AssessorState cap) :
    assessRow cfg q b f =
      match checkDuplicateCaches cfg b (batchKey q f) (singleKey q f) 0 with
      | (some decision, s) => (decision, s)
      | (none, s) => acceptAndStore cfg s f (singleKey q f) 0 := by
  rw [singleKey_of_url h, batchKey_of_url h]
  simp only [assessRow, batchRow, if_pos h, assessBatchItemPhase2, if_pos (urlFp_ne (q := q) h)]
  all_goals rfl

end Url

section Payload

variable {f : CanonicalFinding} (h : urlOf f = "")

include h

private theorem batchKey_of_payload : batchKey q f = singleKey q f := by
  rw [batchKey, batchRow, if_neg (not_not.2 h), singleKey, urlFingerprintOf, if_neg (not_not.2 h),
    computeFingerprint, if_neg (not_not.2 rfl)]

/-- The entropy of the text that is assessed. -/
private def textEntropy (q : QualityFunctions) (f : CanonicalFinding) : ℚ :=
  q.computeEntropy (q.normalizeForQuality f.qualityText)

private theorem assess_of_payload (s : AssessorState cap) :
    assess cfg q s f =
      match checkDuplicateCaches cfg s (singleKey q f) "" (textEntropy q f) with
      | (some decision, s) => (decision, s)
      | (none, s) =>
        if ((singleKey q f).length : ℤ) < cfg.qualityMinEntropyLen then
          assessShortString cfg s f (singleKey q f) (textEntropy q f) f.payloadOrQuery
        else if textEntropy q f < cfg.qualityEntropyThreshold then
          rejectLowEntropy s (textEntropy q f) (singleKey q f)
        else
          match semanticDuplicate s f.payloadOrQuery (isHighConfIoc f.payloadOrQuery)
            (isFeedSource f) with
          | (true, s) => (makeDecision false (some "semantic_duplicate") (textEntropy q f)
              (singleKey q f) true, s)
          | (false, s) => acceptAndStore cfg s f (singleKey q f) (textEntropy q f) := by
  simp only [assess, singleKey, urlFingerprintOf, computeFingerprint, textEntropy, h, ne_eq,
    not_true_eq_false, if_false]
  all_goals rfl

private theorem assessRow_of_payload (b : AssessorState cap) :
    assessRow cfg q b f =
      match checkDuplicateCaches cfg b (singleKey q f) "" (textEntropy q f) with
      | (some decision, s) => (decision, s)
      | (none, s) =>
        if ((singleKey q f).length : ℤ) < cfg.qualityMinEntropyLen then
          match semanticDuplicate s f.payloadOrQuery (isHighConfIoc f.payloadOrQuery)
            (isFeedSource f) with
          | (true, s) => (makeDecision false (some "semantic_duplicate") 0 (singleKey q f) true, s)
          | (false, s) => acceptBatchItem cfg s f (singleKey q f) (textEntropy q f)
              (some "short_string_skip")
        else if textEntropy q f < cfg.qualityEntropyThreshold then
          rejectLowEntropy s (textEntropy q f) (singleKey q f)
        else
          match semanticDuplicate s f.payloadOrQuery (isHighConfIoc f.payloadOrQuery)
            (isFeedSource f) with
          | (true, s) => (makeDecision false (some "semantic_duplicate") 0 (singleKey q f) true, s)
          | (false, s) => acceptBatchItem cfg s f (singleKey q f) (textEntropy q f) none := by
  simp only [assessRow, batchRow, assessBatchItemPhase2, singleKey, urlFingerprintOf,
    computeFingerprint, textEntropy, h, ne_eq, not_true_eq_false, if_false]
  all_goals rfl

end Payload

private theorem acceptBatchItem_alike {s b : AssessorState cap} (h : Alike s b)
    (f : CanonicalFinding) (fp : String) (entropy : ℚ) (reason : Option String) :
    Alike (addToHotCache (lmdbStore cfg s fp f.findingId) fp f.findingId)
      (acceptBatchItem cfg b f fp entropy reason).2 := by
  have hstore : Alike (lmdbStore cfg s fp f.findingId) _ := lmdbStore_alike h fp f.findingId
  rw [acceptBatchItem]
  simp only
  split
  · exact (addToHotCache_alike _ _ _).symm.trans hstore
  · exact (addToHotCache_alike _ _ _).symm.trans (hstore.trans (addToHotCache_alike _ _ _))

private theorem step_of_not_knows {s b : AssessorState cap} (h : Alike s b) {f : CanonicalFinding}
    (hs : knows cfg s (singleKey q f) = false) (hb : knows cfg b (batchKey q f) = false) :
    verdict (assess cfg q s f).1 = verdict (assessRow cfg q b f).1 ∧
      Alike (assess cfg q s f).2 (assessRow cfg q b f).2 := by
  by_cases hu : urlOf f = ""
  · rw [batchKey_of_payload hu] at hb
    rw [assess_of_payload hu, assessRow_of_payload hu, check_of_not_knows hs,
      check_of_not_knows hb]
    obtain ⟨hsame, halike⟩ := semanticDuplicate_alike h f.payloadOrQuery
      (isHighConfIoc f.payloadOrQuery) (isFeedSource f)
    simp only
    split
    · rw [assessShortString]
      revert hsame halike
      generalize semanticDuplicate s f.payloadOrQuery _ _ = rs
      generalize semanticDuplicate b f.payloadOrQuery _ _ = rb
      rcases rs with ⟨_ | _, s'⟩ <;> rcases rb with ⟨_ | _, b'⟩ <;> rintro ⟨⟩ halike
      · exact ⟨rfl, acceptBatchItem_alike halike f _ _ _⟩
      · exact ⟨rfl, halike⟩
    · split
      · exact ⟨rfl, h.lmdb, h.semantic⟩
      · revert hsame halike
        generalize semanticDuplicate s f.payloadOrQuery _ _ = rs
        generalize semanticDuplicate b f.payloadOrQuery _ _ = rb
        rcases rs with ⟨_ | _, s'⟩ <;> rcases rb with ⟨_ | _, b'⟩ <;> rintro ⟨⟩ halike
        · exact ⟨rfl, acceptBatchItem_alike halike f _ _ _⟩
        · exact ⟨rfl, halike⟩
  · rw [assess_of_url hu, assessRow_of_url hu, check_of_not_knows hs, check_of_not_knows hb]
    have hstore : Alike (lmdbStore cfg s (singleKey q f) f.findingId) _ :=
      lmdbStore_alike h (singleKey q f) f.findingId
    exact ⟨rfl, (addToHotCache_alike _ _ _).symm.trans (hstore.trans (addToHotCache_alike _ _ _))⟩

private theorem step_of_knows {s b : AssessorState cap} (h : Alike s b) {f : CanonicalFinding}
    (hs : knows cfg s (singleKey q f) = true) (hb : knows cfg b (batchKey q f) = true) :
    verdict (assess cfg q s f).1 = verdict (assessRow cfg q b f).1 ∧
      Alike (assess cfg q s f).2 (assessRow cfg q b f).2 := by
  by_cases hu : urlOf f = ""
  · rw [batchKey_of_payload hu] at hb
    obtain ⟨s', hcs, hs'⟩ := check_of_knows hs "" (textEntropy q f)
    obtain ⟨b', hcb, hb'⟩ := check_of_knows hb "" (textEntropy q f)
    rw [assess_of_payload hu, assessRow_of_payload hu, hcs, hcb]
    exact ⟨rfl, hs'.symm.trans (h.trans hb')⟩
  · obtain ⟨s', hcs, hs'⟩ := check_of_knows hs (singleKey q f) 0
    obtain ⟨b', hcb, hb'⟩ := check_of_knows hb (singleKey q f) 0
    rw [assess_of_url hu, assessRow_of_url hu, hcs, hcb]
    exact ⟨rfl, hs'.symm.trans (h.trans hb')⟩

/-- The reasons of a finding that is not known. -/
private def otherReasons : List (Option String) :=
  [none, some "semantic_duplicate", some "short_string_skip", some "low_entropy_rejected"]

private theorem duplicateReason_notMem (urlFp : String) :
    some (duplicateReason urlFp) ∉ otherReasons := by
  rw [duplicateReason]
  split <;> decide

private theorem reason_assess {s : AssessorState cap} {f : CanonicalFinding}
    (hs : knows cfg s (singleKey q f) = false) :
    (assess cfg q s f).1.reason ∈ otherReasons := by
  by_cases hu : urlOf f = ""
  · rw [assess_of_payload hu, check_of_not_knows hs]
    simp only
    split
    · rw [assessShortString]
      rcases semanticDuplicate s f.payloadOrQuery _ _ with ⟨_ | _, t⟩
      · exact .tail _ (.tail _ (.head _))
      · exact .tail _ (.head _)
    · split
      · exact .tail _ (.tail _ (.tail _ (.head _)))
      · rcases semanticDuplicate s f.payloadOrQuery _ _ with ⟨_ | _, t⟩
        · exact .head _
        · exact .tail _ (.head _)
  · rw [assess_of_url hu, check_of_not_knows hs]
    exact .head _

private theorem reason_assessRow {b : AssessorState cap} {f : CanonicalFinding}
    (hb : knows cfg b (batchKey q f) = false) :
    (assessRow cfg q b f).1.reason ∈ otherReasons := by
  by_cases hu : urlOf f = ""
  · rw [batchKey_of_payload hu] at hb
    rw [assessRow_of_payload hu, check_of_not_knows hb]
    simp only
    split
    · rcases semanticDuplicate b f.payloadOrQuery _ _ with ⟨_ | _, t⟩
      · exact .tail _ (.tail _ (.head _))
      · exact .tail _ (.head _)
    · split
      · exact .tail _ (.tail _ (.tail _ (.head _)))
      · rcases semanticDuplicate b f.payloadOrQuery _ _ with ⟨_ | _, t⟩
        · exact .head _
        · exact .tail _ (.head _)
  · rw [assessRow_of_url hu, check_of_not_knows hb]
    exact .head _

private theorem reason_of_knows_assess {s : AssessorState cap} {f : CanonicalFinding}
    (hs : knows cfg s (singleKey q f) = true) :
    (assess cfg q s f).1.reason ∉ otherReasons := by
  by_cases hu : urlOf f = ""
  · obtain ⟨s', hc, _⟩ := check_of_knows hs "" (textEntropy q f)
    rw [assess_of_payload hu, hc]
    exact duplicateReason_notMem _
  · obtain ⟨s', hc, _⟩ := check_of_knows hs (singleKey q f) 0
    rw [assess_of_url hu, hc]
    exact duplicateReason_notMem _

private theorem reason_of_knows_assessRow {b : AssessorState cap} {f : CanonicalFinding}
    (hb : knows cfg b (batchKey q f) = true) :
    (assessRow cfg q b f).1.reason ∉ otherReasons := by
  by_cases hu : urlOf f = ""
  · rw [batchKey_of_payload hu] at hb
    obtain ⟨b', hc, _⟩ := check_of_knows hb "" (textEntropy q f)
    rw [assessRow_of_payload hu, hc]
    exact duplicateReason_notMem _
  · obtain ⟨b', hc, _⟩ := check_of_knows hb (singleKey q f) 0
    rw [assessRow_of_url hu, hc]
    exact duplicateReason_notMem _

private theorem verdict_eq_iff (s b : AssessorState cap) (f : CanonicalFinding) (h : Alike s b) :
    verdict (assess cfg q s f).1 = verdict (assessRow cfg q b f).1 ↔
      knows cfg s (singleKey q f) = knows cfg b (batchKey q f) := by
  have hreason : verdict (assess cfg q s f).1 = verdict (assessRow cfg q b f).1 →
      (assess cfg q s f).1.reason = (assessRow cfg q b f).1.reason :=
    congrArg fun v : Bool × Bool × Option String => v.2.2
  cases hs : knows cfg s (singleKey q f) with
  | true =>
    cases hb : knows cfg b (batchKey q f) with
    | true => exact iff_of_true (step_of_knows h hs hb).1 rfl
    | false =>
      refine iff_of_false ?_ Bool.noConfusion
      intro hv
      apply reason_of_knows_assess hs
      rw [hreason hv]
      exact reason_assessRow hb
  | false =>
    cases hb : knows cfg b (batchKey q f) with
    | false => exact iff_of_true (step_of_not_knows h hs hb).1 rfl
    | true =>
      refine iff_of_false ?_ Bool.noConfusion
      intro hv
      apply reason_of_knows_assessRow hb
      rw [← hreason hv]
      exact reason_assess hs

private theorem step_alike (s b : AssessorState cap) (f : CanonicalFinding) (h : Alike s b)
    (hk : knows cfg s (singleKey q f) = knows cfg b (batchKey q f)) :
    Alike (assess cfg q s f).2 (assessRow cfg q b f).2 := by
  cases hs : knows cfg s (singleKey q f) with
  | true => exact (step_of_knows h hs (hk.symm.trans hs)).2
  | false => exact (step_of_not_knows h hs (hk.symm.trans hs)).2

/-! ### A list of findings -/

private theorem accepted_of_url {f : CanonicalFinding} (hu : urlOf f ≠ "") (b : AssessorState cap) :
    (assessRow cfg q b f).1.accepted = !knows cfg b (batchKey q f) := by
  rw [assessRow_of_url hu]
  cases hb : knows cfg b (batchKey q f) with
  | true =>
    obtain ⟨b', hc, _⟩ := check_of_knows hb (singleKey q f) 0
    rw [hc]
    rfl
  | false =>
    rw [check_of_not_knows hb]
    rfl

/-- The digest of the page is the real one, the others are not used. -/
private def pageFunctions : QualityFunctions where
  normalizeForQuality := id
  computeEntropy _ := 4
  normalizeOsintUrl url := url
  blake2b text := if text = "https://a.example" then "11691b2f2d8c365bac2086756b59bcef"
    else "00000000000000000000000000000000"
  normalizeOsintUrl_ne url h := by
    rintro rfl
    revert h
    decide
  length_blake2b text := by
    split <;> decide

private def linkedFinding (id : String) : CanonicalFinding where
  findingId := id
  query := "q"
  sourceType := "web"
  provenance := ["https://a.example"]

private def emptyState : AssessorState 10000 where
  hotCache := .empty (by decide)

end Hledac.Knowledge.QualityAssessor
