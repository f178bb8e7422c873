import Hledac.Knowledge.QualityGateRuns

/-!
# What the guards return and leave

The guards as equations: a known fingerprint is rejected, promoted and counted, an unknown one of a
URL is accepted and remembered, and an unknown one without a URL raises.
-/

namespace Hledac.Knowledge

open Hledac.Lib
open Raising

variable {cap : Nat}

/-- The counter of a duplicate: the first guard counts what the hot cache knows, the second what
only the persistent map does. -/
def QualityAssessmentState.countDuplicate (q : QualityAssessmentState) (hot : Bool) :
    QualityAssessmentState :=
  if hot then { q with qualityDuplicateCount := q.qualityDuplicateCount + 1 }
  else { q with persistentDuplicateCount := q.persistentDuplicateCount + 1 }

namespace QualityGate

/-- The decision on a known fingerprint. -/
def GateInput.duplicate (i : GateInput) : FindingQualityDecision :=
  i.rejected (some i.duplicateReason) true

/-- The store once a known fingerprint is rejected. -/
def rejectedStore (s : GateStore cap) (m : DedupManager cap) (i : GateInput) : GateStore cap :=
  let q := s.qualityState.countDuplicate (m.hotCache.lookup i.fp).isSome
  { s with
    dedupManager := some (m.promote i.fp)
    qualityState := if i.batch then q else q.recordRejection i.finding i.duplicate }

/-- The store once an unknown fingerprint of a URL is accepted. -/
def acceptedStore (s : GateStore cap) (m : DedupManager cap) (i : GateInput) : GateStore cap :=
  { s with
    dedupManager := some (m.accept i.batch i.fp i.finding)
    qualityState := if i.batch then s.qualityState
      else { s.qualityState with acceptedCount := s.qualityState.acceptedCount + 1 } }

/-- The store without a manager once the persistent write is made. A batch queues it. -/
def writtenStore (s : GateStore cap) (i : GateInput) : GateStore cap :=
  if i.batch then s
  else { s with dedupLmdb := s.dedupLmdb.map fun l => l.put i.fp i.finding.findingId }

/-- What is queued for an accepted finding. -/
def GateInput.queue (i : GateInput) : List (String × String) :=
  if i.batch then [(i.fp, i.finding.findingId)] else []

variable {s : GateStore cap} {m : DedupManager cap} {i : GateInput}

private theorem exec_dispatchRejection (t : GateStore cap) (d : FindingQualityDecision) :
    exec (dispatchRejection i d) t = (.ok d, { t with
      qualityState := if i.batch then t.qualityState
        else t.qualityState.recordRejection i.finding d }) := by
  rw [dispatchRejection]
  cases i.batch <;> rfl

private theorem exec_g1_of_miss (h : (s.dedupManager.bind fun m => m.hotCache.lookup i.fp) = none) :
    exec (g1HotCacheCheck i) s = (.ok none, s) := by
  have hlook : exec (hotCacheLookup i.fp) s = (.ok none, s) := by
    rw [hotCacheLookup, exec_bind_ok (exec_get s), h]
    rfl
  rw [g1HotCacheCheck, exec_bind_ok hlook]
  rfl

private theorem exec_g2_of_miss
    (h : (s.dedupManager.bind fun m => m.lookupPersistentDedup i.fp) = none) :
    exec (g2PersistentDedupCheck i) s = (.ok none, s) := by
  have hlook : exec (lookupPersistentDedup i.fp) s = (.ok none, s) := by
    rw [lookupPersistentDedup, exec_bind_ok (exec_get s), h]
    rfl
  rw [g2PersistentDedupCheck, exec_bind_ok hlook]
  rfl

theorem exec_guards_of_knows (hm : s.dedupManager = some m) (h : m.knows i.fp = true) :
    exec (runStatefulQualityGuards i) s = (.ok (i.duplicate, []), rejectedStore s m i) := by
  rw [runStatefulQualityGuards]
  cases hhot : m.hotCache.lookup i.fp with
  | some v =>
    have hlook : exec (hotCacheLookup i.fp) s = (.ok (some v), s) := by
      rw [hotCacheLookup, exec_bind_ok (exec_get s), hm, Option.bind_some, hhot]
      rfl
    have hg1 : exec (g1HotCacheCheck i) s = (.ok (some i.duplicate), rejectedStore s m i) := by
      rw [g1HotCacheCheck, exec_bind_ok hlook]
      apply (exec_bind_ok (exec_modify _ s)).trans
      apply (exec_bind_ok (exec_dispatchRejection _ _)).trans
      rcases s with ⟨_, l, q⟩
      cases hm
      simp only [rejectedStore, DedupManager.promote, hhot]
      rfl
    rw [exec_bind_ok hg1]
    rfl
  | none =>
    have hg1 : exec (g1HotCacheCheck i) s = (.ok none, s) := by
      apply exec_g1_of_miss
      rw [hm, Option.bind_some, hhot]
    rw [DedupManager.knows, hhot, Option.isSome_none, Bool.false_or] at h
    obtain ⟨storedId, hid⟩ := Option.isSome_iff_exists.1 h
    have hlook : exec (lookupPersistentDedup i.fp) s = (.ok (some storedId), s) := by
      rw [lookupPersistentDedup, exec_bind_ok (exec_get s), hm, Option.bind_some, hid]
      rfl
    have hadd : exec (addToHotCache i.fp storedId) s =
        (.ok ⟨⟩, { s with dedupManager := some (m.addToHotCache i.fp storedId) }) := by
      rw [addToHotCache, exec_bind_ok (exec_get s), hm]
      rfl
    have hg2 : exec (g2PersistentDedupCheck i) s = (.ok (some i.duplicate), rejectedStore s m i) := by
      rw [g2PersistentDedupCheck, exec_bind_ok hlook]
      apply (exec_bind_ok hadd).trans
      apply (exec_bind_ok (exec_modify _ _)).trans
      apply (exec_bind_ok (exec_dispatchRejection _ _)).trans
      simp only [rejectedStore, DedupManager.promote, hhot, hid]
      rfl
    rw [exec_bind_ok hg1, exec_bind_ok hg2]
    rfl

private theorem exec_misses (h : ∀ n, s.dedupManager = some n → n.knows i.fp = false) :
    exec (g1HotCacheCheck i) s = (.ok none, s) ∧ exec (g2PersistentDedupCheck i) s = (.ok none, s) := by
  have hnone : (s.dedupManager.bind fun m => m.hotCache.lookup i.fp) = none ∧
      (s.dedupManager.bind fun m => m.lookupPersistentDedup i.fp) = none := by
    cases hm : s.dedupManager with
    | none => exact ⟨rfl, rfl⟩
    | some n =>
      have hn := h n hm
      rw [DedupManager.knows, Bool.or_eq_false_iff, Option.isSome_eq_false_iff,
        Option.isSome_eq_false_iff, Option.isNone_iff_eq_none, Option.isNone_iff_eq_none] at hn
      exact hn
  exact ⟨exec_g1_of_miss hnone.1, exec_g2_of_miss hnone.2⟩

theorem exec_guards_of_no_url (h : ∀ n, s.dedupManager = some n → n.knows i.fp = false)
    (hurl : i.urlFp = "") :
    exec (runStatefulQualityGuards i) s =
      (.error (.nameError "_QUALITY_MIN_ENTROPY_LEN"), s) := by
  rw [runStatefulQualityGuards, exec_bind_ok (exec_misses h).1, exec_bind_ok (exec_misses h).2]
  simp only [hurl, ne_eq, not_true_eq_false, if_false]
  rfl

theorem exec_guards_of_url (hm : s.dedupManager = some m) (h : m.knows i.fp = false)
    (hurl : i.urlFp ≠ "") :
    exec (runStatefulQualityGuards i) s = (.ok (i.accepted, i.queue), acceptedStore s m i) := by
  have hn : ∀ n, s.dedupManager = some n → n.knows i.fp = false := by
    intro n hn
    rw [hm, Option.some_inj] at hn
    rw [← hn]
    exact h
  have hhot : ∀ (t : GateStore cap) (n : DedupManager cap), t.dedupManager = some n →
      exec (do
          if !isFeedSource i.finding then addToHotCache i.fp i.finding.findingId
          return if i.batch then [(i.fp, i.finding.findingId)] else []) t =
        (.ok (if i.batch then [(i.fp, i.finding.findingId)] else []),
          { t with dedupManager := some (if isFeedSource i.finding then n
              else n.addToHotCache i.fp i.finding.findingId) }) := by
    rintro ⟨_, l, q⟩ n rfl
    cases isFeedSource i.finding <;> rfl
  have hcommon : exec (acceptFindingsCommon i) s =
      (.ok i.queue, { s with dedupManager := some (m.accept i.batch i.fp i.finding) }) := by
    rw [acceptFindingsCommon, GateInput.queue]
    simp only [DedupManager.accept]
    cases hb : i.batch with
    | true =>
      have := hhot s m hm
      rw [hb] at this
      exact this
    | false =>
      have hstore : exec (storePersistentDedup i.fp i.finding.findingId) s =
          (.ok ⟨⟩, { s with
            dedupManager := some (m.storePersistentDedup i.fp i.finding.findingId) }) := by
        rw [storePersistentDedup, exec_bind_ok (exec_get s), hm]
        rfl
      apply (exec_bind_ok hstore).trans
      have := hhot { s with dedupManager := some (m.storePersistentDedup i.fp i.finding.findingId) }
        _ rfl
      rw [hb] at this
      exact this
  rw [runStatefulQualityGuards, exec_bind_ok (exec_misses hn).1, exec_bind_ok (exec_misses hn).2]
  simp only [if_pos hurl]
  rw [acceptFinding, exec_bind_ok hcommon, acceptedStore]
  cases i.batch <;> rfl

theorem exec_guards_of_no_manager (hm : s.dedupManager = none) (hurl : i.urlFp ≠ "") :
    ∃ q, exec (runStatefulQualityGuards i) s =
      (if isFeedSource i.finding then .ok (i.accepted, i.queue)
        else .error (.attributeError "_hot_cache_fallback"),
        { writtenStore s i with qualityState := q }) := by
  have hn : ∀ n, s.dedupManager = some n → n.knows i.fp = false := by
    intro n hn
    rw [hm] at hn
    cases hn
  have hstore : exec (storePersistentDedup i.fp i.finding.findingId) s =
      (.ok ⟨⟩, { s with dedupLmdb := s.dedupLmdb.map fun l => l.put i.fp i.finding.findingId }) := by
    rcases s with ⟨_, l, q⟩
    cases hm
    rfl
  have hcommon : exec (acceptFindingsCommon i) s =
      (if isFeedSource i.finding then .ok i.queue
        else .error (.attributeError "_hot_cache_fallback"), writtenStore s i) := by
    rw [acceptFindingsCommon, GateInput.queue, writtenStore]
    rcases s with ⟨_, l, q⟩
    cases hm
    cases i.batch <;> cases isFeedSource i.finding <;> rfl
  rw [runStatefulQualityGuards, exec_bind_ok (exec_misses hn).1, exec_bind_ok (exec_misses hn).2]
  simp only [if_pos hurl]
  rw [acceptFinding, exec_bind, hcommon]
  cases isFeedSource i.finding with
  | false => exact ⟨_, rfl⟩
  | true =>
    cases i.batch <;> exact ⟨_, rfl⟩

end QualityGate

end Hledac.Knowledge
