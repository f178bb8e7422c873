import Hledac.Lib.Lockstep
import Hledac.Lib.Machine
import Hledac.Knowledge.IngestRuns

/-!
# Which runs lose no finding to a fingerprint

The gate remembers a fingerprint before the finding is stored, and a batch uses one key for all URLs.
A run answers "duplicate" only for findings that are stored where each call keeps to a condition on
what it remembers and on what may meet the shared key.
-/

namespace Hledac.Knowledge

open Hledac.Lib
open Raising

variable {cap : Nat} {q : QualityFunctions}

/-- Every finding of a chunk has a URL: the chunk is assessed at all. -/
def hasUrls (chunk : List CanonicalFinding) : Prop :=
  ∀ f ∈ chunk, QualityGate.extractUrlFromProvenance f.provenance ≠ ""

/-- Assessing the chunk leaves the shared key behind, in the persistent map or in the hot cache. -/
def LeavesKey (m : DedupManager cap) (chunk : List CanonicalFinding) : Prop :=
  hasUrls chunk ∧ (m.lmdb.isSome = true ∨ ∃ f ∈ chunk, QualityGate.isFeedSource f = false)

/-- A finding of chunk number `c` that comes after `before` may find the shared key known: it was, or
another chunk leaves it, or one of the findings before does. -/
def MayMeetKey (m : DedupManager cap) (chunks : List (List CanonicalFinding)) (c : Nat)
    (before : List CanonicalFinding) : Prop :=
  m.knows "" = true ∨
    (∃ c' chunk, c' ≠ c ∧ chunks[c']? = some chunk ∧ LeavesKey m chunk) ∨
    ∃ g ∈ before, QualityGate.isFeedSource g = false

namespace IngestRun

/-- A single call for a new URL that will be remembered has the finding stored, unless one with its
fingerprint is; in a batch, every finding that may meet the shared key has its fingerprint
stored. -/
def KeepsFindings (q : QualityFunctions) (r : IngestRun cap) : IngestCall → Prop
  | .single f record => ∀ m, r.store.gate.dedupManager = some m →
      QualityGate.extractUrlFromProvenance f.provenance ≠ "" → m.knows (fingerprint q f) = false →
        m.lmdb.isSome = true ∨ QualityGate.isFeedSource f = false →
          fingerprint q f ∈ r.stored ∨ record.durable = true
  | .batch cfg out _ findings => ∀ m, r.store.gate.dedupManager = some m →
      ∀ c chunk before f after, (gateChunks cfg out findings)[c]? = some chunk → hasUrls chunk →
        chunk = before ++ f :: after → MayMeetKey m (gateChunks cfg out findings) c before →
          fingerprint q f ∈ r.stored

/-- What the store knows, less the shared key, is stored. -/
def Sound (r : IngestRun cap) : Prop :=
  ∀ m, r.store.gate.dedupManager = some m → ∀ fp, fp ≠ "" → m.knows fp = true → fp ∈ r.stored

end IngestRun

/-! ### One turn -/

section Turn

open QualityGate

variable {s : GateStore cap} {n : DedupManager cap} {f : CanonicalFinding}

private theorem exec_assessRow_of_manager (hm : s.dedupManager = some n)
    (hurl : extractUrlFromProvenance f.provenance ≠ "")
    (acc : List FindingQualityDecision × List (String × String)) :
    ∃ d queue t, exec (assessRow acc (urlRow q f)) s = (.ok (acc.1 ++ [d], acc.2 ++ queue), t) ∧
      t.dedupManager = some (n.assessed true "" f) ∧ d.isDuplicate = n.knows "" ∧
        ∀ p ∈ queue, p.1 = "" := by
  rw [exec_assessRow]
  cases hk : n.knows "" with
  | true =>
    rw [exec_guards_of_knows (i := batchInput q f) hm hk]
    refine ⟨_, _, _, rfl, ?_, rfl, ?_⟩
    · rw [DedupManager.assessed, if_pos hk]
      rfl
    · intro p hp
      cases hp
  | false =>
    rw [exec_guards_of_url (i := batchInput q f) hm hk (urlFingerprint_ne hurl)]
    refine ⟨_, _, _, rfl, ?_, rfl, ?_⟩
    · rw [DedupManager.assessed, hk]
      rfl
    · intro p hp
      rw [List.mem_singleton.1 hp]
      rfl

private theorem exec_assessRow_of_no_manager (hm : s.dedupManager = none)
    (hurl : extractUrlFromProvenance f.provenance ≠ "")
    (acc : List FindingQualityDecision × List (String × String)) :
    ∃ r t, exec (assessRow acc (urlRow q f)) s = (r, t) ∧ t.dedupManager = none ∧
      ∀ acc', r = .ok acc' → ∃ d queue, acc' = (acc.1 ++ [d], acc.2 ++ queue) ∧
        d.isDuplicate = false ∧ ∀ p ∈ queue, p.1 = "" := by
  obtain ⟨state, hx⟩ := exec_guards_of_no_manager (i := batchInput q f) hm (urlFingerprint_ne hurl)
  rw [exec_assessRow, hx]
  cases isFeedSource (batchInput q f).finding with
  | false => exact ⟨_, _, rfl, hm, nofun⟩
  | true =>
    refine ⟨_, _, rfl, hm, ?_⟩
    rintro _ ⟨⟩
    refine ⟨_, _, rfl, rfl, ?_⟩
    intro p hp
    rw [List.mem_singleton.1 hp]
    rfl

private theorem exec_flush_of_manager (hm : s.dedupManager = some n)
    (items : List (String × String)) :
    ∃ t, exec (flushDedupBatch items) s = (.ok ⟨⟩, t) ∧
      t.dedupManager = some (n.storePersistentDedupBatch items) := by
  rw [flushDedupBatch, exec_bind_ok (exec_get s), hm]
  by_cases h : items = []
  · refine ⟨s, ?_, ?_⟩
    · simp only [h, ne_eq, not_true_eq_false, if_false]
      rfl
    · rw [h, DedupManager.storePersistentDedupBatch_nil, hm]
  · simp only [ne_eq, h, not_false_eq_true, if_true]
    exact ⟨_, rfl, rfl⟩

private theorem exec_flush_of_no_manager (hm : s.dedupManager = none)
    (items : List (String × String)) : exec (flushDedupBatch items) s = (.ok ⟨⟩, s) := by
  rw [flushDedupBatch, exec_bind_ok (exec_get s), hm]
  rfl

end Turn

/-! ### The tasks of the gate -/

/-- The duplicates among the decisions on `fs` are stored. -/
private def DuplicatesStored (q : QualityFunctions) (stored : List String)
    (fs : List CanonicalFinding) (ds : List FindingQualityDecision) : Prop :=
  ∀ p ∈ fs.zip ds, p.2.isDuplicate = true → fingerprint q p.1 ∈ stored

/-- A task is somewhere in its chunk, and what it has rejected so far is stored. -/
private def TaskOf (q : QualityFunctions) (stored : List String) (chunk : List CanonicalFinding) :
    GateTask → Prop
  | .running rows acc => hasUrls chunk ∧ ∃ before after, chunk = before ++ after ∧
      rows = after.map (QualityGate.urlRow q) ∧ acc.1.length = before.length ∧
        (∀ p ∈ acc.2, p.1 = "") ∧ DuplicatesStored q stored before acc.1
  | .done (.ok ds) => DuplicatesStored q stored chunk ds
  | .done (.error _) => True

/-- The task may have left the shared key behind. -/
private def HasLeftKey (q : QualityFunctions) (m : DedupManager cap)
    (chunk : List CanonicalFinding) : GateTask → Prop
  | .running rows _ => ∃ before after, chunk = before ++ after ∧
      rows = after.map (QualityGate.urlRow q) ∧ ∃ g ∈ before, QualityGate.isFeedSource g = false
  | .done _ => LeavesKey m chunk

private theorem taskOf_start (stored : List String) (chunk : List CanonicalFinding) :
    TaskOf q stored chunk (GateTask.start q chunk) := by
  rw [GateTask.start]
  by_cases h : hasUrls chunk
  · rw [QualityGate.preprocess_of_urls h]
    refine ⟨h, [], chunk, rfl, ?_, rfl, by simp, fun _ h => absurd h List.not_mem_nil⟩
    have hzip : (chunk.map id).zip (chunk.map fun f => (QualityGate.urlRow q f).2) =
        chunk.map (QualityGate.urlRow q) := List.zip_map'
    rwa [List.map_id] at hzip
  · rw [hasUrls] at h
    push Not at h
    obtain ⟨f, hf, hno⟩ := h
    rw [QualityGate.preprocess_of_payload hf hno]
    trivial

private theorem DuplicatesStored.append {stored : List String} {before : List CanonicalFinding}
    {ds : List FindingQualityDecision} {f : CanonicalFinding} {d : FindingQualityDecision}
    (h : DuplicatesStored q stored before ds) (hlen : ds.length = before.length)
    (hd : d.isDuplicate = true → fingerprint q f ∈ stored) :
    DuplicatesStored q stored (before ++ [f]) (ds ++ [d]) := by
  intro p hp
  rw [List.zip_append hlen.symm, List.mem_append] at hp
  rcases hp with hp | hp
  · exact h p hp
  · rw [List.zip_cons_cons, List.zip_nil_left, List.mem_singleton] at hp
    rw [hp]
    exact hd

private theorem before_unique {before before' after after' : List CanonicalFinding}
    (h : before ++ after = before' ++ after')
    (hrows : after.map (QualityGate.urlRow q) = after'.map (QualityGate.urlRow q)) :
    before = before' := by
  have hlen : after.length = after'.length := by
    rw [← List.length_map (QualityGate.urlRow q), hrows, List.length_map]
  exact (List.append_inj' h hlen).1

section Turns

variable {m : DedupManager cap} {stored : List String} {chunk : List CanonicalFinding}

/-- The manager `n` has learnt nothing but, perhaps, the shared key. -/
private structure LearntKey (m n : DedupManager cap) : Prop where
  lmdb : n.lmdb.isSome = m.lmdb.isSome
  others : ∀ fp, fp ≠ "" → n.knows fp = true → m.knows fp = true

private theorem LearntKey.assessed {n : DedupManager cap} (h : LearntKey m n)
    (f : CanonicalFinding) : LearntKey m (n.assessed true "" f) where
  lmdb := DedupManager.lmdb_isSome_assessed.trans h.lmdb
  others fp hne hk := h.others fp hne (DedupManager.knows_of_knows_assessed hne hk)

private theorem LearntKey.flushed {n : DedupManager cap} (h : LearntKey m n)
    {items : List (String × String)} (hi : ∀ p ∈ items, p.1 = "") :
    LearntKey m (n.storePersistentDedupBatch items) where
  lmdb := (DedupManager.lmdb_isSome_storePersistentDedupBatch items).trans h.lmdb
  others fp hne hk := by
    rw [DedupManager.knows_storePersistentDedupBatch_of_ne hi hne] at hk
    exact h.others fp hne hk

/-- A turn under a manager: the task goes on in its chunk, and where the shared key is new, the task has
left it. `hsafe` is asked only of a finding that meets the key. -/
private theorem turn_of_manager {s : GateStore cap} {n : DedupManager cap} {task : GateTask}
    (hm : s.dedupManager = some n) (hn : LearntKey m n) (ht : TaskOf q stored chunk task)
    (hsafe : n.knows "" = true → ∀ before f after acc,
      task = .running ((f :: after).map (QualityGate.urlRow q)) acc →
        chunk = before ++ f :: after → hasUrls chunk → fingerprint q f ∈ stored) :
    TaskOf q stored chunk (task.turn s).1 ∧ ∃ n', (task.turn s).2.dedupManager = some n' ∧
      LearntKey m n' ∧
        (n'.knows "" = true → n.knows "" = true ∨ HasLeftKey q m chunk (task.turn s).1) ∧
          (HasLeftKey q m chunk task → HasLeftKey q m chunk (task.turn s).1) := by
  cases task with
  | done o => exact ⟨ht, n, hm, hn, .inl, id⟩
  | running rows acc =>
    obtain ⟨hurls, before, after, hchunk, hrows, hlen, hqueue, hdup⟩ := ht
    cases after with
    | nil =>
      cases hrows
      rw [List.append_nil] at hchunk
      cases hchunk
      obtain ⟨t, hx, ht⟩ := exec_flush_of_manager hm acc.2
      rw [List.map_nil, GateTask.turn, hx]
      refine ⟨hdup, _, ht, hn.flushed hqueue, ?_, ?_⟩
      · intro hk
        cases hl : m.lmdb with
        | none =>
          left
          rw [DedupManager.storePersistentDedupBatch_of_lmdb_none] at hk
          · exact hk
          · rw [← Option.isNone_iff_eq_none, ← Option.isSome_eq_false_iff, hn.lmdb, hl]
            rfl
        | some l =>
          right
          refine ⟨hurls, .inl ?_⟩
          rw [hl]
          rfl
      · rintro ⟨before', after', hchunk', hrows', g, hg, hfeed⟩
        refine ⟨hurls, .inr ⟨g, ?_, hfeed⟩⟩
        rw [hchunk']
        exact List.mem_append_left _ hg
    | cons f after =>
      cases hrows
      have hurl := hurls f (by rw [hchunk]; exact List.mem_append_right _ List.mem_cons_self)
      obtain ⟨d, queue, t, hx, ht, hd, hq⟩ := exec_assessRow_of_manager (q := q) hm hurl acc
      have hchunk' : chunk = (before ++ [f]) ++ after := by
        rw [hchunk, List.append_assoc, List.singleton_append]
      rw [List.map_cons, GateTask.turn, hx]
      refine ⟨⟨hurls, before ++ [f], after, hchunk', rfl, ?_, ?_, ?_⟩, _, ht, hn.assessed f, ?_, ?_⟩
      · rw [List.length_append, List.length_append, hlen]
        rfl
      · intro p hp
        exact (List.mem_append.1 hp).elim (hqueue p) (hq p)
      · apply hdup.append hlen
        intro hdt
        rw [hd] at hdt
        exact hsafe hdt before f after acc rfl hchunk hurls
      · intro hk
        by_cases hold : n.knows "" = true
        · exact .inl hold
        · right
          refine ⟨before ++ [f], after, hchunk', rfl, f, ?_, ?_⟩
          · exact List.mem_append_right _ List.mem_cons_self
          · rw [← Bool.not_eq_true]
            intro hfeed
            rw [DedupManager.assessed_of_feed_of_not_knows hfeed (Bool.eq_false_iff.2 hold)] at hk
            exact hold hk
      · rintro ⟨before', after', hb, hr, g, hg, hfeed⟩
        refine ⟨before ++ [f], after, hchunk', rfl, g, ?_, hfeed⟩
        rw [before_unique (hchunk.symm.trans hb) hr]
        exact List.mem_append_left _ hg

end Turns

/-! ### The phase of the gate -/

section Phase

variable {m : DedupManager cap} {stored : List String} {chunks : List (List CanonicalFinding)}

/-- While the tasks take turns: each is in its chunk, nothing but the shared key is learnt, and that one
from a task that has left it. -/
private structure PhaseKeeps (q : QualityFunctions) (m : DedupManager cap) (stored : List String)
    (chunks : List (List CanonicalFinding)) (p : GatePhase cap) : Prop where
  tasks : List.Forall₂ (TaskOf q stored) chunks p.1
  manager : ∃ n, p.2.dedupManager = some n ∧ LearntKey m n ∧ (n.knows "" = true →
    m.knows "" = true ∨ ∃ (c : Nat) (chunk : List CanonicalFinding) (task : GateTask),
      chunks[c]? = some chunk ∧ p.1[c]? = some task ∧
      HasLeftKey q m chunk task)

/-- The condition on a batch, for the findings of one chunk. -/
private def SafeChunks (q : QualityFunctions) (m : DedupManager cap) (stored : List String)
    (chunks : List (List CanonicalFinding)) : Prop :=
  ∀ c chunk before f after, chunks[c]? = some chunk → hasUrls chunk →
    chunk = before ++ f :: after → MayMeetKey m chunks c before → fingerprint q f ∈ stored

private theorem mayMeetKey_of_hasLeftKey {c c' : Nat} {before after : List CanonicalFinding}
    {chunk' : List CanonicalFinding} {task' : GateTask} {tasks : List GateTask}
    {acc : List FindingQualityDecision × List (String × String)} {chunk : List CanonicalFinding}
    (hchunk : chunks[c]? = some chunk) (hsplit : chunk = before ++ after)
    (htask : tasks[c]? = some (.running (after.map (QualityGate.urlRow q)) acc))
    (hchunk' : chunks[c']? = some chunk') (htask' : tasks[c']? = some task')
    (hurls' : List.Forall₂ (TaskOf q stored) chunks tasks) (hleft : HasLeftKey q m chunk' task') :
    MayMeetKey m chunks c before := by
  right
  by_cases hc : c' = c
  · right
    rw [hc, hchunk, Option.some_inj] at hchunk'
    rw [hc, htask, Option.some_inj] at htask'
    rw [← hchunk', ← htask'] at hleft
    obtain ⟨b, a, hb, hr, g, hg, hfeed⟩ := hleft
    rw [before_unique (hsplit.symm.trans hb) hr]
    exact ⟨g, hg, hfeed⟩
  · left
    refine ⟨c', chunk', hc, hchunk', ?_⟩
    obtain ⟨ch, hch, ht⟩ := forall₂_getElem? hurls' htask'
    rw [hchunk', Option.some_inj] at hch
    rw [← hch] at ht
    cases task' with
    | done o => exact hleft
    | running rows acc =>
      obtain ⟨b, a, hb, _, g, hg, hfeed⟩ := hleft
      refine ⟨ht.1, .inr ⟨g, ?_, hfeed⟩⟩
      rw [hb]
      exact List.mem_append_left _ hg

private theorem PhaseKeeps.take {p : GatePhase cap} (h : PhaseKeeps q m stored chunks p)
    (hsafe : SafeChunks q m stored chunks) (k : Nat) :
    PhaseKeeps q m stored chunks (p.take k) := by
  obtain ⟨htasks, n, hm, hn, hkey⟩ := h
  rw [GatePhase.take]
  cases hk : p.1[k]? with
  | none => exact ⟨htasks, n, hm, hn, hkey⟩
  | some task =>
    obtain ⟨chunk, hchunk, ht⟩ := forall₂_getElem? htasks hk
    have hlt : k < p.1.length := (List.getElem?_eq_some_iff.1 hk).1
    have hmeet : n.knows "" = true → ∀ before f after acc,
        task = .running ((f :: after).map (QualityGate.urlRow q)) acc →
          chunk = before ++ f :: after → hasUrls chunk → fingerprint q f ∈ stored := by
      rintro hk' before f after acc rfl hsplit hurls
      apply hsafe k chunk before f after hchunk hurls hsplit
      rcases hkey hk' with h0 | ⟨c', chunk', task', hc', ht', hleft⟩
      · exact .inl h0
      · exact mayMeetKey_of_hasLeftKey hchunk hsplit hk hc' ht' htasks hleft
    obtain ⟨htask, n', hm', hn', hnew, hkeep⟩ := turn_of_manager hm hn ht hmeet
    refine ⟨forall₂_set htasks hchunk htask, n', hm', hn', ?_⟩
    intro hk'
    rcases hnew hk' with hold | hleft
    · apply (hkey hold).imp_right
      rintro ⟨c', chunk', task', hc', ht', hleft⟩
      by_cases hc : c' = k
      · rw [hc, hchunk, Option.some_inj] at hc'
        rw [hc, hk, Option.some_inj] at ht'
        refine ⟨k, chunk, _, hchunk, List.getElem?_set_self hlt, hkeep ?_⟩
        rw [hc', ht']
        exact hleft
      · refine ⟨c', chunk', task', hc', ?_, hleft⟩
        rw [List.getElem?_set_ne (Ne.symm hc)]
        exact ht'
    · exact .inr ⟨k, chunk, _, hchunk, List.getElem?_set_self hlt, hleft⟩

/-- Without a manager no task rejects a duplicate. -/
private structure PhaseIdle (q : QualityFunctions) (chunks : List (List CanonicalFinding))
    (p : GatePhase cap) : Prop where
  tasks : List.Forall₂ (TaskOf q []) chunks p.1
  manager : p.2.dedupManager = none

private theorem PhaseIdle.take {p : GatePhase cap} (h : PhaseIdle q chunks p) (k : Nat) :
    PhaseIdle q chunks (p.take k) := by
  obtain ⟨htasks, hm⟩ := h
  rw [GatePhase.take]
  cases hk : p.1[k]? with
  | none => exact ⟨htasks, hm⟩
  | some task =>
    obtain ⟨chunk, hchunk, ht⟩ := forall₂_getElem? htasks hk
    suffices TaskOf q [] chunk (task.turn p.2).1 ∧ (task.turn p.2).2.dedupManager = none from
      ⟨forall₂_set htasks hchunk this.1, this.2⟩
    cases task with
    | done o => exact ⟨ht, hm⟩
    | running rows acc =>
      obtain ⟨hurls, before, after, hsplit, hrows, hlen, hqueue, hdup⟩ := ht
      cases after with
      | nil =>
        cases hrows
        rw [List.append_nil] at hsplit
        cases hsplit
        rw [List.map_nil, GateTask.turn, exec_flush_of_no_manager hm]
        exact ⟨hdup, hm⟩
      | cons f after =>
        cases hrows
        have hurl := hurls f (by rw [hsplit]; exact List.mem_append_right _ List.mem_cons_self)
        obtain ⟨r, t, hx, ht, hr⟩ := exec_assessRow_of_no_manager (q := q) hm hurl acc
        rw [List.map_cons, GateTask.turn, hx]
        cases r with
        | error e => exact ⟨trivial, ht⟩
        | ok acc' =>
          obtain ⟨d, queue, rfl, hd, hq⟩ := hr acc' rfl
          refine ⟨⟨hurls, before ++ [f], after, ?_, rfl, ?_, ?_, hdup.append hlen ?_⟩, ht⟩
          · rw [hsplit, List.append_assoc, List.singleton_append]
          · rw [List.length_append, List.length_append, hlen]
            rfl
          · intro p hp
            exact (List.mem_append.1 hp).elim (hqueue p) (hq p)
          · rw [hd]
            intro h
            cases h

variable (q m stored) in
private theorem phaseKeeps_start {s : GateStore cap} (hm : s.dedupManager = some m)
    (chunks : List (List CanonicalFinding)) :
    PhaseKeeps q m stored chunks (GatePhase.start q chunks s) where
  tasks := by
    rw [GatePhase.start, List.forall₂_map_right_iff, List.forall₂_same]
    exact fun chunk _ => taskOf_start stored chunk
  manager := ⟨m, hm, ⟨rfl, fun _ _ h => h⟩, .inl⟩

private theorem phaseKeeps_run {s : GateStore cap} (hm : s.dedupManager = some m)
    (hsafe : SafeChunks q m stored chunks) (schedule : List Nat) :
    PhaseKeeps q m stored chunks (GatePhase.run q chunks schedule s) := by
  have h0 := foldl_invariant (I := PhaseKeeps q m stored chunks) (fun _ k h => h.take hsafe k)
    schedule (phaseKeeps_start q m stored hm chunks)
  rw [GatePhase.run]
  split
  · exact h0
  · exact foldl_invariant (I := PhaseKeeps q m stored chunks) (fun _ k h => h.take hsafe k) _ h0

private theorem phaseIdle_run {s : GateStore cap} (hm : s.dedupManager = none)
    (schedule : List Nat) : PhaseIdle q chunks (GatePhase.run q chunks schedule s) := by
  have hstart : PhaseIdle q chunks (GatePhase.start q chunks s) := by
    refine ⟨?_, hm⟩
    rw [GatePhase.start, List.forall₂_map_right_iff, List.forall₂_same]
    exact fun chunk _ => taskOf_start [] chunk
  have h0 := foldl_invariant (I := PhaseIdle q chunks) (fun _ k h => h.take k) schedule hstart
  rw [GatePhase.run]
  split
  · exact h0
  · exact foldl_invariant (I := PhaseIdle q chunks) (fun _ k h => h.take k) _ h0

private theorem duplicates_stored {tasks : List GateTask}
    (h : List.Forall₂ (TaskOf q stored) chunks tasks) :
    ∀ f ∈ (chunks.zip tasks).flatMap (fun p =>
      ((p.1.zip p.2.decisions).filter fun d => d.2.isDuplicate).map (·.1)),
        fingerprint q f ∈ stored := by
  intro f hf
  obtain ⟨⟨chunk, task⟩, hp, hf⟩ := List.mem_flatMap.1 hf
  obtain ⟨d, hd, rfl⟩ := List.mem_map.1 hf
  obtain ⟨hd, hdup⟩ := List.mem_filter.1 hd
  have ht : TaskOf q stored chunk task := List.forall₂_zip h hp
  cases task with
  | running rows acc =>
    have hnil : d ∈ chunk.zip ([] : List FindingQualityDecision) := hd
    rw [List.zip_nil_right] at hnil
    cases hnil
  | done o =>
    cases o with
    | error e =>
      have hnil : d ∈ chunk.zip ([] : List FindingQualityDecision) := hd
      rw [List.zip_nil_right] at hnil
      cases hnil
    | ok ds => exact ht d hd hdup

end Phase

/-! ### The calls -/

namespace IngestRun

private theorem batch_keeps {r : IngestRun cap} {cfg : IngestSettings} {out : Surroundings}
    {schedule : List Nat} {findings : List CanonicalFinding}
    (hc : KeepsFindings q r (.batch cfg out schedule findings)) (hs : r.Sound) :
    (∀ f ∈ duplicates q r (.batch cfg out schedule findings), fingerprint q f ∈ r.stored) ∧
      (r.step q (.batch cfg out schedule findings)).Sound := by
  cases hm : r.store.gate.dedupManager with
  | none =>
    have h : PhaseIdle q (gateChunks cfg out findings) _ := phaseIdle_run hm schedule
    constructor
    · intro f hf
      cases duplicates_stored h.tasks f hf
    · intro n hn
      have hnone : (r.step q (.batch cfg out schedule findings)).store.gate.dedupManager = none :=
        h.manager
      rw [hnone] at hn
      cases hn
  | some m =>
    have h := phaseKeeps_run hm (hc m hm) schedule
    refine ⟨duplicates_stored h.tasks, ?_⟩
    obtain ⟨n, hn, hlearnt, _⟩ := h.manager
    intro n' hn' fp hne hk
    have heq : (r.step q (.batch cfg out schedule findings)).store.gate.dedupManager = some n := hn
    rw [heq, Option.some_inj] at hn'
    rw [← hn'] at hk
    exact List.mem_append_right _ (hs m hm fp hne (hlearnt.others fp hne hk))

private theorem exec_assess_of_manager {s : GateStore cap} {m : DedupManager cap}
    (hm : s.dedupManager = some m) (f : CanonicalFinding) :
    ∃ d t, exec (QualityGate.assessFindingQuality q f) s = (.ok d, t) ∧
      (d.accepted = true ∨ m.knows (fingerprint q f) = true) ∧
        ∃ n, t.dedupManager = some n ∧ ((∀ fp, n.knows fp = true → m.knows fp = true) ∨
          d.accepted = true ∧ m.knows (fingerprint q f) = false ∧
            QualityGate.extractUrlFromProvenance f.provenance ≠ "" ∧
              n = m.accept false (fingerprint q f) f) := by
  rw [exec_assessFindingQuality]
  cases hk : m.knows (fingerprint q f) with
  | true =>
    rw [QualityGate.exec_guards_of_knows (i := gateInput q f) hm hk]
    refine ⟨_, _, rfl, .inr rfl, _, rfl, .inl ?_⟩
    intro fp hfp
    by_cases he : fp = fingerprint q f
    · rw [he]
      exact hk
    · rw [DedupManager.knows_iff, DedupManager.lookupPersistentDedup_promote] at hfp
      exact DedupManager.knows_iff.2
        (hfp.imp_left fun h => (DedupManager.mem_keys_of_mem_promote h).resolve_left he)
  | false =>
    by_cases hurl : QualityGate.extractUrlFromProvenance f.provenance ≠ ""
    · rw [QualityGate.exec_guards_of_url (i := gateInput q f) hm hk (gateInput_urlFp_ne_iff.2 hurl)]
      exact ⟨_, _, rfl, .inl rfl, _, rfl, .inr ⟨rfl, rfl, hurl, rfl⟩⟩
    · have hn : ∀ n, s.dedupManager = some n → n.knows (gateInput q f).fp = false := by
        intro n hn
        rw [hm, Option.some_inj] at hn
        rw [← hn]
        exact hk
      rw [QualityGate.exec_guards_of_no_url hn
        (by by_contra h; exact hurl (gateInput_urlFp_ne_iff.1 h))]
      exact ⟨_, _, rfl, .inl rfl, m, hm, .inl fun _ h => h⟩

private theorem exec_assess_of_no_manager {s : GateStore cap} (hm : s.dedupManager = none)
    (f : CanonicalFinding) :
    ∃ d t, exec (QualityGate.assessFindingQuality q f) s = (.ok d, t) ∧ d.accepted = true ∧
      t.dedupManager = none := by
  rw [exec_assessFindingQuality]
  by_cases hurl : QualityGate.extractUrlFromProvenance f.provenance ≠ ""
  · obtain ⟨state, hx⟩ := QualityGate.exec_guards_of_no_manager (i := gateInput q f) hm
      (gateInput_urlFp_ne_iff.2 hurl)
    rw [hx]
    cases QualityGate.isFeedSource (gateInput q f).finding <;> exact ⟨_, _, rfl, rfl, hm⟩
  · have hn : ∀ n, s.dedupManager = some n → n.knows (gateInput q f).fp = false := by
      intro n hn
      rw [hm] at hn
      cases hn
    rw [QualityGate.exec_guards_of_no_url hn
      (by by_contra h; exact hurl (gateInput_urlFp_ne_iff.1 h))]
    exact ⟨_, _, rfl, rfl, hm⟩

/-- A single call remembers a fingerprint only for a finding that is stored. -/
private theorem single_keeps {r : IngestRun cap} {f : CanonicalFinding} {record : ActivationResult}
    (hc : KeepsFindings q r (.single f record)) (hs : r.Sound) :
    (∀ g ∈ duplicates q r (.single f record), fingerprint q g ∈ r.stored) ∧
      (r.step q (.single f record)).Sound := by
  cases hm : r.store.gate.dedupManager with
  | none =>
    obtain ⟨d, t, hx, hd, ht⟩ := exec_assess_of_no_manager (q := q) hm f
    have he := exec_ingestFinding record hx
    rw [if_pos hd] at he
    constructor
    · intro g hg
      rw [duplicates, he] at hg
      cases hg
    · intro n hn
      rw [step, he] at hn
      rw [show t.dedupManager = some n from hn] at ht
      cases ht
  | some m =>
    obtain ⟨d, t, hx, hacc, n, ht, hn⟩ := exec_assess_of_manager (q := q) hm f
    have he := exec_ingestFinding record hx
    cases hd : d.accepted with
    | false =>
      rw [if_neg (by rw [hd]; exact Bool.false_ne_true)] at he
      have hk := hacc.resolve_left (by rw [hd]; exact Bool.false_ne_true)
      constructor
      · intro g hg
        rw [duplicates, he] at hg
        simp only at hg
        split at hg
        · rw [List.mem_singleton.1 hg]
          exact hs m hm _ (fingerprint_ne q f) hk
        · cases hg
      · intro n' hn' fp hne hfp
        rw [step, he] at hn' ⊢
        rw [show t.dedupManager = some n' from hn', Option.some_inj] at ht
        rw [ht] at hfp
        apply hs m hm fp hne
        apply hn.elim (fun h => h fp hfp)
        rintro ⟨h, _⟩
        rw [hd] at h
        cases h
    | true =>
      rw [if_pos hd] at he
      constructor
      · intro g hg
        rw [duplicates, he] at hg
        cases hg
      · intro n' hn' fp hne hfp
        rw [step, he] at hn' ⊢
        rw [show t.dedupManager = some n' from hn', Option.some_inj] at ht
        rw [ht] at hfp
        -- what was stored still is
        have hmono : ∀ g ∈ r.stored,
            g ∈ if record.durable then fingerprint q f :: r.stored else r.stored := by
          intro g hg
          split
          · exact List.mem_cons_of_mem _ hg
          · exact hg
        show fp ∈ if record.durable then fingerprint q f :: r.stored else r.stored
        rcases hn with hold | ⟨_, hk, hurl, rfl⟩
        · exact hmono _ (hs m hm fp hne (hold fp hfp))
        · have hassessed : m.accept false (fingerprint q f) f =
              m.assessed false (fingerprint q f) f := by
            rw [DedupManager.assessed, hk]
            rfl
          rw [hassessed] at hfp
          by_cases he : fp = fingerprint q f
          · rw [he] at hfp ⊢
            have htrace : m.lmdb.isSome = true ∨ QualityGate.isFeedSource f = false := by
              by_contra h
              push Not at h
              rw [DedupManager.assessed_of_feed (by simpa using h.1) (by simpa using h.2), hk] at hfp
              cases hfp
            rcases hc m hm hurl hk htrace with hst | hdur
            · exact hmono _ hst
            · rw [if_pos hdur]
              exact List.mem_cons_self
          · exact hmono _ (hs m hm fp hne (DedupManager.knows_of_knows_assessed he hfp))

section Page

open QualityGate

/-- A store that has seen nothing. -/
def fresh : IngestRun 10000 where
  store :=
    { gate := freshStore
      temporalAnonymizer := true
      graphAttachment := true
      writeOpCounter := some 0 }

theorem sound_fresh : fresh.Sound := by
  rintro m ⟨⟩ fp _ hk
  cases hk

/-- What recording the page comes to. -/
def recordPage (lmdb : Bool) : ActivationResult where
  findingId := "a"
  lmdbSuccess := lmdb
  duckdbSuccess := none
  lmdbKey := "finding:a"
  desync := false
  error := none
  accepted := lmdb

/-- The page is ingested, and ingested again. -/
def pageTwice (lmdb : Bool) : List IngestCall :=
  [.single (pageFinding "a" "https://a.example") (recordPage lmdb),
    .single (pageFinding "a" "https://a.example") (recordPage lmdb)]

end Page

end IngestRun

end Hledac.Knowledge
