import Hledac.Evidence.ChainState
import Hledac.Evidence.Index

/-!
# Batches

When `create_events_batch` is all or nothing. Its loop stores each event before it builds the next
one, so a tuple that fails leaves the ones before it stored and linked, under a chain head that is
never written back.
-/

namespace Hledac.Evidence

open Hledac.Lib Hledac.Py Raising

variable {c : Codecs} {cfg : LogConfig}

/-! ### The loop on the tuples it keeps -/

/-- The tuples that sampling keeps. -/
def keptItems (cfg : LogConfig) (items : List BatchItem) : List BatchItem :=
  items.filter fun item => !sampledOut cfg item.draw item.eventType

theorem keptItems_cons_of_sampled {item : BatchItem}
    (h : sampledOut cfg item.draw item.eventType = true) (rest : List BatchItem) :
    keptItems cfg (item :: rest) = keptItems cfg rest := by
  simp [keptItems, h]

theorem keptItems_cons_of_kept {item : BatchItem}
    (h : ¬ sampledOut cfg item.draw item.eventType = true) (rest : List BatchItem) :
    keptItems cfg (item :: rest) = item :: keptItems cfg rest := by
  simp [keptItems, h]

theorem exec_batchLoop_keptItems (items : List BatchItem) (head : String) (s : EvidenceLog) :
    exec (batchLoop c cfg items head) s =
      exec (batchLoop c cfg (keptItems cfg items) head) s := by
  induction items generalizing head s with
  | nil => rfl
  | cons item rest ih =>
    by_cases hs : sampledOut cfg item.draw item.eventType = true
    · rw [exec_batchLoop_skip hs, keptItems_cons_of_sampled hs]
      exact ih head s
    · rw [keptItems_cons_of_kept hs]
      cases hb : buildBatchEvent c cfg item with
      | error err => rw [exec_batchLoop_fail hs hb, exec_batchLoop_fail hs hb]
      | ok event =>
        rcases hu : exec (updateIndexes (event.link head)) (s.digest head event) with ⟨err | _, t⟩
        · rw [exec_batchLoop_raise hs hb hu, exec_batchLoop_raise hs hb hu]
        · rw [exec_batchLoop_cons hs hb hu, exec_batchLoop_cons hs hb hu, ih]

/-- Every tuple's event can be built and, when it comes to it, has an index or meets a full ring;
`n` counts the events in the ring and those stored since. -/
def StoresAll (c : Codecs) (cfg : LogConfig) : Nat → List BatchItem → Prop
  | _, [] => True
  | n, item :: rest =>
    (∃ event, buildBatchEvent c cfg item = .ok event) ∧
      (item.eventType ∈ indexedTypes ∨ maxRamEvents ≤ n) ∧ StoresAll c cfg (n + 1) rest

/-- The events of a batch, each linked to the one before. -/
def linkAll (c : Codecs) (cfg : LogConfig) : String → List BatchItem → List EvidenceEvent
  | _, [] => []
  | head, item :: rest =>
    match buildBatchEvent c cfg item with
    | .ok event => event.link head ::
        linkAll c cfg (computeChainHash head event.contentHash event.eventId) rest
    | .error _ => []

private theorem updateIndexes_batchEvent {s : EvidenceLog} {n : Nat} (hk : KeysFixed s)
    (hn : s.log.length = min n maxRamEvents) {item : BatchItem} {event : EvidenceEvent}
    (hb : buildBatchEvent c cfg item = .ok event) (head : String) :
    KeysFixed (exec (updateIndexes (event.link head)) (s.digest head event)).2 ∧
      (exec (updateIndexes (event.link head)) (s.digest head event)).2.log.length =
        min (n + 1) maxRamEvents ∧
      (exec (updateIndexes (event.link head)) (s.digest head event)).2.totalCount =
        s.totalCount + 1 ∧
      ((exec (updateIndexes (event.link head)) (s.digest head event)).1 = .ok () ↔
        item.eventType ∈ indexedTypes ∨ maxRamEvents ≤ n) := by
  have hkd : KeysFixed (s.digest head event) := hk
  refine ⟨keysFixed_updateIndexes hkd _, ?_, totalCount_updateIndexes _ _, ?_⟩
  · rw [log_updateIndexes, Deque.length_append]
    show min (s.log.length + 1) maxRamEvents = _
    omega
  · rw [updateIndexes_ok_iff, hkd.hasIndex_iff]
    have ht : event.eventType = item.eventType := (buildBatchEvent_spec hb).2.2
    have hl : (s.digest head event).log.length = min n maxRamEvents := hn
    rw [show (event.link head).eventType = event.eventType from rfl, ht, hl]
    constructor
    · rintro (h | h)
      · right
        omega
      · exact .inl h
    · rintro (h | h)
      · exact .inr h
      · left
        omega

theorem totalCount_batchLoop_le (c : Codecs) (cfg : LogConfig) (items : List BatchItem) (head : String)
    (s : EvidenceLog) :
    s.totalCount ≤ (exec (batchLoop c cfg items head) s).2.totalCount := by
  have hstep : ∀ (t : EvidenceLog) (h : String) (event : EvidenceEvent),
      s.totalCount ≤ t.totalCount →
        s.totalCount ≤ (exec (updateIndexes (event.link h)) (t.digest h event)).2.totalCount := by
    intro t h event ht
    rw [totalCount_updateIndexes]
    exact Nat.le_succ_of_le ht
  obtain ⟨_, hI, _⟩ := batchLoop_invariant c cfg (I := fun t _ => s.totalCount ≤ t.totalCount)
    items (fun t h _ _ event ht _ => hstep t h event ht) s head (Nat.le_refl _)
  exact hI

theorem batchLoop_of_storesAll {items : List BatchItem} {n : Nat}
    (hkept : ∀ item ∈ items, ¬ sampledOut cfg item.draw item.eventType = true)
    (h : StoresAll c cfg n items) {s : EvidenceLog} (hk : KeysFixed s)
    (hn : s.log.length = min n maxRamEvents) (head : String) :
    ∃ head' t, exec (batchLoop c cfg items head) s = (.ok (linkAll c cfg head items, head'), t) ∧
      t.totalCount = s.totalCount + items.length := by
  induction items generalizing n s head with
  | nil => exact ⟨head, s, rfl, rfl⟩
  | cons item rest ih =>
    obtain ⟨⟨event, hb⟩, hty, hrest⟩ := h
    obtain ⟨hs, hkrest⟩ := List.forall_mem_cons.1 hkept
    obtain ⟨hk', hn', htot, hok⟩ := updateIndexes_batchEvent hk hn hb head
    rcases hu : exec (updateIndexes (event.link head)) (s.digest head event) with ⟨r, t⟩
    rw [hu] at hk' hn' htot hok
    have hr : r = .ok () := hok.2 hty
    subst hr
    obtain ⟨head', u, hx, hut⟩ := ih hkrest hrest hk' hn'
      (computeChainHash head event.contentHash event.eventId)
    refine ⟨head', u, ?_, ?_⟩
    · rw [exec_batchLoop_cons hs hb hu, hx]
      simp [linkAll, hb, Except.map]
    · simp only at htot
      rw [hut, htot, List.length_cons]
      omega

theorem batchLoop_of_not_storesAll {items : List BatchItem} {n : Nat}
    (hkept : ∀ item ∈ items, ¬ sampledOut cfg item.draw item.eventType = true)
    (h : ¬ StoresAll c cfg n items) {s : EvidenceLog} (hk : KeysFixed s)
    (hn : s.log.length = min n maxRamEvents) (head : String) :
    ∃ first rest err t, items = first :: rest ∧
      exec (batchLoop c cfg items head) s = (.error err, t) ∧
      ((∃ err', buildBatchEvent c cfg first = .error err' ∧ t = s) ∨
        (∃ event, buildBatchEvent c cfg first = .ok event) ∧ s.totalCount < t.totalCount) := by
  induction items generalizing n s head with
  | nil => exact absurd trivial h
  | cons item rest ih =>
    obtain ⟨hs, hkrest⟩ := List.forall_mem_cons.1 hkept
    cases hb : buildBatchEvent c cfg item with
    | error err =>
      exact ⟨item, rest, err, s, rfl, exec_batchLoop_fail hs hb rest head s,
        .inl ⟨err, hb, rfl⟩⟩
    | ok event =>
      obtain ⟨hk', hn', htot, hok⟩ := updateIndexes_batchEvent hk hn hb head
      rcases hu : exec (updateIndexes (event.link head)) (s.digest head event) with ⟨err | _, t⟩
      · rw [hu] at htot
        refine ⟨item, rest, err, t, rfl, exec_batchLoop_raise hs hb hu rest,
          .inr ⟨⟨event, hb⟩, ?_⟩⟩
        simp only at htot
        omega
      · rw [hu] at hk' hn' htot hok
        have hrest : ¬ StoresAll c cfg (n + 1) rest := fun hr => h ⟨⟨event, hb⟩, hok.1 rfl, hr⟩
        obtain ⟨first, rest', err, u, _, hx, _⟩ := ih hkrest hrest hk' hn'
          (computeChainHash head event.contentHash event.eventId)
        have hle := totalCount_batchLoop_le c cfg rest
          (computeChainHash head event.contentHash event.eventId) t
        refine ⟨item, rest, err, u, rfl, ?_, .inr ⟨⟨event, hb⟩, ?_⟩⟩
        · rw [exec_batchLoop_cons hs hb hu, hx]
          rfl
        · rw [hx] at hle
          simp only at htot hle
          omega

/-! ### All or nothing -/

/-- The ring buffer, the indexes, the counts and the chain head are as before. -/
def Unchanged (s t : EvidenceLog) : Prop :=
  t.log = s.log ∧ t.indexByType = s.indexByType ∧ t.indexBySource = s.indexBySource ∧
    t.totalCount = s.totalCount ∧ t.droppedCount = s.droppedCount ∧ t.chainHead = s.chainHead

/-- A raising batch leaves the ledger as it was. -/
def AllOrNothing (c : Codecs) (cfg : LogConfig) (env : BatchEnv) (items : List BatchItem)
    (s : EvidenceLog) : Prop :=
  ∀ err t, exec (createEventsBatch c cfg env items) s = (.error err, t) → Unchanged s t

/-- The kept tuples can all be stored and, if the channels are running, serialised for them. -/
def GoesThrough (c : Codecs) (cfg : LogConfig) (env : BatchEnv) (items : List BatchItem)
    (s : EvidenceLog) : Prop :=
  StoresAll c cfg s.log.length (keptItems cfg items) ∧
    (env.flushing = true → keptItems cfg items ≠ [] →
      channelPayloads c cfg (linkAll c cfg s.chainHead (keptItems cfg items)) = .ok ())

/-- The event of the first kept tuple cannot be built. -/
def FailsFirst (c : Codecs) (cfg : LogConfig) (items : List BatchItem) : Prop :=
  ∃ first rest err, keptItems cfg items = first :: rest ∧
    buildBatchEvent c cfg first = .error err

/-- The batch stops before its loop, goes through, or fails on its first kept tuple. -/
def Settles (c : Codecs) (cfg : LogConfig) (env : BatchEnv) (items : List BatchItem)
    (s : EvidenceLog) : Prop :=
  StopsEarly cfg env items ∨ GoesThrough c cfg env items s ∨ FailsFirst c cfg items

theorem not_sampledOut_of_mem_keptItems (items : List BatchItem) :
    ∀ item ∈ keptItems cfg items, ¬ sampledOut cfg item.draw item.eventType = true := by
  intro item h
  simpa [keptItems] using (List.mem_filter.1 h).2

theorem length_linkAll {items : List BatchItem} {n : Nat} (h : StoresAll c cfg n items)
    (head : String) : (linkAll c cfg head items).length = items.length := by
  induction items generalizing n head with
  | nil => rfl
  | cons item rest ih =>
    obtain ⟨⟨event, hb⟩, _, hrest⟩ := h
    simp [linkAll, hb, ih hrest]

theorem length_eq_min (s : EvidenceLog) : s.log.length = min s.log.length maxRamEvents :=
  (Nat.min_eq_left s.log.length_le).symm

theorem allOrNothing_iff {s : EvidenceLog} (hk : KeysFixed s) (env : BatchEnv)
    (items : List BatchItem) : AllOrNothing c cfg env items s ↔ Settles c cfg env items s := by
  by_cases hearly : StopsEarly cfg env items
  · refine iff_of_true (fun err t hx => ?_) (.inl hearly)
    have hs := exec_of_stopsEarly (c := c) hearly s
    rw [hx] at hs
    rw [show t = s from hs]
    exact ⟨rfl, rfl, rfl, rfl, rfl, rfl⟩
  have hne : ¬ (items.isEmpty || cfg.silentFailure) = true := fun h => hearly (.inl h)
  have hc : ¬ env.closed = true := fun h => hearly (.inr h)
  have hxe := exec_createEventsBatch (c := c) (s := s) hne hc
  rw [exec_batchLoop_keptItems] at hxe
  by_cases hst : StoresAll c cfg s.log.length (keptItems cfg items)
  · -- the loop goes through; only the channels can raise
    have hff : ¬ FailsFirst c cfg items := by
      rintro ⟨first, rest, err, hf, hb⟩
      rw [hf] at hst
      obtain ⟨event, he⟩ := hst.1
      rw [hb] at he
      cases he
    obtain ⟨head', t, hl, htot⟩ := batchLoop_of_storesAll (not_sampledOut_of_mem_keptItems items) hst
      hk (length_eq_min s) s.chainHead
    have hlen := length_linkAll hst s.chainHead
    rw [hl] at hxe
    simp only [exec_sendToMpscChannels] at hxe
    by_cases hnil : keptItems cfg items = []
    · have hemp : (linkAll c cfg s.chainHead (keptItems cfg items)).isEmpty = true := by
        rw [hnil]
        rfl
      rw [if_pos hemp] at hxe
      refine iff_of_true (fun err u hx => ?_) (.inr (.inl ⟨hst, fun _ h => absurd hnil h⟩))
      rw [hxe] at hx
      cases hx
    · have hemp : ¬ (linkAll c cfg s.chainHead (keptItems cfg items)).isEmpty = true := by
        rw [List.isEmpty_iff, ← List.length_eq_zero_iff, hlen, List.length_eq_zero_iff]
        exact hnil
      rw [if_neg hemp] at hxe
      by_cases hf : env.flushing = true
      · rw [if_pos hf] at hxe
        cases hp : channelPayloads c cfg (linkAll c cfg s.chainHead (keptItems cfg items)) with
        | ok u =>
          rw [hp] at hxe
          refine iff_of_true (fun err v hx => ?_) (.inr (.inl ⟨hst, fun _ _ => hp⟩))
          rw [hxe] at hx
          cases hx
        | error err =>
          rw [hp] at hxe
          apply iff_of_false
          · intro hall
            have hun := hall _ _ hxe
            have hcount : t.totalCount = s.totalCount := hun.2.2.2.1
            rw [htot] at hcount
            exact hnil (List.length_eq_zero_iff.1 (by omega))
          · rintro (h | h | h)
            · exact hearly h
            · rw [h.2 hf hnil] at hp
              cases hp
            · exact hff h
      · rw [if_neg hf] at hxe
        refine iff_of_true (fun err v hx => ?_) (.inr (.inl ⟨hst, fun h => absurd h hf⟩))
        rw [hxe] at hx
        cases hx
  · obtain ⟨first, rest, err, t, hf, hl, hcase⟩ := batchLoop_of_not_storesAll
      (not_sampledOut_of_mem_keptItems items) hst hk (length_eq_min s) s.chainHead
    rw [hl] at hxe
    rcases hcase with ⟨err', hb, rfl⟩ | ⟨⟨event, hb⟩, hlt⟩
    · refine iff_of_true (fun err'' u hx => ?_) (.inr (.inr ⟨first, rest, err', hf, hb⟩))
      rw [hxe] at hx
      cases hx
      exact ⟨rfl, rfl, rfl, rfl, rfl, rfl⟩
    · apply iff_of_false
      · intro hall
        have hcount : t.totalCount = s.totalCount := (hall _ _ hxe).2.2.2.1
        omega
      · rintro (h | h | ⟨first', rest', err', hf', hb'⟩)
        · exact hearly h
        · exact hst h.1
        · rw [hf] at hf'
          obtain ⟨rfl, _⟩ := List.cons.inj hf'
          rw [hb] at hb'
          cases hb'

end Hledac.Evidence
