import Hledac.Knowledge.PersistentDedup

/-!
# Runs of the persistent deduplication

A run of lookups, stores, initialisations and closes on one manager. Whenever the host has a Bloom filter
class every store and lookup raises, since the second generation of the filter cannot be assigned, and the
manager's own LMDB never opens. So the unified store alone answers, and only without a filter.
-/

namespace Hledac.Knowledge.PersistentDedup

open Hledac.Lib Raising DedupManager

variable {B : Type} {bloom : BloomMethods B} {host : Host B} {m : DedupManager B}
  {fp : Fingerprint} {env : LmdbEnv} {pairs : List (String × String)}

/-! ### What LMDB holds -/

theorem putAll_of_fits (h : ∀ p ∈ pairs, 0 < p.1.utf8ByteSize ∧ p.1.utf8ByteSize ≤ maxKeySize) :
    env.putAll pairs = env.insertAll pairs := by
  have hfold : pairs.foldlM LmdbEnv.put env = .ok (env.insertAll pairs) := by
    induction pairs generalizing env with
    | nil => rfl
    | cons p pairs ih =>
      obtain ⟨⟨hpos, hle⟩, hrest⟩ := List.forall_mem_cons.1 h
      have hput : LmdbEnv.put env p = .ok (env.insert p.1 p.2) := by
        rw [LmdbEnv.put, if_neg]
        omega
      rw [List.foldlM_cons, hput]
      exact ih hrest
  rw [LmdbEnv.putAll, hfold]

/-- The key of a fingerprint in the unified store. -/
def unifiedKey (fp : Fingerprint) : String :=
  UnifiedLMDBStore.prefixed "dedup" (dedupKeyFromFingerprint fp)

theorem size_unifiedKey (fp : Fingerprint) : (unifiedKey fp).utf8ByteSize = 44 := by
  have hsize := fp.size
  rw [unifiedKey, UnifiedLMDBStore.prefixed, dedupKeyFromFingerprint, String.utf8ByteSize_append,
    String.utf8ByteSize_append, String.utf8ByteSize_append, hsize]
  rfl

theorem unifiedKey_inj {a b : Fingerprint} : unifiedKey a = unifiedKey b ↔ a = b := by
  constructor
  · intro h
    rw [unifiedKey, unifiedKey, UnifiedLMDBStore.prefixed, UnifiedLMDBStore.prefixed,
      dedupKeyFromFingerprint, dedupKeyFromFingerprint] at h
    have htext : a.text = b.text := by
      apply String.ext
      have hlist := congrArg String.toList h
      simp only [String.toList_append] at hlist
      exact List.append_cancel_left (List.append_cancel_left hlist)
    cases a
    cases b
    cases htext
    rfl
  · intro h
    rw [h]

/-- What the unified store holds of a fingerprint. -/
def held (u : UnifiedLMDBStore) (fp : Fingerprint) : Option String :=
  u.getRaw "dedup" (dedupKeyFromFingerprint fp)

/-- The last pair of a fingerprint. -/
def lastOf (items : List (Fingerprint × String)) (fp : Fingerprint) : Option String :=
  (items.reverse.find? fun p => decide (p.1 = fp)).map Prod.snd

/-- The pairs of some fingerprints as they are put. -/
def dedupPairs (items : List (Fingerprint × String)) : List (String × String) :=
  items.map fun p => (dedupKeyFromFingerprint p.1, p.2)

theorem held_putmultiRaw {u : UnifiedLMDBStore} (hopen : u.closed = false)
    (items : List (Fingerprint × String)) (fp : Fingerprint) :
    held (u.putmultiRaw "dedup" (dedupPairs items)) fp = (lastOf items fp).or (held u fp) := by
  have hkeys : (dedupPairs items).map (fun p => (UnifiedLMDBStore.prefixed "dedup" p.1, p.2)) =
      items.map fun p => (unifiedKey p.1, p.2) := by
    rw [dedupPairs, List.map_map]
    rfl
  have hfits : ∀ p ∈ items.map fun p => (unifiedKey p.1, p.2),
      0 < p.1.utf8ByteSize ∧ p.1.utf8ByteSize ≤ maxKeySize := by
    intro p hp
    obtain ⟨q, _, rfl⟩ := List.mem_map.1 hp
    show 0 < (unifiedKey q.1).utf8ByteSize ∧ (unifiedKey q.1).utf8ByteSize ≤ 511
    rw [size_unifiedKey]
    omega
  have hput : u.putmultiRaw "dedup" (dedupPairs items) =
      { u with file := u.file.insertAll (items.map fun p => (unifiedKey p.1, p.2)) } := by
    rw [UnifiedLMDBStore.putmultiRaw, if_neg (by simp [hopen]), hkeys, putAll_of_fits hfits]
  have hread : ∀ v : UnifiedLMDBStore, v.closed = false → held v fp = v.file.get? (unifiedKey fp) := by
    intro v hv
    rw [held, UnifiedLMDBStore.getRaw, if_neg (by simp [hv])]
    rfl
  rw [hread u hopen, hput]
  refine (hread { u with file := u.file.insertAll (items.map fun p => (unifiedKey p.1, p.2)) } hopen).trans ?_
  rw [Dict.get?_insertAll, ← List.map_reverse, List.find?_map, Option.map_map, lastOf]
  have hsame : (fun e : String × String => decide (e.1 = unifiedKey fp)) ∘
      (fun p : Fingerprint × String => (unifiedKey p.1, p.2)) = fun p => decide (p.1 = fp) := by
    ext p
    show decide (unifiedKey p.1 = unifiedKey fp) = decide (p.1 = fp)
    rw [decide_eq_decide]
    exact unifiedKey_inj
  rw [hsame]
  rfl

/-! ### The methods -/

theorem exec_initBloomFilterPrecheck_of_noClass (h : host.bloomClass = .ok none) (m : DedupManager B) :
    exec (initBloomFilterPrecheck host) m =
      (.ok (), { m with bloomFilterError := some "Rust MmapBloomFilter not available" }) := by
  rw [initBloomFilterPrecheck, exec_tryCatch, openBloomFilters, h, exec_bind_ok (exec_ofExcept _ _)]
  rfl

/-- A part of the code that touches the filter only. -/
def SameButFilter (m t : DedupManager B) : Prop :=
  { t with bloomFilter := none } = { m with bloomFilter := none }

theorem ensures_openBloomFilters (h : host.bloomClass ≠ .ok none) (m : DedupManager B) :
    Ensures (SameButFilter m) (openBloomFilters host) (fun _ _ => False) fun _ t => SameButFilter m t := by
  have hnoSlot : "_bloom_previous" ∉ slots := by decide
  have hassign : ∀ active : B, Ensures (SameButFilter m)
      (assign "_bloom_filter" fun t => { t with bloomFilter := some active }) (fun _ t => SameButFilter m t)
      fun _ t => SameButFilter m t := by
    intro active
    rw [assign, if_pos (by decide)]
    exact ensures_modify fun t ht => ht
  apply Ensures.bind (R := fun bloomClass t => host.bloomClass = .ok bloomClass ∧ SameButFilter m t)
  · exact ensures_ofExcept (fun a t ha ht => ⟨ha, ht⟩) fun e t _ ht => ht
  intro bloomClass
  cases bloomClass with
  | none => exact fun t ht => absurd ht.1 h
  | some bloomFilter =>
    apply Ensures.bind (R := fun _ => SameButFilter m)
    · exact ensures_ofExcept (fun _ t _ ht => ht.2) fun e t _ ht => ht.2
    intro active
    apply Ensures.bind (hassign active)
    intro _
    apply Ensures.bind (R := fun _ => SameButFilter m)
    · exact ensures_ofExcept (fun _ t _ ht => ht) fun e t _ ht => ht
    intro previous
    apply Ensures.bind (R := fun _ _ => False)
    · rw [assign, if_neg hnoSlot]
      exact ensures_throw fun t ht => ht
    · exact fun _ t ht => ht.elim

theorem exec_initBloomFilterPrecheck_of_class (h : host.bloomClass ≠ .ok none) (m : DedupManager B) :
    exec (initBloomFilterPrecheck host) m =
      (.error (.attributeError "_bloom_previous"), { m with bloomFilter := none }) := by
  rw [initBloomFilterPrecheck, exec_tryCatch]
  have hopen := ensures_openBloomFilters h m m rfl
  cases hx : exec (openBloomFilters host) m with
  | mk r t =>
    rw [hx] at hopen
    cases r with
    | ok a => exact hopen.elim
    | error e => exact congrArg (Prod.mk _) hopen

/-- Another state of the manager: the same stores, neither the filter nor its own LMDB opened. -/
structure SameStores (m t : DedupManager B) : Prop where
  useUnified : t.useUnified = m.useUnified
  unifiedStore : t.unifiedStore = m.unifiedStore
  bloomFilter : t.bloomFilter = none
  dedupLmdb : t.dedupLmdb = false

/-- What every step starts from. -/
def Idle (m : DedupManager B) : Prop := SameStores m m

theorem ensures_ensureBloomFilter_of_class (h : host.bloomClass ≠ .ok none) (m : DedupManager B) :
    Ensures (SameStores m) (ensureBloomFilter host) (fun _ _ => False) fun _ t => SameStores m t := by
  intro t ht
  have hx : exec (ensureBloomFilter host) t =
      (.error (.attributeError "_bloom_previous"), { t with bloomFilter := none }) := by
    rw [ensureBloomFilter, exec_bind_ok (exec_get t), if_pos (Option.isNone_iff_eq_none.2 ht.bloomFilter)]
    exact exec_initBloomFilterPrecheck_of_class h t
  rw [hx]
  exact ⟨ht.useUnified, ht.unifiedStore, rfl, ht.dedupLmdb⟩

theorem yields_ensureBloomFilter (h : host.bloomClass = .ok none) (m : DedupManager B) :
    Yields (SameStores m) (ensureBloomFilter host) () := by
  apply ensures_of_returns
  intro t ht
  refine ⟨(), { t with bloomFilterError := some "Rust MmapBloomFilter not available" }, ?_, rfl,
    ht.useUnified, ht.unifiedStore, ht.bloomFilter, ht.dedupLmdb⟩
  rw [ensureBloomFilter, exec_bind_ok (exec_get t), if_pos (Option.isNone_iff_eq_none.2 ht.bloomFilter)]
  exact exec_initBloomFilterPrecheck_of_noClass h t

theorem yields_initPersistentDedupLmdb (host : Host B) (m : DedupManager B) :
    Yields (SameStores m) (initPersistentDedupLmdb host) () := by
  apply ensures_of_returns
  intro t ht
  rw [initPersistentDedupLmdb, LMDBKVStore.init]
  cases host.lmdbOpens with
  | true => exact ⟨(), _, rfl, rfl, ht.useUnified, ht.unifiedStore, ht.bloomFilter, rfl⟩
  | false => exact ⟨(), _, rfl, rfl, ht.useUnified, ht.unifiedStore, ht.bloomFilter, rfl⟩

theorem yields_ensureDedupLmdb (host : Host B) (m : DedupManager B) :
    Yields (SameStores m) (ensureDedupLmdb host) () := by
  intro t ht
  rw [ensureDedupLmdb, exec_bind_ok (exec_get t), if_pos ht.dedupLmdb]
  exact yields_initPersistentDedupLmdb host m t ht

theorem yields_initMmapIocDedupStore (host : Host B) (m : DedupManager B) :
    Yields (SameStores m) (initMmapIocDedupStore host) () := by
  apply ensures_of_returns
  intro t ht
  rw [initMmapIocDedupStore]
  cases host.iocStore with
  | noPath text => exact ⟨(), _, rfl, rfl, ht.useUnified, ht.unifiedStore, ht.bloomFilter, ht.dedupLmdb⟩
  | noClass => exact ⟨(), _, rfl, rfl, ht.useUnified, ht.unifiedStore, ht.bloomFilter, ht.dedupLmdb⟩
  | raised text => exact ⟨(), _, rfl, rfl, ht.useUnified, ht.unifiedStore, ht.bloomFilter, ht.dedupLmdb⟩
  | opened => exact ⟨(), _, rfl, rfl, ht.useUnified, ht.unifiedStore, ht.bloomFilter, ht.dedupLmdb⟩

theorem yields_ensureIocDedupStore (host : Host B) (m : DedupManager B) :
    Yields (SameStores m) (ensureIocDedupStore host) () := by
  intro t ht
  rw [ensureIocDedupStore, exec_bind_ok (exec_get t)]
  by_cases hioc : t.iocDedupStore = false
  · rw [if_pos hioc]
    exact yields_initMmapIocDedupStore host m t ht
  · rw [if_neg hioc]
    exact ⟨rfl, ht⟩

theorem yields_initSemanticDedupCache (host : Host B) (m : DedupManager B) :
    Yields (SameStores m) (initSemanticDedupCache host) () := by
  apply ensures_of_returns
  intro t ht
  rw [initSemanticDedupCache]
  cases host.semanticCache with
  | ok _ => exact ⟨(), _, rfl, rfl, ht.useUnified, ht.unifiedStore, ht.bloomFilter, ht.dedupLmdb⟩
  | error text => exact ⟨(), _, rfl, rfl, ht.useUnified, ht.unifiedStore, ht.bloomFilter, ht.dedupLmdb⟩

theorem lookupOpened_of_idle (h : SameStores m m) (bloom : BloomMethods B) (fp : Fingerprint) :
    m.lookupOpened bloom fp = if m.useUnified then held m.unifiedStore fp else none := by
  have hmay : m.mayContain bloom fp = true := by
    rw [mayContain, h.bloomFilter]
  rw [lookupOpened, hmay, h.dedupLmdb]
  rfl

theorem yields_lookupPersistentDedup (h : host.bloomClass = .ok none) (bloom : BloomMethods B)
    (fp : Fingerprint) (m : DedupManager B) : Yields (SameStores m) (lookupPersistentDedup bloom host fp)
      (if m.useUnified then held m.unifiedStore fp else none) := by
  apply (yields_ensureBloomFilter h m).bind
  apply (yields_ensureDedupLmdb host m).bind
  apply (yields_ensureIocDedupStore host m).bind
  apply ensures_of_returns
  intro t ht
  refine ⟨t.lookupOpened bloom fp, t, rfl, ?_, ht⟩
  rw [lookupOpened_of_idle ⟨rfl, rfl, ht.bloomFilter, ht.dedupLmdb⟩, ht.useUnified, ht.unifiedStore]

theorem ensures_lookupPersistentDedup_of_class (h : host.bloomClass ≠ .ok none) (bloom : BloomMethods B)
    (fp : Fingerprint) (m : DedupManager B) :
    Ensures (SameStores m) (lookupPersistentDedup bloom host fp) (fun _ _ => False)
      fun _ t => SameStores m t :=
  (ensures_ensureBloomFilter_of_class h m).bind fun _ _ ht => ht.elim

/-- The stores after some pairs have been put. -/
def afterPut (m : DedupManager B) (pairs : List (String × String)) : DedupManager B :=
  { m with unifiedStore :=
      if m.useUnified then m.unifiedStore.putmultiRaw "dedup" pairs else m.unifiedStore }

theorem SameStores.putPairs {t : DedupManager B} (ht : SameStores m t) (pairs : List (String × String)) :
    SameStores (afterPut m pairs) (t.putPairs pairs) := by
  rw [DedupManager.putPairs]
  by_cases hu : m.useUnified = true
  · rw [if_pos (ht.useUnified.trans hu)]
    refine ⟨ht.useUnified, ?_, ht.bloomFilter, ht.dedupLmdb⟩
    rw [afterPut, if_pos hu, ← ht.unifiedStore]
  · rw [if_neg (ht.useUnified ▸ hu), if_neg (by simp [ht.dedupLmdb])]
    refine ⟨ht.useUnified, ?_, ht.bloomFilter, ht.dedupLmdb⟩
    rw [afterPut, if_neg hu]
    exact ht.unifiedStore

theorem ensures_put_of_noClass (h : host.bloomClass = .ok none) (f : B → B) (m : DedupManager B)
    (pairs : List (String × String)) :
    Ensures (SameStores m) (do
      ensureBloomFilter host
      ensureDedupLmdb host
      modify fun t => { t with bloomFilter := t.bloomFilter.map f }
      modify (DedupManager.putPairs pairs) : DedupM B Unit)
      (fun _ t => SameStores (afterPut m pairs) t) fun _ _ => False := by
  apply (yields_ensureBloomFilter h m).bind
  apply (yields_ensureDedupLmdb host m).bind
  apply Ensures.bind (R := fun _ => SameStores m)
  · apply ensures_modify
    intro t ht
    refine ⟨ht.useUnified, ht.unifiedStore, ?_, ht.dedupLmdb⟩
    show t.bloomFilter.map f = none
    rw [ht.bloomFilter]
    rfl
  · intro _
    exact ensures_modify fun t ht => ht.putPairs pairs

theorem ensures_put_of_class (h : host.bloomClass ≠ .ok none) (f : B → B) (m : DedupManager B)
    (pairs : List (String × String)) :
    Ensures (SameStores m) (do
      ensureBloomFilter host
      ensureDedupLmdb host
      modify fun t => { t with bloomFilter := t.bloomFilter.map f }
      modify (DedupManager.putPairs pairs) : DedupM B Unit)
      (fun _ _ => False) fun _ t => SameStores m t :=
  (ensures_ensureBloomFilter_of_class h m).bind fun _ _ ht => ht.elim

/-! ### Runs -/

/-- A call of one of the methods. -/
inductive Step (B : Type) where
  | initializeManager
  | ainitializeManager (host : Host B)
  | lookup (host : Host B) (fp : Fingerprint)
  | store (host : Host B) (fp : Fingerprint) (findingId : String)
  | storeBatch (host : Host B) (items : List (Fingerprint × String))
  | close

/-- The manager after a call, whether it returned or raised. -/
def step (bloom : BloomMethods B) (m : DedupManager B) : Step B → DedupManager B
  | .initializeManager => (exec initializeManager m).2
  | .ainitializeManager host => (exec (ainitializeManager host) m).2
  | .lookup host fp => (exec (lookupPersistentDedup bloom host fp) m).2
  | .store host fp findingId => (exec (storePersistentDedup bloom host fp findingId) m).2
  | .storeBatch host items => (exec (storePersistentDedupBatch bloom host items) m).2
  | .close => (exec close m).2

/-- A new manager over the stores it is given; `dedup.py:399-439`. -/
def fresh (useUnified : Bool) (unifiedStore : UnifiedLMDBStore) (ownFile : LmdbEnv) : DedupManager B :=
  { useUnified := useUnified, unifiedStore := unifiedStore, ownFile := ownFile }

/-- The manager after some calls on a new one. -/
abbrev run (bloom : BloomMethods B) (useUnified : Bool) (unifiedStore : UnifiedLMDBStore)
    (ownFile : LmdbEnv) (steps : List (Step B)) : DedupManager B :=
  steps.foldl (step bloom) (fresh useUnified unifiedStore ownFile)

/-- The pairs that a call stores. -/
def Step.stored : Step B → List (Fingerprint × String)
  | .store _ fp findingId => [(fp, findingId)]
  | .storeBatch _ items => items
  | _ => []

/-- The finding of the latest store of a fingerprint. -/
def latest (steps : List (Step B)) (fp : Fingerprint) : Option String := lastOf (steps.flatMap Step.stored) fp

/-- No sub-store is open. -/
def Released (m : DedupManager B) : Prop :=
  m.bloomFilter = none ∧ m.dedupLmdb = false ∧ m.iocDedupStore = false ∧ m.semanticDedupCache = false

/-- The unified store is in use and open, and there is no filter class. -/
def Unfiltered (m : DedupManager B) (host : Host B) : Prop :=
  host.bloomClass = .ok none ∧ m.useUnified = true ∧ m.unifiedStore.closed = false

/-- The condition on a call: a lookup or a store meets the unified store without a filter class, and a
close finds neither an IOC store nor a semantic cache open. -/
def Meets (m : DedupManager B) : Step B → Prop
  | .initializeManager | .ainitializeManager _ => True
  | .lookup host _ | .store host _ _ | .storeBatch host _ => Unfiltered m host
  | .close => m.iocDedupStore = false ∧ m.semanticDedupCache = false

theorem SameStores.idle {t : DedupManager B} (h : SameStores m t) : Idle t :=
  ⟨rfl, rfl, h.bloomFilter, h.dedupLmdb⟩

theorem ensures_initBloomFilterPrecheck (host : Host B) (m : DedupManager B) :
    Ensures (SameStores m) (initBloomFilterPrecheck host) (fun _ => SameStores m) fun _ => SameStores m := by
  intro t ht
  by_cases h : host.bloomClass = .ok none
  · rw [exec_initBloomFilterPrecheck_of_noClass h]
    exact ⟨ht.useUnified, ht.unifiedStore, ht.bloomFilter, ht.dedupLmdb⟩
  · rw [exec_initBloomFilterPrecheck_of_class h]
    exact ⟨ht.useUnified, ht.unifiedStore, rfl, ht.dedupLmdb⟩

theorem ensures_ainitializeManager (host : Host B) (m : DedupManager B) :
    Ensures (SameStores m) (ainitializeManager host) (fun _ => SameStores m) fun _ => SameStores m := by
  intro t ht
  rw [ainitializeManager, exec_bind_ok (exec_get t)]
  by_cases hinit : t.initialized = true
  · rw [if_pos hinit]
    exact ht
  · rw [if_neg hinit]
    have hrest : Ensures (SameStores m) (do
        initPersistentDedupLmdb host
        initBloomFilterPrecheck host
        initMmapIocDedupStore host
        initSemanticDedupCache host
        assign "_initialized" fun m => { m with initialized := true } : DedupM B Unit)
        (fun _ => SameStores m) fun _ => SameStores m := by
      apply (yields_initPersistentDedupLmdb host m).bind
      apply (ensures_initBloomFilterPrecheck host m).bind
      intro _
      apply (yields_initMmapIocDedupStore host m).bind
      apply (yields_initSemanticDedupCache host m).bind
      rw [assign, if_pos (by decide)]
      exact ensures_modify fun u hu => ⟨hu.useUnified, hu.unifiedStore, hu.bloomFilter, hu.dedupLmdb⟩
    exact hrest t ht

theorem sameStores_step (h : Idle m) (s : Step B) (hs : s.stored = []) : SameStores m (step bloom m s) := by
  cases s with
  | initializeManager =>
    show SameStores m (exec initializeManager m).2
    rw [initializeManager, exec_bind_ok (exec_get m)]
    split
    · exact h
    · exact ⟨rfl, rfl, h.bloomFilter, h.dedupLmdb⟩
  | ainitializeManager host => exact (ensures_ainitializeManager host m).final h
  | lookup host fp =>
    by_cases hc : host.bloomClass = .ok none
    · apply Ensures.final (P := SameStores m) _ h
      exact (yields_lookupPersistentDedup hc bloom fp m).imp (fun _ ht => ht) (fun _ _ ht => ht.2)
        fun _ _ ht => ht.elim
    · apply Ensures.final (P := SameStores m) _ h
      exact (ensures_lookupPersistentDedup_of_class hc bloom fp m).imp (fun _ ht => ht)
        (fun _ _ ht => ht.elim) fun _ _ ht => ht
  | store host fp findingId => cases hs
  | storeBatch host items =>
    cases hs
    exact h
  | close => exact ⟨rfl, rfl, rfl, h.dedupLmdb⟩

theorem sameStores_step_stored (bloom : BloomMethods B) (h : Idle m) (s : Step B) (hs : s.stored ≠ []) :
    SameStores (afterPut m (dedupPairs s.stored)) (step bloom m s) ∨
      SameStores m (step bloom m s) ∧ ¬ Meets m s := by
  have hput : ∀ (host : Host B) (f : B → B) (items : List (Fingerprint × String)),
      SameStores (afterPut m (dedupPairs items)) (exec (do
        ensureBloomFilter host
        ensureDedupLmdb host
        modify fun t => { t with bloomFilter := t.bloomFilter.map f }
        modify (DedupManager.putPairs (dedupPairs items)) : DedupM B Unit) m).2 ∨
      SameStores m (exec (do
        ensureBloomFilter host
        ensureDedupLmdb host
        modify fun t => { t with bloomFilter := t.bloomFilter.map f }
        modify (DedupManager.putPairs (dedupPairs items)) : DedupM B Unit) m).2 ∧ ¬ Unfiltered m host := by
    intro host f items
    by_cases hc : host.bloomClass = .ok none
    · apply Or.inl
      apply Ensures.final (P := SameStores m) _ h
      exact (ensures_put_of_noClass hc f m _).imp (fun _ ht => ht) (fun _ _ ht => ht) fun _ _ ht => ht.elim
    · refine Or.inr ⟨?_, fun hu => hc hu.1⟩
      apply Ensures.final (P := SameStores m) _ h
      exact (ensures_put_of_class hc f m _).imp (fun _ ht => ht) (fun _ _ ht => ht.elim) fun _ _ ht => ht
  cases s with
  | store host fp findingId => exact hput host _ [(fp, findingId)]
  | storeBatch host items =>
    have hne : ¬ items.isEmpty = true := fun hempty => hs (List.isEmpty_iff.1 hempty)
    show SameStores _ (exec (storePersistentDedupBatch bloom host items) m).2 ∨ _
    rw [step, storePersistentDedupBatch, if_neg hne]
    exact hput host _ items
  | initializeManager => exact absurd rfl hs
  | ainitializeManager host => exact absurd rfl hs
  | lookup host fp => exact absurd rfl hs
  | close => exact absurd rfl hs

theorem idle_step (h : Idle m) (s : Step B) : Idle (step bloom m s) := by
  by_cases hs : s.stored = []
  · exact (sameStores_step h s hs).idle
  · exact (sameStores_step_stored bloom h s hs).elim SameStores.idle fun hsame => hsame.1.idle

theorem Meets.unfiltered {s : Step B} (h : Meets m s) (hs : s.stored ≠ []) :
    m.useUnified = true ∧ m.unifiedStore.closed = false := by
  cases s with
  | store host fp findingId => exact h.2
  | storeBatch host items => exact h.2
  | initializeManager => exact absurd rfl hs
  | ainitializeManager host => exact absurd rfl hs
  | lookup host fp => exact absurd rfl hs
  | close => exact absurd rfl hs

theorem held_step (h : Idle m) {s : Step B} (hmeets : Meets m s) (fp : Fingerprint) :
    held (step bloom m s).unifiedStore fp = (lastOf s.stored fp).or (held m.unifiedStore fp) := by
  by_cases hs : s.stored = []
  · rw [(sameStores_step h s hs).unifiedStore, hs]
    rfl
  · obtain ⟨huse, hopen⟩ := hmeets.unfiltered hs
    have hput := (sameStores_step_stored bloom h s hs).resolve_right fun hnot => hnot.2 hmeets
    rw [hput.unifiedStore, afterPut, if_pos huse, held_putmultiRaw hopen]

theorem run_append (useUnified : Bool) (unifiedStore : UnifiedLMDBStore) (ownFile : LmdbEnv)
    (steps : List (Step B)) (s : Step B) : run bloom useUnified unifiedStore ownFile (steps ++ [s]) =
      step bloom (run bloom useUnified unifiedStore ownFile steps) s := by
  rw [run, List.foldl_append]
  rfl

theorem latest_append (steps : List (Step B)) (s : Step B) (fp : Fingerprint) :
    latest (steps ++ [s]) fp = (lastOf s.stored fp).or (latest steps fp) := by
  rw [latest, List.flatMap_append, List.flatMap_singleton, lastOf, List.reverse_append, List.find?_append,
    latest, lastOf, lastOf]
  cases (s.stored.reverse.find? fun p => decide (p.1 = fp)) with
  | none => rfl
  | some p => rfl

theorem held_run (useUnified : Bool) (unifiedStore : UnifiedLMDBStore) (ownFile : LmdbEnv)
    (steps : List (Step B))
    (h : StepsMeet (step bloom) Meets (fresh useUnified unifiedStore ownFile) steps) :
    Idle (run bloom useUnified unifiedStore ownFile steps) ∧ ∀ fp,
      held (run bloom useUnified unifiedStore ownFile steps).unifiedStore fp =
        (latest steps fp).or (held unifiedStore fp) := by
  induction steps using List.reverseRecOn with
  | nil => exact ⟨⟨rfl, rfl, rfl, rfl⟩, fun fp => rfl⟩
  | append_singleton steps s ih =>
    obtain ⟨hsteps, hs⟩ := stepsMeet_concat.1 h
    obtain ⟨hidle, hheld⟩ := ih hsteps
    rw [run_append]
    refine ⟨idle_step hidle s, fun fp => ?_⟩
    rw [held_step hidle hs, hheld, latest_append, Option.or_assoc]

theorem idle_run (useUnified : Bool) (unifiedStore : UnifiedLMDBStore) (ownFile : LmdbEnv)
    (steps : List (Step B)) : Idle (run bloom useUnified unifiedStore ownFile steps) := by
  have hstep : ∀ (m : DedupManager B) (s : Step B), Idle m → Idle (step bloom m s) := fun _ s h => idle_step h s
  have hfresh : Idle (fresh (B := B) useUnified unifiedStore ownFile) := ⟨rfl, rfl, rfl, rfl⟩
  exact foldl_invariant hstep steps hfresh

theorem useUnified_run (useUnified : Bool) (unifiedStore : UnifiedLMDBStore) (ownFile : LmdbEnv)
    (steps : List (Step B)) : (run bloom useUnified unifiedStore ownFile steps).useUnified = useUnified := by
  have hstep : ∀ (m : DedupManager B) (s : Step B), Idle m ∧ m.useUnified = useUnified →
      Idle (step bloom m s) ∧ (step bloom m s).useUnified = useUnified := by
    intro m s h
    refine ⟨idle_step h.1 s, ?_⟩
    by_cases hs : s.stored = []
    · exact (sameStores_step h.1 s hs).useUnified.trans h.2
    · exact (sameStores_step_stored bloom h.1 s hs).elim (fun hput => hput.useUnified.trans h.2)
        fun hsame => hsame.1.useUnified.trans h.2
  have hfresh : Idle (fresh (B := B) useUnified unifiedStore ownFile) ∧
      (fresh (B := B) useUnified unifiedStore ownFile).useUnified = useUnified :=
    ⟨⟨rfl, rfl, rfl, rfl⟩, rfl⟩
  exact (foldl_invariant hstep steps hfresh).2

theorem returns_lookup_iff (h : Idle m) (host : Host B) (fp : Fingerprint) (findingId : String) :
    (exec (lookupPersistentDedup bloom host fp) m).1 = .ok (some findingId) ↔
      host.bloomClass = .ok none ∧ m.useUnified = true ∧ held m.unifiedStore fp = some findingId := by
  by_cases hc : host.bloomClass = .ok none
  · obtain ⟨a, t, hx, rfl, -⟩ := (yields_lookupPersistentDedup hc bloom fp m).exists_returns h
    rw [hx]
    cases m.useUnified with
    | true => simp [hc]
    | false => simp
  · apply iff_of_false
    · intro hx
      have hraise := ensures_lookupPersistentDedup_of_class hc bloom fp m m h
      cases hr : exec (lookupPersistentDedup bloom host fp) m with
      | mk r t =>
        rw [hr] at hraise hx
        cases hx
        exact hraise
    · exact fun hand => hc hand.1

theorem released_close_iff (h : Idle m) : Released (step bloom m .close) ↔
    m.iocDedupStore = false ∧ m.semanticDedupCache = false := by
  show Released { m with bloomFilter := none } ↔ _
  exact ⟨fun hr => hr.2.2, fun hr => ⟨rfl, h.dedupLmdb, hr⟩⟩

/-- Every lookup of a fingerprint that was stored returns the finding of its latest store. -/
def NoFalseNegative (bloom : BloomMethods B) (m : DedupManager B) (steps : List (Step B)) : Prop :=
  ∀ before host fp after findingId, steps = before ++ .lookup host fp :: after →
    latest before fp = some findingId →
      (exec (lookupPersistentDedup bloom host fp) (before.foldl (step bloom) m)).1 = .ok (some findingId)

/-- Every close leaves no sub-store open. -/
def ClosesAll (bloom : BloomMethods B) (m : DedupManager B) (steps : List (Step B)) : Prop :=
  ∀ before after, steps = before ++ .close :: after →
    Released (step bloom (before.foldl (step bloom) m) .close)

/-- In a run whose calls meet the condition no stored fingerprint is missed and every close releases what
was opened. After any run a lookup returns a finding exactly if the unified store holds it and there is no
filter class, and a close releases all exactly if neither an IOC store nor a semantic cache is open. -/
theorem persistentDedup_run (bloom : BloomMethods B) (useUnified : Bool) (unifiedStore : UnifiedLMDBStore)
    (ownFile : LmdbEnv) (steps : List (Step B)) :
    (StepsMeet (step bloom) Meets (fresh useUnified unifiedStore ownFile) steps →
      NoFalseNegative bloom (fresh useUnified unifiedStore ownFile) steps ∧
        ClosesAll bloom (fresh useUnified unifiedStore ownFile) steps) ∧
    (∀ host fp findingId,
      (exec (lookupPersistentDedup bloom host fp) (run bloom useUnified unifiedStore ownFile steps)).1 =
          .ok (some findingId) ↔
        host.bloomClass = .ok none ∧ useUnified = true ∧
          held (run bloom useUnified unifiedStore ownFile steps).unifiedStore fp = some findingId) ∧
    (Released (step bloom (run bloom useUnified unifiedStore ownFile steps) .close) ↔
      (run bloom useUnified unifiedStore ownFile steps).iocDedupStore = false ∧
        (run bloom useUnified unifiedStore ownFile steps).semanticDedupCache = false) := by
  refine ⟨fun hmeets => ⟨?_, ?_⟩, ?_, ?_⟩
  · intro before host fp after findingId hsteps hlatest
    rw [hsteps] at hmeets
    obtain ⟨hbefore, hlookup, -⟩ := stepsMeet_append.1 hmeets
    obtain ⟨hidle, hheld⟩ := held_run useUnified unifiedStore ownFile before hbefore
    apply (returns_lookup_iff hidle host fp findingId).2
    refine ⟨hlookup.1, hlookup.2.1, ?_⟩
    rw [hheld, hlatest]
    rfl
  · intro before after hsteps
    rw [hsteps] at hmeets
    obtain ⟨-, hclose, -⟩ := stepsMeet_append.1 hmeets
    exact (released_close_iff (idle_run useUnified unifiedStore ownFile before)).2 hclose
  · intro host fp findingId
    rw [returns_lookup_iff (idle_run useUnified unifiedStore ownFile steps), useUnified_run]
  · exact released_close_iff (idle_run useUnified unifiedStore ownFile steps)

/-- Two stores, a lookup and a close over the unified store, without a filter class. -/
theorem persistentDedup_run_two :
    let bloom : BloomMethods Unit := { contains := none, add := fun b _ => .ok b, addBatch := none, sync := none }
    let host : Host Unit := { bloomClass := .ok none }
    let fp : Fingerprint := ⟨"0123456789abcdef0123456789abcdef", by decide⟩
    let steps := [.store host fp "f1", .storeBatch host [(fp, "f2")], .lookup host fp, .close]
    StepsMeet (step bloom) Meets (fresh true {} .empty) steps ∧
      NoFalseNegative bloom (fresh true {} .empty) steps ∧ ClosesAll bloom (fresh true {} .empty) steps := by
  intro bloom host fp steps
  have hmeets : StepsMeet (step bloom) Meets (fresh true {} .empty) steps :=
    ⟨⟨rfl, rfl, rfl⟩, ⟨rfl, rfl, rfl⟩, ⟨rfl, rfl, rfl⟩, ⟨rfl, rfl⟩, trivial⟩
  exact ⟨hmeets, (persistentDedup_run bloom true {} .empty steps).1 hmeets⟩

/-- With a fresh filter the lookup after a store raises, the manager's own LMDB returns nothing, and a close
leaves the IOC store open. -/
theorem not_persistentDedup :
    let bloom : BloomMethods (List String) :=
      { contains := some fun b item => .ok (b.contains item), add := fun b item => .ok (item :: b),
        addBatch := none, sync := none }
    let filtered : Host (List String) := { bloomClass := .ok (some fun _ _ => .ok []) }
    let plain : Host (List String) := { bloomClass := .ok none, iocStore := .opened }
    let fp : Fingerprint := ⟨"0123456789abcdef0123456789abcdef", by decide⟩
    ¬ NoFalseNegative bloom (fresh true {} .empty) [.store filtered fp "f1", .lookup filtered fp] ∧
      ¬ NoFalseNegative bloom (fresh false {} .empty) [.store plain fp "f1", .lookup plain fp] ∧
      ¬ ClosesAll bloom (fresh true {} .empty) [.lookup plain fp, .close] := by
  intro bloom filtered plain fp
  refine ⟨fun h => ?_, fun h => ?_, fun h => ?_⟩
  · have hraise := h [.store filtered fp "f1"] filtered fp [] "f1" rfl rfl
    cases hraise
  · have hnone := h [.store plain fp "f1"] plain fp [] "f1" rfl rfl
    cases hnone
  · have hopen := (h [.lookup plain fp] [] rfl).2.2.1
    cases hopen

end Hledac.Knowledge.PersistentDedup
