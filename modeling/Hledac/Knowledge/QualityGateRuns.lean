import Hledac.Knowledge.QualityGate

/-!
# When the batch gate decides as the single gate

The batch gate leaves the fingerprint of a finding with a URL empty, so all of them share one key,
and it cannot assess a finding without a URL at all.
-/

namespace Hledac.Knowledge

open Hledac.Lib
open Raising

variable {cap : Nat}

/-! ### What a finding does to the caches -/

namespace DedupManager

/-- A hit of the persistent map is copied to the hot cache. -/
def promote (m : DedupManager cap) (fp : String) : DedupManager cap :=
  if (m.hotCache.lookup fp).isSome then m
  else
    match m.lookupPersistentDedup fp with
    | some storedId => m.addToHotCache fp storedId
    | none => m

/-- Every fingerprint is known when it comes, those before it having been promoted. -/
def KnowsEach (m : DedupManager cap) : List String → Prop
  | [] => True
  | fp :: fps => m.knows fp = true ∧ (m.promote fp).KnowsEach fps

/-- An accepted finding is remembered under the key `fp`; a batch leaves the persistent map alone. -/
def accept (m : DedupManager cap) (batch : Bool) (fp : String) (f : CanonicalFinding) :
    DedupManager cap :=
  let m := if batch then m else m.storePersistentDedup fp f.findingId
  if QualityGate.isFeedSource f then m else m.addToHotCache fp f.findingId

/-- What assessing a finding with a URL under the key `fp` leaves. -/
def assessed (m : DedupManager cap) (batch : Bool) (fp : String) (f : CanonicalFinding) :
    DedupManager cap :=
  if m.knows fp then m.promote fp else m.accept batch fp f

/-- What assessing the findings one after another leaves. -/
def assessedAll (m : DedupManager cap) (batch : Bool) (key : CanonicalFinding → String)
    (fs : List CanonicalFinding) : DedupManager cap :=
  fs.foldl (fun m f => m.assessed batch (key f) f) m

/-- Which findings are accepted. -/
def verdicts (batch : Bool) (key : CanonicalFinding → String) :
    DedupManager cap → List CanonicalFinding → List Bool
  | _, [] => []
  | m, f :: fs => (!m.knows (key f)) :: verdicts batch key (m.assessed batch (key f) f) fs

variable {m : DedupManager cap} {fp : String}

theorem knows_iff : m.knows fp = true ↔
    fp ∈ m.hotCache.keys ∨ (m.lookupPersistentDedup fp).isSome = true := by
  rw [knows, Bool.or_eq_true, FifoCache.lookup_isSome_iff]

@[simp] theorem lookupPersistentDedup_promote (fp' : String) :
    (m.promote fp).lookupPersistentDedup fp' = m.lookupPersistentDedup fp' := by
  rw [promote]
  split
  · rfl
  · split <;> rfl

theorem mem_keys_promote (h : m.knows fp = true) : fp ∈ (m.promote fp).hotCache.keys := by
  rw [promote]
  split
  · next hs => exact FifoCache.lookup_isSome_iff.1 hs
  · next hs =>
    obtain ⟨id, hid⟩ := Option.isSome_iff_exists.1
      ((knows_iff.1 h).resolve_left fun hk => hs (FifoCache.lookup_isSome_iff.2 hk))
    simp only [hid]
    exact FifoCache.mem_keys_add_self _ _ _

theorem promote_of_mem (h : fp ∈ m.hotCache.keys) : m.promote fp = m := by
  rw [promote, if_pos (FifoCache.lookup_isSome_iff.2 h)]

theorem mem_keys_of_mem_promote {fp' : String} (h : fp' ∈ (m.promote fp).hotCache.keys) :
    fp' = fp ∨ fp' ∈ m.hotCache.keys := by
  rw [promote] at h
  split at h
  · exact .inr h
  · split at h
    · exact FifoCache.mem_keys_of_mem_add h
    · exact .inr h

theorem knows_of_mem (h : fp ∈ m.hotCache.keys) : m.knows fp = true :=
  knows_iff.2 (.inl h)

theorem assessed_of_mem {batch : Bool} {f : CanonicalFinding} (h : fp ∈ m.hotCache.keys) :
    m.assessed batch fp f = m := by
  rw [assessed, if_pos (knows_of_mem h), promote_of_mem h]

theorem knows_of_knows_assessed {batch : Bool} {fp' : String} {f : CanonicalFinding} (hne : fp' ≠ fp)
    (h : (m.assessed batch fp f).knows fp' = true) : m.knows fp' = true := by
  rw [assessed] at h
  split at h
  · rw [knows_iff, lookupPersistentDedup_promote] at h
    exact knows_iff.2 (h.imp_left fun hk => (mem_keys_of_mem_promote hk).resolve_left hne)
  · have hput : (m.storePersistentDedup fp f.findingId).lookupPersistentDedup fp' =
        m.lookupPersistentDedup fp' := by
      rw [lookupPersistentDedup, storePersistentDedup, lookupPersistentDedup]
      cases m.lmdb with
      | none => rfl
      | some l => exact Function.update_of_ne hne _ l
    -- what is remembered before the hot cache gets the key
    have hstore : ∀ n : DedupManager cap,
        n = (if batch then m else m.storePersistentDedup fp f.findingId) →
          n.hotCache = m.hotCache ∧ n.lookupPersistentDedup fp' = m.lookupPersistentDedup fp' := by
      rintro n rfl
      cases batch with
      | true => exact ⟨rfl, rfl⟩
      | false => exact ⟨rfl, hput⟩
    obtain ⟨hhot, hlook⟩ := hstore _ rfl
    simp only [accept] at h
    split at h
    · rw [knows_iff, hhot, hlook] at h
      exact knows_iff.2 h
    · rw [knows_iff] at h
      apply knows_iff.2
      apply h.imp
      · intro hk
        rw [← hhot]
        exact (FifoCache.mem_keys_of_mem_add hk).resolve_left hne
      · intro hl
        rw [← hlook]
        exact hl

theorem assessed_of_feed_of_not_knows {f : CanonicalFinding}
    (hf : QualityGate.isFeedSource f = true) (h : m.knows fp = false) : m.assessed true fp f = m := by
  rw [assessed, h, accept, hf]
  rfl

/-! ### Runs over the caches -/

theorem assessedAll_cons (batch : Bool) (key : CanonicalFinding → String) (f : CanonicalFinding)
    (fs : List CanonicalFinding) :
    m.assessedAll batch key (f :: fs) =
      (m.assessed batch (key f) f).assessedAll batch key fs := rfl

theorem verdicts_eq_replicate_false_iff {batch : Bool} {key : CanonicalFinding → String}
    {fs : List CanonicalFinding} :
    verdicts batch key m fs = List.replicate fs.length false ↔ m.KnowsEach (fs.map key) := by
  induction fs generalizing m with
  | nil => exact ⟨fun _ => trivial, fun _ => rfl⟩
  | cons f fs ih =>
    rw [verdicts, List.length_cons, List.replicate_succ, List.cons.injEq, Bool.not_eq_false',
      List.map_cons, KnowsEach]
    apply and_congr_right
    intro h
    rw [ih, assessed, if_pos h]

theorem assessedAll_of_knowsEach {batch : Bool} {key : CanonicalFinding → String}
    {fs : List CanonicalFinding} (h : m.KnowsEach (fs.map key)) :
    m.assessedAll batch key fs = (fs.map key).foldl promote m := by
  induction fs generalizing m with
  | nil => rfl
  | cons f fs ih =>
    rw [List.map_cons, KnowsEach] at h
    rw [assessedAll_cons, assessed, if_pos h.1, ih h.2]
    rfl

theorem verdicts_const_of_mem (batch : Bool) (h : fp ∈ m.hotCache.keys)
    (fs : List CanonicalFinding) :
    verdicts batch (fun _ => fp) m fs = List.replicate fs.length false ∧
      m.assessedAll batch (fun _ => fp) fs = m := by
  induction fs with
  | nil => exact ⟨rfl, rfl⟩
  | cons f fs ih =>
    rw [verdicts, assessedAll_cons, assessed_of_mem h, knows_of_mem h, ih.1, ih.2]
    exact ⟨rfl, rfl⟩

theorem knows_of_knows_assessedAll {key : CanonicalFinding → String} {fs : List CanonicalFinding}
    (hk : ∀ f ∈ fs, fp ≠ key f) (h : (m.assessedAll false key fs).knows fp = true) :
    m.knows fp = true := by
  induction fs generalizing m with
  | nil => exact h
  | cons f fs ih =>
    apply knows_of_knows_assessed (hk f List.mem_cons_self)
    exact ih (fun g hg => hk g (List.mem_cons_of_mem _ hg)) h

variable (m fp) in
theorem mem_keys_assessedAll_const {fs : List CanonicalFinding}
    (h : ∃ f ∈ fs, QualityGate.isFeedSource f = false) :
    fp ∈ (m.assessedAll true (fun _ => fp) fs).hotCache.keys := by
  induction fs generalizing m with
  | nil =>
    obtain ⟨f, hf, _⟩ := h
    cases hf
  | cons f fs ih =>
    rw [assessedAll_cons]
    by_cases hm : fp ∈ (m.assessed true fp f).hotCache.keys
    · rw [(verdicts_const_of_mem true hm fs).2]
      exact hm
    · apply ih
      obtain ⟨g, hg, hfeed⟩ := h
      rcases List.mem_cons.1 hg with rfl | hg
      · exfalso
        apply hm
        rw [assessed]
        split
        · next hk => exact mem_keys_promote hk
        · simp only [accept, if_true, hfeed, Bool.false_eq_true, if_false]
          exact FifoCache.mem_keys_add_self _ _ _
      · exact ⟨g, hg, hfeed⟩

theorem assessed_of_feed {batch : Bool} {f : CanonicalFinding} (hl : m.lmdb = none)
    (hf : QualityGate.isFeedSource f = true) : m.assessed batch fp f = m := by
  have hstore : m.storePersistentDedup fp f.findingId = m := by
    cases m
    cases hl
    rfl
  have hlook : m.lookupPersistentDedup fp = none := by
    rw [lookupPersistentDedup, hl]
    rfl
  rw [assessed]
  split
  · rw [promote]
    split
    · rfl
    · rw [hlook]
  · simp only [accept, hf, if_true, hstore, ite_self]

theorem verdicts_of_feed (batch : Bool) (key : CanonicalFinding → String)
    {fs : List CanonicalFinding} (hl : m.lmdb = none)
    (hf : ∀ f ∈ fs, QualityGate.isFeedSource f = true) :
    verdicts batch key m fs = fs.map (fun f => !m.knows (key f)) ∧
      m.assessedAll batch key fs = m := by
  induction fs with
  | nil => exact ⟨rfl, rfl⟩
  | cons f fs ih =>
    obtain ⟨h1, h2⟩ := ih fun g hg => hf g (List.mem_cons_of_mem _ hg)
    rw [verdicts, assessedAll_cons, assessed_of_feed hl (hf f List.mem_cons_self), h1, h2]
    exact ⟨rfl, rfl⟩

/-- What a batch queues for its last write. -/
def queued (key : CanonicalFinding → String) :
    DedupManager cap → List CanonicalFinding → List (String × String)
  | _, [] => []
  | m, f :: fs => (if m.knows (key f) then [] else [(key f, f.findingId)]) ++
      queued key (m.assessed true (key f) f) fs

theorem queued_const_of_mem (h : fp ∈ m.hotCache.keys) (fs : List CanonicalFinding) :
    queued (fun _ => fp) m fs = [] := by
  induction fs with
  | nil => rfl
  | cons f fs ih =>
    rw [queued, assessed_of_mem h, ih, if_pos (knows_of_mem h)]
    rfl

theorem storePersistentDedupBatch_nil : m.storePersistentDedupBatch [] = m := by
  rw [storePersistentDedupBatch, show (fun l : DedupLmdb => List.foldl _ l []) = id from rfl,
    Option.map_id]
  rfl

theorem storePersistentDedupBatch_of_lmdb_none (h : m.lmdb = none)
    (items : List (String × String)) : m.storePersistentDedupBatch items = m := by
  rw [storePersistentDedupBatch, h]
  cases m
  cases h
  rfl

private theorem foldl_put_isSome (items : List (String × String)) (l : DedupLmdb)
    (h : (l fp).isSome = true ∨ fp ∈ items.map Prod.fst) :
    (items.foldl (fun l p => l.put p.1 p.2) l fp).isSome = true := by
  induction items generalizing l with
  | nil => exact h.resolve_right List.not_mem_nil
  | cons p items ih =>
    apply ih
    by_cases hp : fp = p.1
    · left
      show (Function.update l p.1 (some p.2) fp).isSome = true
      rw [hp, Function.update_self]
      rfl
    · show (Function.update l p.1 (some p.2) fp).isSome = true ∨ _
      rw [Function.update_of_ne hp]
      apply h.imp_right
      intro hm
      rw [List.map_cons, List.mem_cons] at hm
      exact hm.resolve_left hp

theorem knows_storePersistentDedupBatch {items : List (String × String)}
    (hl : m.lmdb.isSome = true) (h : fp ∈ items.map Prod.fst) :
    (m.storePersistentDedupBatch items).knows fp = true := by
  obtain ⟨l, hl⟩ := Option.isSome_iff_exists.1 hl
  apply knows_iff.2
  right
  rw [lookupPersistentDedup, storePersistentDedupBatch, hl]
  exact foldl_put_isSome items l (.inr h)

private theorem foldl_put_of_ne (items : List (String × String)) (l : DedupLmdb) {fp' : String}
    (h : ∀ p ∈ items, p.1 = fp) (hne : fp' ≠ fp) :
    items.foldl (fun l p => l.put p.1 p.2) l fp' = l fp' := by
  induction items generalizing l with
  | nil => rfl
  | cons p items ih =>
    rw [List.foldl_cons, ih _ fun p' hp' => h p' (List.mem_cons_of_mem _ hp'), h p List.mem_cons_self]
    exact Function.update_of_ne hne _ l

theorem knows_storePersistentDedupBatch_of_ne {items : List (String × String)} {fp' : String}
    (h : ∀ p ∈ items, p.1 = fp) (hne : fp' ≠ fp) :
    (m.storePersistentDedupBatch items).knows fp' = m.knows fp' := by
  have hlook : (m.storePersistentDedupBatch items).lookupPersistentDedup fp' =
      m.lookupPersistentDedup fp' := by
    rw [lookupPersistentDedup, storePersistentDedupBatch, lookupPersistentDedup]
    cases m.lmdb with
    | none => rfl
    | some l => exact foldl_put_of_ne items l h hne
  rw [knows, hlook]
  rfl

@[simp] theorem lmdb_isSome_storePersistentDedupBatch (items : List (String × String)) :
    (m.storePersistentDedupBatch items).lmdb.isSome = m.lmdb.isSome :=
  Option.isSome_map

theorem lmdb_isSome_assessed {batch : Bool} {f : CanonicalFinding} :
    (m.assessed batch fp f).lmdb.isSome = m.lmdb.isSome := by
  rw [assessed]
  split
  · rw [promote]
    split
    · rfl
    · split <;> rfl
  · have hstore : (if batch then m else m.storePersistentDedup fp f.findingId).lmdb.isSome =
        m.lmdb.isSome := by
      cases batch with
      | true => rfl
      | false => exact Option.isSome_map
    simp only [accept]
    split <;> exact hstore

theorem lmdb_isSome_assessedAll {batch : Bool} {key : CanonicalFinding → String}
    {fs : List CanonicalFinding} :
    (m.assessedAll batch key fs).lmdb.isSome = m.lmdb.isSome := by
  induction fs generalizing m with
  | nil => rfl
  | cons f fs ih => rw [assessedAll_cons, ih, lmdb_isSome_assessed]

end DedupManager

end Hledac.Knowledge
