import Hledac.Lib.Chunks
import Hledac.Lib.Firsts
import Hledac.Utils.ContentDedup

/-!
# The deduplication engine

`DeduplicationEngine.deduplicate` cuts the items into batches, looks for matches in each, and keeps the first item of each
content hash. The batches of an empty list have no length, and the sort key of the matches is looked up on the getter
instead of the match, so that every match ends the call.
-/

namespace Hledac.Utils

open Hledac.Lib

namespace DedupEngine

/-- What `deduplicate` raises. -/
inductive DedupError where
  | valueError
  | attributeError
  deriving DecidableEq

/-- The three deduplicators: the matches of an item among candidates. None of them raises. -/
abbrev Finders := DeduplicationStrategy → QueryItem → List QueryItem → List DeduplicationMatch

/-- `DeduplicationStats`, as far as the items are counted; `utils/deduplication.py:166-178`. -/
structure DeduplicationStats where
  totalItemsProcessed : Nat
  itemsKept : Nat
  itemsRemoved : Nat

/-- `DeduplicationResult` without its times; lines 191-199. -/
structure DeduplicationResult where
  originalItems : List QueryItem
  uniqueItems : List QueryItem
  duplicatesRemoved : List QueryItem
  found : List DeduplicationMatch
  stats : DeduplicationStats

variable (xxh3Hex : String → String) (config : DeduplicationConfig) (find : Finders)

/-- `content_hash`; lines 150-154. -/
def contentHash (item : QueryItem) : String := Py.takeStr 12 (xxh3Hex (item.title ++ item.content))

/-- The best match of a group, lines 1236-1245. The key of the sort is `attrgetter("similarity_score").score`,
an attribute that the getter does not have. -/
def bestMatch (_group : List DeduplicationMatch) : Except DedupError DeduplicationMatch := .error .attributeError

/-- `_deduplicate_matches`; lines 1227-1246. -/
def deduplicateMatches (found : List DeduplicationMatch) : Except DedupError (List DeduplicationMatch) :=
  ((Dict.group (fun m => some m.matchedItem.id) found).entries.map Prod.snd).mapM bestMatch

/-- `_find_duplicates`; lines 1208-1225. -/
def findDuplicates (item : QueryItem) (candidates : List QueryItem) : Except DedupError (List DeduplicationMatch) :=
  deduplicateMatches (config.strategies.flatMap fun strategy =>
    if strategy = .hybrid then [] else find strategy item candidates)

/-- `_process_batch`; lines 1200-1206. -/
def processBatch : List QueryItem → Except DedupError (List DeduplicationMatch)
  | [] => .ok []
  | item :: rest => do
    let itemMatches ← findDuplicates config find item rest
    let others ← processBatch rest
    return itemMatches ++ others

/-- The lists that the loop of `deduplicate` fills. -/
structure Progress where
  seenHashes : List String := []
  uniqueItems : List QueryItem := []
  duplicatesRemoved : List QueryItem := []
  allMatches : List DeduplicationMatch := []

/-- What `deduplicate` makes of them; lines 1180-1190. -/
def Progress.result (p : Progress) (items : List QueryItem) : DeduplicationResult where
  originalItems := items
  uniqueItems := p.uniqueItems
  duplicatesRemoved := p.duplicatesRemoved
  found := p.allMatches
  stats := {
    totalItemsProcessed := items.length
    itemsKept := p.uniqueItems.length
    itemsRemoved := p.duplicatesRemoved.length }

/-- One item of a batch; lines 1173-1178. -/
def sortItem (p : Progress) (item : QueryItem) : Progress :=
  if contentHash xxh3Hex item ∈ p.seenHashes then { p with duplicatesRemoved := p.duplicatesRemoved ++ [item] }
  else { p with uniqueItems := p.uniqueItems ++ [item], seenHashes := contentHash xxh3Hex item :: p.seenHashes }

/-- One batch; lines 1170-1179. -/
def takeBatch (p : Progress) (batch : List QueryItem) : Except DedupError Progress := do
  let batchResult ← processBatch config find batch
  let p := batch.foldl (sortItem xxh3Hex) p
  return { p with allMatches := p.allMatches ++ batchResult }

/-- `deduplicate` of an engine that is not running; lines 1152-1198. A range with the step zero raises. -/
def deduplicate (items : List QueryItem) : Except DedupError DeduplicationResult := do
  let batchSize := min config.batchSize items.length
  if batchSize = 0 then throw .valueError
  let p ← (chunks batchSize items).foldlM (takeBatch xxh3Hex config find) {}
  return p.result items

/-- What makes two items the same. -/
def titleAndContent (item : QueryItem) : String × String := (item.title, item.content)

/-- The first item of each class is kept, the others are removed, in their order, and all are counted. -/
structure Partitions (items : List QueryItem) (r : DeduplicationResult) : Prop where
  kept : r.uniqueItems = firsts titleAndContent items
  removed : r.duplicatesRemoved = repeats titleAndContent items
  counted : r.stats.itemsKept + r.stats.itemsRemoved = r.stats.totalItemsProcessed
  total : r.stats.totalItemsProcessed = items.length

/-- No strategy that is enabled finds a match of an item of a batch among those after it. -/
def NoMatches (batch : List QueryItem) : Prop :=
  ∀ item rest, item :: rest <:+ batch → ∀ strategy ∈ config.strategies, strategy ≠ .hybrid → find strategy item rest = []

section Spec

variable {xxh3Hex config find} {items : List QueryItem} {found : List DeduplicationMatch}

theorem deduplicateMatches_eq (found : List DeduplicationMatch) :
    deduplicateMatches found = if found = [] then .ok [] else .error .attributeError := by
  cases found with
  | nil => rfl
  | cons m rest =>
    rw [deduplicateMatches, if_neg (List.cons_ne_nil m rest)]
    have hmem : m.matchedItem.id ∈ (Dict.group (fun m => some m.matchedItem.id) (m :: rest)).keys :=
      (Dict.mem_keys_collect _ _).2 (.inr ⟨m, List.mem_cons_self, rfl⟩)
    cases hentries : (Dict.group (fun m => some m.matchedItem.id) (m :: rest)).entries with
    | nil =>
      rw [Dict.keys, hentries] at hmem
      cases hmem
    | cons e entries => rfl

theorem findDuplicates_eq_ok_iff (item : QueryItem) (candidates : List QueryItem) :
    findDuplicates config find item candidates = .ok found ↔
      (∀ strategy ∈ config.strategies, strategy ≠ .hybrid → find strategy item candidates = []) ∧ found = [] := by
  have hnone : (config.strategies.flatMap fun strategy =>
      if strategy = .hybrid then [] else find strategy item candidates) = [] ↔
        ∀ strategy ∈ config.strategies, strategy ≠ .hybrid → find strategy item candidates = [] := by
    rw [List.flatMap_eq_nil_iff]
    apply forall₂_congr
    intro strategy _
    by_cases h : strategy = .hybrid
    · simp [h]
    · simp [h]
  rw [findDuplicates, deduplicateMatches_eq, ← hnone]
  split
  · next h => simp [h, eq_comm]
  · next h => simp [h]

theorem processBatch_eq_ok_iff (batch : List QueryItem) :
    processBatch config find batch = .ok found ↔ NoMatches config find batch ∧ found = [] := by
  induction batch generalizing found with
  | nil => simp [processBatch, NoMatches, eq_comm]
  | cons item rest ih =>
    have hbatch : NoMatches config find (item :: rest) ↔
        (∀ strategy ∈ config.strategies, strategy ≠ .hybrid → find strategy item rest = []) ∧
          NoMatches config find rest := by
      simp only [NoMatches, List.suffix_cons_iff, List.cons.injEq]
      constructor
      · intro h
        exact ⟨h item rest (.inl ⟨rfl, rfl⟩), fun x xs hx => h x xs (.inr hx)⟩
      · rintro h x xs (⟨rfl, rfl⟩ | hx)
        · exact h.1
        · exact h.2 x xs hx
    rw [hbatch, processBatch]
    cases hitem : findDuplicates config find item rest with
    | error e =>
      have hnot : ¬ ∀ strategy ∈ config.strategies, strategy ≠ .hybrid → find strategy item rest = [] := by
        intro hall
        rw [(findDuplicates_eq_ok_iff item rest).2 ⟨hall, rfl⟩] at hitem
        cases hitem
      simp [hnot, bind, Except.bind]
    | ok itemMatches =>
      have hfound := (findDuplicates_eq_ok_iff item rest).1 hitem
      rw [hfound.2, and_iff_right hfound.1, ← ih]
      cases processBatch config find rest with
      | error e => simp [bind, Except.bind]
      | ok others => simp [bind, Except.bind, pure, Except.pure]

theorem foldl_sortItem (items : List QueryItem) :
    let p := items.foldl (sortItem xxh3Hex) {}
    p.uniqueItems = firsts (contentHash xxh3Hex) items ∧ p.duplicatesRemoved = repeats (contentHash xxh3Hex) items ∧
      ∀ k, k ∈ p.seenHashes ↔ k ∈ items.map (contentHash xxh3Hex) := by
  induction items using List.reverseRecOn with
  | nil => simp
  | append_singleton items item ih =>
    rw [List.foldl_append, List.foldl_cons, List.foldl_nil, firsts_concat, repeats_concat, sortItem]
    by_cases hseen : contentHash xxh3Hex item ∈ items.map (contentHash xxh3Hex)
    · rw [if_pos ((ih.2.2 _).2 hseen), if_pos hseen, if_pos hseen, List.append_nil, List.map_append]
      refine ⟨ih.1, congrArg (· ++ [item]) ih.2.1, fun k => ?_⟩
      rw [List.mem_append, List.map_singleton, List.mem_singleton]
      constructor
      · exact fun hk => .inl ((ih.2.2 k).1 hk)
      · intro hk
        cases hk with
        | inl hk => exact (ih.2.2 k).2 hk
        | inr hk => exact (ih.2.2 k).2 (hk ▸ hseen)
    · rw [if_neg fun hc => hseen ((ih.2.2 _).1 hc), if_neg hseen, if_neg hseen, List.append_nil, List.map_append]
      refine ⟨congrArg (· ++ [item]) ih.1, ih.2.1, fun k => ?_⟩
      rw [List.mem_append, List.map_singleton, List.mem_singleton, List.mem_cons, ih.2.2 k, or_comm]

theorem foldlM_takeBatch (batches : List (List QueryItem)) (p : Progress) :
    ((∀ batch ∈ batches, NoMatches config find batch) →
      batches.foldlM (takeBatch xxh3Hex config find) p = .ok (batches.flatten.foldl (sortItem xxh3Hex) p)) ∧
    ((¬ ∀ batch ∈ batches, NoMatches config find batch) →
      ∀ q, batches.foldlM (takeBatch xxh3Hex config find) p ≠ .ok q) := by
  induction batches generalizing p with
  | nil => exact ⟨fun _ => rfl, fun h => absurd (by simp) h⟩
  | cons batch batches ih =>
    by_cases hbatch : NoMatches config find batch
    · have hstep : takeBatch xxh3Hex config find p batch = .ok (batch.foldl (sortItem xxh3Hex) p) := by
        rw [takeBatch, (processBatch_eq_ok_iff batch).2 ⟨hbatch, rfl⟩]
        simp [bind, Except.bind, pure, Except.pure]
      rw [List.foldlM_cons, hstep, List.flatten_cons, List.foldl_append, List.forall_mem_cons, and_iff_right hbatch]
      exact ih _
    · have hstep : ∃ e, takeBatch xxh3Hex config find p batch = .error e := by
        cases hprocess : processBatch config find batch with
        | error e => exact ⟨e, by rw [takeBatch, hprocess]; rfl⟩
        | ok ms => exact absurd ((processBatch_eq_ok_iff batch).1 hprocess).1 hbatch
      cases hstep with
      | intro e hstep =>
        rw [List.foldlM_cons, hstep]
        refine ⟨fun hall => absurd (hall batch List.mem_cons_self) hbatch, fun _ q hq => ?_⟩
        cases hq

end Spec

end DedupEngine

end Hledac.Utils
