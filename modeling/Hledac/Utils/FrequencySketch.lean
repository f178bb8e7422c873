import Mathlib.Data.Prod.Lex
import Mathlib.Data.String.Basic
import Hledac.Lib.Dict
import Hledac.Lib.Machine
import Hledac.Py.Value

/-!
# The hybrid frequency sketch

`HybridFrequencySketch` keeps exact counts, a heap of the counts they have had, and a cold cache. The root of the heap is
the greatest count, so a newcomer is admitted to a full heap only above all of them, and what it had in the cold cache
stays there.
-/

namespace Hledac.Utils.FrequencySketch

open Hledac.Lib Hledac.Py

/-- An entry of the heap: the negated count, as an entry of the dual order, and the item. -/
abbrev Entry := ℕᵒᵈ ×ₗ String

def entry (count : Nat) (item : String) : Entry := toLex (OrderDual.toDual count, item)

def Entry.count (e : Entry) : Nat := OrderDual.ofDual (ofLex e).1

def Entry.item (e : Entry) : String := (ofLex e).2

@[simp] theorem count_entry (count : Nat) (item : String) : (entry count item).count = count := rfl

@[simp] theorem item_entry (count : Nat) (item : String) : (entry count item).item = item := rfl

/-- The parameters of a sketch, and the hash of an item with a seed; `utils/sketches.py:64-76`, `89-92`. -/
structure SketchConfig where
  width : Nat
  depth : Nat
  topK : Nat
  lruSize : Nat
  hash : String → Nat → Nat
  positive : 0 < width ∧ 0 < depth ∧ 0 < topK

/-- `HybridFrequencySketch` without MLX and LMDB; lines 42-87. The heap is given by its entries in order. -/
structure Sketch where
  table : List (List Nat)
  heap : List Entry := []
  exactCounts : Dict String Nat := .empty
  lruCache : Dict String Nat := .empty

variable (c : SketchConfig)

def start : Sketch where
  table := List.replicate c.depth (List.replicate c.width 0)

/-- `_update_sketch`; lines 94-110. -/
def updateSketch (s : Sketch) (item : String) (count : Nat) : Sketch :=
  { s with table := s.table.mapIdx fun d row => row.modify (c.hash item d % c.width) (· + count) }

/-- An item of the cold cache is counted and becomes its newest. -/
def countCold (lru : Dict String Nat) (item : String) (count : Nat) : Dict String Nat :=
  (lru.insert item ((lru.get? item).getD 0 + count)).moveToEnd item

/-- `_store_to_cold`; lines 137-162. Without room the oldest item goes, and there may be none. -/
def storeToCold (s : Sketch) (item : String) (count : Nat) : Except ExcKind Unit × Sketch :=
  if s.lruCache.size < c.lruSize then (.ok (), { s with lruCache := countCold s.lruCache item count })
  else if s.lruCache.size = 0 then (.error .keyError, s)
  else (.ok (), { s with lruCache := countCold s.lruCache.popFirst item count })

/-- An item with its count among the exact counts and on the heap. -/
def Sketch.enter (s : Sketch) (item : String) (count : Nat) : Sketch :=
  { s with
    exactCounts := s.exactCounts.insert item count
    heap := s.heap.orderedInsert (· ≤ ·) (entry count item) }

/-- `_update_spacesaving`; lines 112-135. -/
def updateSpacesaving (s : Sketch) (item : String) (count : Nat) : Except ExcKind Unit × Sketch :=
  match s.exactCounts.get? item with
  | some oldCount => (.ok (), s.enter item (oldCount + count))
  | none =>
    if s.heap.length < c.topK then (.ok (), s.enter item count)
    else
      match s.heap with
      | [] => (.error .indexError, s)
      | root :: rest =>
        if root.count < count then
          let evictedCount := (s.exactCounts.get? root.item).getD 0
          let s := { s with heap := rest, exactCounts := s.exactCounts.erase root.item }
          let stored := storeToCold c s root.item evictedCount
          match stored.1 with
          | .error e => (.error e, stored.2)
          | .ok _ => (.ok (), stored.2.enter item count)
        else storeToCold c s item count

/-- `add`, and the sketch that it leaves behind, also where it raises; lines 191-194. -/
def add (s : Sketch) (call : String × Nat) : Except ExcKind Unit × Sketch :=
  updateSpacesaving c (updateSketch c s call.1 call.2) call.1 call.2

/-- The sketch after a sequence of calls. -/
def run (calls : List (String × Nat)) : Sketch := calls.foldl (fun s call => (add c s call).2) (start c)

/-- `estimate`; lines 196-218. That a read item becomes the newest of the cold cache is left out. -/
def estimate (s : Sketch) (item : String) : Nat :=
  match s.exactCounts.get? item with
  | some count => count
  | none =>
    match s.lruCache.get? item with
    | some count => count
    | none =>
      let vals := s.table.mapIdx fun d row => row.getD (c.hash item d % c.width) 0
      let noiseVals := s.table.mapIdx fun d row => row.getD ((c.hash item d % c.width + 1) % c.width) 0
      vals.min?.getD 0 - noiseVals.foldl (· + ·) 0 / noiseVals.length

/-- `count_map` after a count of an item. -/
def countUp (countMap : Dict String Nat) (e : String × Nat) : Dict String Nat :=
  countMap.insert e.1 (max ((countMap.get? e.1).getD 0) e.2)

/-- `get_top_k`; lines 220-238. The heap is read in the order of its array, which is one of its entries. -/
def getTopK (s : Sketch) (array : List Entry) (k : Nat) : List (String × Nat) :=
  let counts := array.map (fun e => (e.item, e.count)) ++ s.lruCache.entries
  ((counts.foldl countUp .empty).entries.mergeSort fun a b => decide (b.2 ≤ a.2)).take k

/-! ### What is asked of it -/

/-- The sum of the counts added for an item. -/
def total (item : String) : List (String × Nat) → Nat
  | [] => 0
  | call :: calls => (if call.1 = item then call.2 else 0) + total item calls

/-- Entries are the `k` items with the largest sums, with these sums, in their order. -/
structure IsTop (calls : List (String × Nat)) (k : Nat) (top : List (String × Nat)) : Prop where
  sums : ∀ e ∈ top, e.1 ∈ calls.map Prod.fst ∧ e.2 = total e.1 calls
  nodup : (top.map Prod.fst).Nodup
  atMost : top.length ≤ k
  sorted : top.Pairwise fun a b => b.2 ≤ a.2
  largest : ∀ item ∈ calls.map Prod.fst, item ∉ top.map Prod.fst → top.length = k ∧ ∀ e ∈ top, total item calls ≤ e.2

/-- The estimates and the top items of a sketch are exact. -/
structure Exact (calls : List (String × Nat)) (s : Sketch) : Prop where
  estimates : ∀ item ∈ calls.map Prod.fst, estimate c s item = total item calls
  top : ∀ array k, array.Perm s.heap → IsTop calls k (getTopK s array k)

/-- A call has room: its item is counted exactly, or the heap is not full, or the cold cache is not, and an item of the
cold cache does not rise above the root. -/
def HasRoom (s : Sketch) (call : String × Nat) : Prop :=
  call.1 ∈ s.exactCounts.keys ∨ s.heap.length < c.topK ∨
    s.lruCache.size < c.lruSize ∧ (call.1 ∈ s.lruCache.keys → ∀ root ∈ s.heap.head?, call.2 ≤ root.count)

section Proofs

variable {c} {s : Sketch} {calls : List (String × Nat)} {call : String × Nat} {item : String} {count : Nat}

theorem total_concat (item : String) (calls : List (String × Nat)) (call : String × Nat) :
    total item (calls ++ [call]) = total item calls + if call.1 = item then call.2 else 0 := by
  induction calls with
  | nil => simp [total]
  | cons first calls ih =>
    rw [List.cons_append, total, ih, total]
    omega

theorem total_of_notMem (h : item ∉ calls.map Prod.fst) : total item calls = 0 := by
  induction calls with
  | nil => rfl
  | cons call calls ih =>
    rw [List.map_cons, List.mem_cons, not_or] at h
    rw [total, if_neg (Ne.symm h.1), ih h.2]

theorem foldl_countUp (bound : String → Nat) (counts : List (String × Nat)) (h : ∀ e ∈ counts, e.2 ≤ bound e.1) :
    let d := counts.foldl countUp .empty
    (∀ item, item ∈ d.keys ↔ item ∈ counts.map Prod.fst) ∧
      (∀ item, (d.get? item).getD 0 ≤ bound item) ∧ ∀ e ∈ counts, e.2 ≤ (d.get? e.1).getD 0 := by
  induction counts using List.reverseRecOn with
  | nil => exact ⟨fun item => by simp, fun item => Nat.zero_le _, fun e he => absurd he List.not_mem_nil⟩
  | append_singleton counts last ih =>
    rw [List.forall_mem_append, List.forall_mem_singleton] at h
    obtain ⟨hkeys, hbound, hleast⟩ := ih h.1
    simp only [List.foldl_append, List.foldl_cons, List.foldl_nil, List.forall_mem_append, List.forall_mem_singleton,
      countUp, Dict.mem_keys_insert, Dict.get?_insert]
    refine ⟨fun item => ?_, fun item => ?_, fun e he => ?_, ?_⟩
    · rw [hkeys, List.map_append, List.mem_append, List.map_singleton, List.mem_singleton, or_comm]
    · split
      · next heq => exact max_le (heq ▸ hbound last.1) (heq ▸ h.2)
      · exact hbound item
    · split
      · next heq => exact le_max_of_le_left (heq ▸ hleast e he)
      · exact hleast e he
    · simp

/-! ### The heap -/

theorem count_le_of_le {a b : Entry} (h : a ≤ b) : b.count ≤ a.count := by
  cases Prod.Lex.le_iff.1 h with
  | inl h => exact le_of_lt (OrderDual.ofDual_lt_ofDual.2 h)
  | inr h => exact (congrArg OrderDual.ofDual h.1).ge

theorem entry_le_of_lt {e : Entry} (h : e.count < count) : entry count item ≤ e :=
  Prod.Lex.le_iff.2 (.inl (OrderDual.toDual_lt.2 h))

theorem head_push {e root : Entry} {heap : List Entry} (h : (heap.orderedInsert (· ≤ ·) e).head? = some root) :
    root = e ∨ heap.head? = some root := by
  cases heap with
  | nil => exact .inl (Option.some.inj h).symm
  | cons first rest =>
    rw [List.orderedInsert_cons] at h
    split at h
    · exact .inl (Option.some.inj h).symm
    · exact .inr h

variable (c) in
/-- Whatever is called, the items that are counted exactly have entries on the heap and are not more than `top_k`. -/
structure Sound (s : Sketch) : Prop where
  sorted : s.heap.Pairwise (· ≤ ·)
  entries : ∀ item ∈ s.exactCounts.keys, ∃ e ∈ s.heap, e.item = item
  size : s.exactCounts.size ≤ c.topK
  cold : s.lruCache.size ≤ c.lruSize

variable (c) in
/-- The root is an entry of an item that is counted exactly, unless every eviction raises. -/
def Rooted (s : Sketch) : Prop := 0 < c.lruSize → ∀ e ∈ s.heap.head?, e.item ∈ s.exactCounts.keys

theorem size_le_length (h : ∀ item ∈ s.exactCounts.keys, ∃ e ∈ s.heap, e.item = item) :
    s.exactCounts.size ≤ s.heap.length := by
  rw [← Dict.length_keys, ← List.length_map (f := Entry.item)]
  exact (List.subperm_of_subset s.exactCounts.nodup fun item hitem => List.mem_map.2 (h item hitem)).length_le

theorem mem_keys_enter {i : String} : i ∈ (s.enter item count).exactCounts.keys ↔ i = item ∨ i ∈ s.exactCounts.keys :=
  Dict.mem_keys_insert

theorem mem_heap_enter {e : Entry} : e ∈ (s.enter item count).heap ↔ e = entry count item ∨ e ∈ s.heap :=
  List.mem_orderedInsert _

theorem length_enter : (s.enter item count).heap.length = s.heap.length + 1 := List.orderedInsert_length _ _ _

theorem Sound.enter (h : Sound c s) (hsize : item ∈ s.exactCounts.keys ∨ s.exactCounts.size < c.topK) :
    Sound c (s.enter item count) where
  sorted := h.sorted.orderedInsert _ _
  entries i hi := by
    cases mem_keys_enter.1 hi with
    | inl hi => exact ⟨entry count item, mem_heap_enter.2 (.inl rfl), hi ▸ rfl⟩
    | inr hi =>
      obtain ⟨e, he, hei⟩ := h.entries i hi
      exact ⟨e, mem_heap_enter.2 (.inr he), hei⟩
  size := by
    have := h.size
    rw [Sketch.enter, Dict.size_insert]
    split
    · exact this
    · next hnew =>
      have := hsize.resolve_left hnew
      omega
  cold := h.cold

theorem Rooted.enter (h : Rooted c s ∨ ∀ e ∈ s.heap, e.count < count) : Rooted c (s.enter item count) := by
  intro hlru e he
  rw [mem_keys_enter]
  cases h with
  | inl h =>
    cases head_push he with
    | inl he => exact .inl (he ▸ rfl)
    | inr he => exact .inr (h hlru e he)
  | inr h =>
    cases hheap : s.heap with
    | nil =>
      rw [Sketch.enter, hheap] at he
      exact .inl (Option.some.inj he ▸ rfl)
    | cons first rest =>
      rw [Sketch.enter, hheap, List.orderedInsert_cons_of_le _ _ (entry_le_of_lt (h first (hheap ▸ List.mem_cons_self)))] at he
      exact .inl (Option.some.inj he ▸ rfl)

/-! ### The cold cache -/

theorem get?_countCold {lru : Dict String Nat} {i : String} : (countCold lru item count).get? i =
    if item = i then some ((lru.get? item).getD 0 + count) else lru.get? i := by
  rw [countCold, Dict.get?_moveToEnd, Dict.get?_insert]

theorem mem_keys_countCold {lru : Dict String Nat} {i : String} :
    i ∈ (countCold lru item count).keys ↔ i = item ∨ i ∈ lru.keys := by
  rw [Dict.mem_keys_iff, Dict.mem_keys_iff, get?_countCold]
  by_cases h : item = i
  · simp [h]
  · simp [h, Ne.symm h]

theorem size_countCold_le (lru : Dict String Nat) (item : String) (count : Nat) : (countCold lru item count).size ≤ lru.size + 1 := by
  have hmem : item ∈ (lru.insert item ((lru.get? item).getD 0 + count)).keys := Dict.mem_keys_insert.2 (.inl rfl)
  rw [countCold, ← Dict.length_keys, Dict.keys_moveToEnd hmem, List.length_append, List.length_singleton,
    List.length_erase_of_mem hmem, Dict.length_keys, Nat.sub_add_cancel, Dict.size_insert]
  · split
    · exact Nat.le_succ _
    · exact le_rfl
  · rw [← Dict.length_keys]
    exact List.length_pos_of_mem hmem

theorem storeToCold_spec (item : String) (count : Nat) (hcold : s.lruCache.size ≤ c.lruSize) :
    let r := storeToCold c s item count
    r.2.heap = s.heap ∧ r.2.exactCounts = s.exactCounts ∧ r.2.lruCache.size ≤ c.lruSize ∧
      (r.1 = .ok () ↔ 0 < c.lruSize) := by
  unfold storeToCold
  by_cases hroom : s.lruCache.size < c.lruSize
  · rw [if_pos hroom]
    have := size_countCold_le s.lruCache item count
    refine ⟨rfl, rfl, ?_, iff_of_true rfl (by omega)⟩
    show (countCold s.lruCache item count).size ≤ _
    omega
  · rw [if_neg hroom]
    by_cases hempty : s.lruCache.size = 0
    · rw [if_pos hempty]
      exact ⟨rfl, rfl, hcold, iff_of_false (by simp) (by omega)⟩
    · rw [if_neg hempty]
      have := size_countCold_le s.lruCache.popFirst item count
      have hpop : s.lruCache.popFirst.size = s.lruCache.size - 1 := by
        rw [← Dict.length_keys, Dict.keys_popFirst, List.length_tail, Dict.length_keys]
      refine ⟨rfl, rfl, ?_, iff_of_true rfl (by omega)⟩
      show (countCold s.lruCache.popFirst item count).size ≤ _
      omega

theorem Sound.storeToCold (h : Sound c s) (item : String) (count : Nat) : Sound c (storeToCold c s item count).2 := by
  have hspec := storeToCold_spec item count h.cold
  refine ⟨hspec.1 ▸ h.sorted, ?_, hspec.2.1 ▸ h.size, hspec.2.2.1⟩
  rw [hspec.1, hspec.2.1]
  exact h.entries

/-! ### Every run -/

theorem Sound.add (h : Sound c s) (hroot : Rooted c s) (call : String × Nat) :
    Sound c (add c s call).2 ∧ Rooted c (add c s call).2 := by
  have h' : Sound c (updateSketch c s call.1 call.2) := ⟨h.sorted, h.entries, h.size, h.cold⟩
  have hroot' : Rooted c (updateSketch c s call.1 call.2) := hroot
  unfold FrequencySketch.add
  generalize updateSketch c s call.1 call.2 = s at h' hroot'
  unfold updateSpacesaving
  split
  · next oldCount hold => exact ⟨h'.enter (.inl (Dict.mem_keys_of_get? hold)), Rooted.enter (.inl hroot')⟩
  · next hnew =>
    split
    · next hroom =>
      exact ⟨h'.enter (.inr (Nat.lt_of_le_of_lt (size_le_length h'.entries) hroom)), Rooted.enter (.inl hroot')⟩
    · next hfull =>
      split
      · exact ⟨h', hroot'⟩
      · next root rest hheap =>
        have hsorted := hheap ▸ h'.sorted
        split
        · next hlt =>
          -- the item of the root leaves
          have hevicted : Sound c { s with heap := rest, exactCounts := s.exactCounts.erase root.item } := by
            refine ⟨hsorted.of_cons, fun i hi => ?_, ?_, h'.cold⟩
            · have hi := Dict.mem_keys_erase.1 hi
              obtain ⟨e, he, hei⟩ := h'.entries i hi.2
              rw [hheap] at he
              cases List.mem_cons.1 he with
              | inl he => exact absurd (hei.symm.trans (congrArg Entry.item he)) hi.1
              | inr he => exact ⟨e, he, hei⟩
            · by_cases hmem : root.item ∈ s.exactCounts.keys
              · exact (Dict.size_erase hmem).le.trans ((Nat.sub_le _ _).trans h'.size)
              · exact (congrArg Dict.size (Dict.erase_of_notMem hmem)).le.trans h'.size
          have hstored := hevicted.storeToCold root.item ((s.exactCounts.get? root.item).getD 0)
          have hspec := storeToCold_spec root.item ((s.exactCounts.get? root.item).getD 0) hevicted.cold
          simp only []
          split
          · next e he =>
            refine ⟨hstored, fun hlru => ?_⟩
            rw [hspec.2.2.2.2 hlru] at he
            cases he
          · next he =>
            have hmem := hroot' (hspec.2.2.2.1 he) root (hheap ▸ rfl)
            have hsize := Dict.size_erase hmem
            have hpos := List.length_pos_of_mem hmem
            rw [Dict.length_keys] at hpos
            have := h'.size
            refine ⟨hstored.enter (.inr ?_), Rooted.enter (.inr fun e he => ?_)⟩
            · rw [hspec.2.1, hsize]
              omega
            · rw [hspec.1] at he
              exact (count_le_of_le (List.rel_of_pairwise_cons hsorted he)).trans_lt hlt
        · have hspec := storeToCold_spec call.1 call.2 h'.cold
          refine ⟨h'.storeToCold _ _, ?_⟩
          rw [Rooted, hspec.1, hspec.2.1]
          exact hroot'

theorem sound_run (c : SketchConfig) (calls : List (String × Nat)) : Sound c (run c calls) ∧ Rooted c (run c calls) := by
  rw [run]
  induction calls using List.reverseRecOn with
  | nil => exact ⟨⟨List.Pairwise.nil, by simp [start], Nat.zero_le _, Nat.zero_le _⟩, fun _ e he => by cases he⟩
  | append_singleton calls call ih =>
    rw [List.foldl_append]
    exact ih.1.add ih.2 call

/-! ### Runs with room -/

/-- What was counted is kept: each item is counted exactly, with its sum on the heap, or in the cold cache. -/
structure Kept (calls : List (String × Nat)) (s : Sketch) : Prop where
  exact : ∀ i n, s.exactCounts.get? i = some n → n = total i calls ∧ i ∉ s.lruCache.keys ∧ entry n i ∈ s.heap
  cold : ∀ i n, s.lruCache.get? i = some n → n = total i calls
  counted : ∀ i, i ∈ s.exactCounts.keys ∨ i ∈ s.lruCache.keys ↔ i ∈ calls.map Prod.fst
  heap : ∀ e ∈ s.heap, e.item ∈ calls.map Prod.fst ∧ e.count ≤ total e.item calls

theorem mem_map_concat {i : String} : i ∈ (calls ++ [call]).map Prod.fst ↔ i = call.1 ∨ i ∈ calls.map Prod.fst := by
  rw [List.map_append, List.mem_append, List.map_singleton, List.mem_singleton, or_comm]

theorem total_le_concat (i : String) : total i calls ≤ total i (calls ++ [call]) := by
  rw [total_concat]
  exact Nat.le_add_right _ _

theorem total_concat_of_ne {i : String} (h : i ≠ call.1) : total i (calls ++ [call]) = total i calls := by
  rw [total_concat, if_neg (Ne.symm h), Nat.add_zero]

theorem Kept.enter (h : Kept calls s) (hcold : call.1 ∉ s.lruCache.keys) :
    Kept (calls ++ [call]) (s.enter call.1 (total call.1 calls + call.2)) where
  exact i n hn := by
    rw [Sketch.enter, Dict.get?_insert] at hn
    by_cases hi : call.1 = i
    · subst hi
      rw [if_pos rfl] at hn
      obtain rfl := Option.some.inj hn
      refine ⟨?_, hcold, mem_heap_enter.2 (.inl rfl)⟩
      rw [total_concat, if_pos rfl]
    · rw [if_neg hi] at hn
      obtain ⟨hn, hout, hmem⟩ := h.exact i n hn
      exact ⟨hn.trans (total_concat_of_ne (Ne.symm hi)).symm, hout, mem_heap_enter.2 (.inr hmem)⟩
  cold i n hn := by
    have hi : i ≠ call.1 := fun hi => hcold (hi ▸ Dict.mem_keys_of_get? hn)
    rw [total_concat_of_ne hi]
    exact h.cold i n hn
  counted i := by rw [mem_keys_enter, mem_map_concat, ← h.counted i, or_assoc]; rfl
  heap e he := by
    rw [mem_map_concat]
    cases mem_heap_enter.1 he with
    | inl he =>
      subst he
      refine ⟨.inl rfl, ?_⟩
      rw [item_entry, count_entry, total_concat, if_pos rfl]
    | inr he => exact ⟨.inr (h.heap e he).1, (h.heap e he).2.trans (total_le_concat _)⟩


theorem Kept.evict (h : Kept calls s) {root : Entry} {rest : List Entry} (hheap : s.heap = root :: rest)
    (hn : s.exactCounts.get? root.item = some count) :
    Kept calls { s with
      heap := rest
      exactCounts := s.exactCounts.erase root.item
      lruCache := countCold s.lruCache root.item count } where
  exact i n hi := by
    rw [Dict.get?_erase] at hi
    split at hi
    · cases hi
    · next hne =>
      obtain ⟨hn, hout, hmem⟩ := h.exact i n hi
      refine ⟨hn, ?_, ?_⟩
      · rw [mem_keys_countCold, not_or]
        exact ⟨Ne.symm hne, hout⟩
      · rw [hheap] at hmem
        exact (List.mem_cons.1 hmem).resolve_left fun he => hne (congrArg Entry.item he).symm
  cold i n hi := by
    obtain ⟨hcount, hout, -⟩ := h.exact root.item count hn
    rw [get?_countCold, Dict.notMem_keys_iff.1 hout, Option.getD_none, Nat.zero_add] at hi
    split at hi
    · next heq => rw [← heq, ← hcount, Option.some.inj hi]
    · exact h.cold i n hi
  counted i := by
    rw [Dict.mem_keys_erase, mem_keys_countCold, ← h.counted i]
    by_cases hi : i = root.item
    · simp [hi, Dict.mem_keys_of_get? hn]
    · simp [hi]
  heap e he := h.heap e (hheap ▸ List.mem_cons_of_mem _ he)

theorem Kept.store (h : Kept calls s) (hnew : s.exactCounts.get? call.1 = none) :
    Kept (calls ++ [call]) { s with lruCache := countCold s.lruCache call.1 call.2 } where
  exact i n hi := by
    have hne : i ≠ call.1 := by
      rintro rfl
      cases hnew.symm.trans hi
    obtain ⟨hn, hout, hmem⟩ := h.exact i n hi
    refine ⟨hn.trans (total_concat_of_ne hne).symm, ?_, hmem⟩
    rw [mem_keys_countCold, not_or]
    exact ⟨hne, hout⟩
  cold i n hi := by
    rw [get?_countCold] at hi
    split at hi
    · next heq =>
      subst heq
      rw [total_concat, if_pos rfl, ← Option.some.inj hi]
      congr 1
      cases hold : s.lruCache.get? call.1 with
      | some m => exact h.cold _ m hold
      | none =>
        refine (total_of_notMem fun hmem => ?_).symm
        cases (h.counted call.1).2 hmem with
        | inl hmem => exact Dict.notMem_keys_iff.2 hnew hmem
        | inr hmem => exact Dict.notMem_keys_iff.2 hold hmem
    · next hne =>
      rw [total_concat_of_ne (Ne.symm hne)]
      exact h.cold i n hi
  counted i := by
    rw [mem_keys_countCold, mem_map_concat, ← h.counted i, or_left_comm]
  heap e he := by
    rw [mem_map_concat]
    exact ⟨.inr (h.heap e he).1, (h.heap e he).2.trans (total_le_concat _)⟩

/-- One call with room: it returns, and what was counted is kept. The cold cache is used only after the heap is full. -/
theorem Kept.add (h : Kept calls s) (hroot : Rooted c s) (hfull : ∀ i ∈ s.lruCache.keys, c.topK ≤ s.heap.length)
    (hroom : HasRoom c s call) :
    (add c s call).1 = .ok () ∧ Kept (calls ++ [call]) (add c s call).2 ∧
      ∀ i ∈ (add c s call).2.lruCache.keys, c.topK ≤ (add c s call).2.heap.length := by
  have h' : Kept calls (updateSketch c s call.1 call.2) := ⟨h.exact, h.cold, h.counted, h.heap⟩
  unfold FrequencySketch.add
  change Rooted c (updateSketch c s call.1 call.2) at hroot
  change HasRoom c (updateSketch c s call.1 call.2) call at hroom
  change ∀ i ∈ (updateSketch c s call.1 call.2).lruCache.keys, c.topK ≤ (updateSketch c s call.1 call.2).heap.length
    at hfull
  generalize updateSketch c s call.1 call.2 = s at h' hroot hroom hfull
  unfold updateSpacesaving
  split
  · next old hold =>
    obtain ⟨rfl, hout, -⟩ := h'.exact _ old hold
    refine ⟨rfl, h'.enter hout, fun i hi => ?_⟩
    rw [length_enter]
    exact (hfull i hi).trans (Nat.le_succ _)
  · next hnew =>
    have hcounted : call.1 ∉ s.lruCache.keys → total call.1 calls = 0 := by
      intro hout
      refine total_of_notMem fun hmem => ?_
      exact ((h'.counted call.1).2 hmem).elim (Dict.notMem_keys_iff.2 hnew) hout
    split
    · next hlt =>
      have hout : call.1 ∉ s.lruCache.keys := fun hmem => absurd hlt (Nat.not_lt.2 (hfull _ hmem))
      have henter := h'.enter hout
      rw [hcounted hout, Nat.zero_add] at henter
      refine ⟨rfl, henter, fun i hi => ?_⟩
      rw [length_enter]
      exact (hfull i hi).trans (Nat.le_succ _)
    · next hge =>
      obtain ⟨hspace, hrise⟩ := (hroom.resolve_left (Dict.notMem_keys_iff.2 hnew)).resolve_left hge
      split
      · next hnil =>
        have hpos := c.positive.2.2
        rw [hnil, List.length_nil] at hge
        exact absurd hpos hge
      · next root rest hheap =>
        have hlength := Nat.not_lt.1 hge
        split
        · next hlt =>
          have hout : call.1 ∉ s.lruCache.keys := by
            intro hmem
            have := hrise hmem root (hheap ▸ rfl)
            omega
          obtain ⟨n, hn⟩ := Option.isSome_iff_exists.1
            (Dict.mem_keys_iff.1 (hroot (Nat.lt_of_le_of_lt (Nat.zero_le _) hspace) root (hheap ▸ rfl)))
          have hne : call.1 ≠ root.item := by
            intro heq
            cases hnew.symm.trans (heq ▸ hn)
          have hevict := h'.evict hheap hn
          have hstore : storeToCold c { s with heap := rest, exactCounts := s.exactCounts.erase root.item } root.item
              ((s.exactCounts.get? root.item).getD 0) = (.ok (), { s with
                heap := rest
                exactCounts := s.exactCounts.erase root.item
                lruCache := countCold s.lruCache root.item n }) := by
            rw [hn]
            exact if_pos hspace
          have henter := hevict.enter fun hmem => (mem_keys_countCold.1 hmem).elim hne hout
          rw [hcounted hout, Nat.zero_add] at henter
          simp only [hstore]
          refine ⟨trivial, henter, fun i _ => ?_⟩
          rw [length_enter]
          rw [hheap, List.length_cons] at hlength
          exact hlength
        · rw [storeToCold, if_pos hspace]
          exact ⟨rfl, h'.store hnew, fun i _ => hlength⟩

theorem Kept.estimate (h : Kept calls s) (hitem : item ∈ calls.map Prod.fst) : estimate c s item = total item calls := by
  unfold FrequencySketch.estimate
  split
  · next n hn => exact (h.exact item n hn).1
  · next hnone =>
    split
    · next n hn => exact h.cold item n hn
    · next hcold =>
      cases (h.counted item).2 hitem with
      | inl hmem => exact absurd hmem (Dict.notMem_keys_iff.2 hnone)
      | inr hmem => exact absurd hmem (Dict.notMem_keys_iff.2 hcold)

theorem isTop_of_entries {d : Dict String Nat}
    (hentry : ∀ e ∈ d.entries, e.1 ∈ calls.map Prod.fst ∧ e.2 = total e.1 calls)
    (hkeys : ∀ i ∈ calls.map Prod.fst, i ∈ d.keys) (k : Nat) :
    IsTop calls k ((d.entries.mergeSort fun a b => decide (b.2 ≤ a.2)).take k) := by
  have hperm := List.mergeSort_perm d.entries fun a b => decide (b.2 ≤ a.2)
  have hsorted : (d.entries.mergeSort fun a b => decide (b.2 ≤ a.2)).Pairwise fun a b => b.2 ≤ a.2 :=
    List.pairwise_mergeSort' (Order.Preimage Prod.snd (· ≥ ·)) d.entries
  have hfst : ((d.entries.mergeSort fun a b => decide (b.2 ≤ a.2)).map Prod.fst).Nodup :=
    (hperm.map Prod.fst).nodup_iff.2 d.nodup
  generalize d.entries.mergeSort (fun a b => decide (b.2 ≤ a.2)) = sorted at hperm hsorted hfst
  refine ⟨fun e he => hentry e (hperm.mem_iff.1 (List.mem_of_mem_take he)), ?_, List.length_take_le _ _,
    hsorted.sublist (List.take_sublist _ _), fun item hitem hout => ?_⟩
  · exact hfst.sublist ((List.take_sublist _ _).map _)
  · -- an item that is left out is behind the cut
    obtain ⟨e, he, rfl⟩ := List.mem_map.1 (hkeys item hitem)
    have hdrop : e ∈ sorted.drop k := by
      have hmem := hperm.mem_iff.2 he
      rw [← List.take_append_drop k sorted, List.mem_append] at hmem
      exact hmem.resolve_left fun hmem => hout (List.mem_map.2 ⟨e, hmem, rfl⟩)
    have hlength : k < sorted.length := by
      by_contra hle
      rw [List.drop_eq_nil_of_le (Nat.le_of_not_lt hle)] at hdrop
      cases hdrop
    refine ⟨by rw [List.length_take]; omega, fun e' he' => ?_⟩
    rw [← (hentry e he).2]
    rw [← List.take_append_drop k sorted] at hsorted
    exact (List.pairwise_append.1 hsorted).2.2 e' he' e hdrop

theorem Kept.top (h : Kept calls s) {array : List Entry} (harray : array.Perm s.heap) (k : Nat) :
    IsTop calls k (getTopK s array k) := by
  have hcold : ∀ e ∈ s.lruCache.entries, e.1 ∈ calls.map Prod.fst ∧ e.2 = total e.1 calls := by
    intro e he
    have hget := Dict.get?_eq_some_iff.2 he
    exact ⟨(h.counted e.1).1 (.inr (Dict.mem_keys_of_get? hget)), h.cold e.1 e.2 hget⟩
  have hcounts : ∀ e ∈ array.map (fun e => (e.item, e.count)) ++ s.lruCache.entries,
      e.1 ∈ calls.map Prod.fst ∧ e.2 ≤ total e.1 calls := by
    intro e he
    cases List.mem_append.1 he with
    | inl he =>
      obtain ⟨e, hmem, rfl⟩ := List.mem_map.1 he
      exact h.heap e (harray.mem_iff.1 hmem)
    | inr he => exact ⟨(hcold e he).1, (hcold e he).2.le⟩
  have hsum : ∀ i ∈ calls.map Prod.fst,
      (i, total i calls) ∈ array.map (fun e => (e.item, e.count)) ++ s.lruCache.entries := by
    intro i hi
    rw [List.mem_append]
    cases (h.counted i).2 hi with
    | inl hi =>
      obtain ⟨n, hn⟩ := Option.isSome_iff_exists.1 (Dict.mem_keys_iff.1 hi)
      obtain ⟨rfl, -, hmem⟩ := h.exact i n hn
      exact .inl (List.mem_map.2 ⟨_, harray.mem_iff.2 hmem, rfl⟩)
    | inr hi =>
      obtain ⟨e, he, rfl⟩ := List.mem_map.1 hi
      exact .inr ((hcold e he).2 ▸ he)
  obtain ⟨hkeys, hbound, hleast⟩ := foldl_countUp (fun i => total i calls) _ fun e he => (hcounts e he).2
  unfold getTopK
  simp only []
  generalize (array.map (fun e => (e.item, e.count)) ++ s.lruCache.entries).foldl countUp .empty = d
    at hkeys hbound hleast
  have hentry : ∀ e ∈ d.entries, e.1 ∈ calls.map Prod.fst ∧ e.2 = total e.1 calls := by
    intro e he
    obtain ⟨e', he', heq⟩ := List.mem_map.1 ((hkeys e.1).1 (List.mem_map_of_mem he))
    have hitem : e.1 ∈ calls.map Prod.fst := heq ▸ (hcounts e' he').1
    have hle := hbound e.1
    have hge := hleast _ (hsum e.1 hitem)
    rw [Dict.get?_eq_some_iff.2 he] at hle hge
    exact ⟨hitem, le_antisymm hle hge⟩
  exact isTop_of_entries hentry (fun i hi => (hkeys i).2 (List.mem_map.2 ⟨_, hsum i hi, rfl⟩)) k

end Proofs

/-- In every state of a run the estimates and the top items are exact, and each call returns and decreases no estimate
of its item. -/
structure KeepsCounts (calls : List (String × Nat)) : Prop where
  exact : ∀ before, before <+: calls → Exact c before (run c before)
  returns : ∀ before call, before ++ [call] <+: calls → (add c (run c before) call).1 = .ok ()
  grows : ∀ before call, before ++ [call] <+: calls → call.1 ∈ before.map Prod.fst →
    estimate c (run c before) call.1 ≤ estimate c (run c (before ++ [call])) call.1

theorem kept_run {calls : List (String × Nat)} (h : StepsMeet (fun s call => (add c s call).2) (HasRoom c) (start c) calls) :
    Kept calls (run c calls) ∧ ∀ i ∈ (run c calls).lruCache.keys, c.topK ≤ (run c calls).heap.length := by
  induction calls using List.reverseRecOn with
  | nil =>
    refine ⟨⟨fun i n hn => ?_, fun i n hn => ?_, fun i => by simp [run, start], fun e he => ?_⟩, fun i hi => ?_⟩
    · cases hn
    · cases hn
    · cases he
    · cases hi
  | append_singleton calls call ih =>
    obtain ⟨hbefore, hroom⟩ := stepsMeet_concat.1 h
    obtain ⟨hkept, hfull⟩ := ih hbefore
    have hrun : run c (calls ++ [call]) = (add c (run c calls) call).2 := by
      rw [run, List.foldl_append]
      rfl
    rw [hrun]
    exact (hkept.add (sound_run c calls).2 hfull hroom).2

/-- In every run at most `top_k` items are counted exactly, and in every run whose calls all have room the counts are
kept. -/
theorem keepsCounts_of_hasRoom (calls : List (String × Nat)) :
    (run c calls).exactCounts.size ≤ c.topK ∧
      (StepsMeet (fun s call => (add c s call).2) (HasRoom c) (start c) calls → KeepsCounts c calls) := by
  refine ⟨(sound_run c calls).1.size, fun h => ?_⟩
  have hpart : ∀ before, before <+: calls →
      StepsMeet (fun s call => (add c s call).2) (HasRoom c) (start c) before := by
    rintro before ⟨rest, rfl⟩
    exact (stepsMeet_append.1 h).1
  constructor
  · intro before hbefore
    have hkept := (kept_run c (hpart before hbefore)).1
    exact ⟨fun item hitem => hkept.estimate hitem, fun array k harray => hkept.top harray k⟩
  · intro before call hcall
    obtain ⟨hbefore, hroom⟩ := stepsMeet_concat.1 (hpart _ hcall)
    obtain ⟨hkept, hfull⟩ := kept_run c hbefore
    exact (hkept.add (sound_run c before).2 hfull hroom).1
  · intro before call hcall hmem
    have hkept := (kept_run c (hpart before ((List.prefix_append _ _).trans hcall))).1
    rw [hkept.estimate hmem, (kept_run c (hpart _ hcall)).1.estimate (mem_map_concat.2 (.inl rfl))]
    exact total_le_concat _

/-- A sketch of two exact counts. -/
def twoCounts : SketchConfig := ⟨4, 2, 2, 512, fun item seed => item.length + seed, by decide⟩

/-- An item that is counted twice. -/
theorem keepsCounts_twice : KeepsCounts twoCounts [("a", 2), ("a", 1)] :=
  (keepsCounts_of_hasRoom twoCounts [("a", 2), ("a", 1)]).2 ⟨.inr (.inl (by decide)), .inl (by decide), trivial⟩

/-- Two items: the repeats of the first fill the heap, so that the counts of the second are split between the cold cache
and the exact counts. -/
theorem not_keepsCounts :
    (∀ call ∈ [("a", 2), ("a", 1), ("b", 1), ("b", 5)], call.1 ∈ ["a", "b"] ∧ 1 ≤ call.2) ∧
      ["a", "b"].length = twoCounts.topK ∧
      ¬ KeepsCounts twoCounts [("a", 2), ("a", 1), ("b", 1), ("b", 5)] := by
  refine ⟨by decide, rfl, fun h => ?_⟩
  have := (h.exact _ List.prefix_rfl).estimates "b" (by decide)
  exact absurd this (by decide)

end Hledac.Utils.FrequencySketch
