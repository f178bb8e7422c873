import Mathlib.Tactic.Linarith
import Hledac.Lib.Recency
import Hledac.Lib.SetOrder

/-!
# The windows of the bounded deduplication sets

The in-memory filter of `RotatingBloomFilter` has two generations: a full one becomes the previous one.
`PersistentSetAdapter` takes items out of a full set as `set.pop` gives them, in any order. What either
still holds is measured by the items added since.
-/

namespace Hledac.Knowledge

open Hledac.Lib

/-! ### Two generations -/

/-- `_InMemFilter`; `knowledge/dedup.py:264-298`. -/
structure InMemFilter where
  active : Finset String := ∅
  previous : Finset String := ∅

namespace InMemFilter

/-- `__contains__`. -/
def contains (item : String) (f : InMemFilter) : Bool := decide (item ∈ f.active ∨ item ∈ f.previous)

/-- `rotate`. -/
def rotate (f : InMemFilter) : InMemFilter := { active := ∅, previous := f.active }

/-- `RotatingBloomFilter.add`; `dedup.py:315-334`. -/
def add (capacity : Nat) (item : String) (f : InMemFilter) : InMemFilter :=
  let f := if capacity ≤ f.active.card then f.rotate else f
  { f with active := insert item f.active }

/-- The filter after some adds. -/
def run (capacity : Nat) (items : List String) : InMemFilter :=
  items.foldl (fun f item => f.add capacity item) {}

/-- A filter with the items added, the latest first, and which of them count. -/
structure Tracked where
  filter : InMemFilter := {}
  history : List (String × Bool) := []

/-- An add of an item that counts where `counts` says so. -/
def Tracked.step (counts : InMemFilter → String → Bool) (capacity : Nat) (t : Tracked) (item : String) :
    Tracked where
  filter := t.filter.add capacity item
  history := (item, counts t.filter item) :: t.history

/-- A run of adds. -/
def track (counts : InMemFilter → String → Bool) (capacity : Nat) (items : List String) : Tracked :=
  items.foldl (Tracked.step counts capacity) {}

/-- The items that count and were added since. -/
def countedSince (history : List (String × Bool)) (item : String) : Finset String :=
  (((history.takeWhile fun e => e.1 ≠ item).filter Prod.snd).map Prod.fst).toFinset

/-- The item was not in the filter. -/
def isNew (f : InMemFilter) (item : String) : Bool := !f.contains item

/-- An add puts in an item that is new, or one that is in the active generation, which has room. -/
def AddsNew (capacity : Nat) (f : InMemFilter) (item : String) : Prop :=
  f.isNew item = true ∨ item ∈ f.active ∧ f.active.card < capacity

section Window

variable {capacity : Nat} {counts : InMemFilter → String → Bool} {t : Tracked}
  {history : List (String × Bool)} {item other : String} {mark : Bool}

theorem countedSince_cons_of_ne (h : other ≠ item) :
    countedSince ((other, mark) :: history) item =
      if mark then insert other (countedSince history item) else countedSince history item := by
  rw [countedSince, List.takeWhile_cons_of_pos (by simpa using h)]
  cases mark with
  | true =>
    rw [List.filter_cons_of_pos rfl, List.map_cons, List.toFinset_cons]
    rfl
  | false =>
    rw [List.filter_cons_of_neg (by simp)]
    rfl

theorem countedSince_subset_cons (h : other ≠ item) :
    countedSince history item ⊆ countedSince ((other, mark) :: history) item := by
  rw [countedSince_cons_of_ne h]
  split
  · exact Finset.subset_insert _ _
  · exact Finset.Subset.refl _

/-- Each generation is within its bound. An item that is not in the active one was added before all of
it, and one that is in neither before as many items as the bound. -/
structure InWindow (capacity : Nat) (t : Tracked) : Prop where
  active_le : t.filter.active.card ≤ capacity
  previous_le : t.filter.previous.card ≤ capacity
  newer : ∀ item ∈ t.history.map Prod.fst, item ∉ t.filter.active →
    t.filter.active ⊆ countedSince t.history item
  kept : ∀ item ∈ t.history.map Prod.fst, item ∉ t.filter.active → item ∉ t.filter.previous →
    capacity ≤ (countedSince t.history item).card

theorem InWindow.step (h : InWindow capacity t) (hcapacity : 1 ≤ capacity)
    (hcounts : counts t.filter item = true ∨ item ∈ t.filter.active ∧ t.filter.active.card < capacity) :
    InWindow capacity (t.step counts capacity item) := by
  have hold : ∀ a ∈ (t.step counts capacity item).history.map Prod.fst, a ≠ item →
      a ∈ t.history.map Prod.fst := fun a ha hne => (List.mem_cons.1 ha).resolve_left hne
  have hsub : ∀ a, a ≠ item →
      countedSince t.history a ⊆ countedSince (t.step counts capacity item).history a :=
    fun a hne => countedSince_subset_cons hne.symm
  have hcounted : ∀ a, a ≠ item → counts t.filter item = true →
      item ∈ countedSince (t.step counts capacity item).history a := by
    intro a hne hmark
    show item ∈ countedSince ((item, counts t.filter item) :: t.history) a
    rw [countedSince_cons_of_ne hne.symm, if_pos hmark]
    exact Finset.mem_insert_self _ _
  by_cases hfull : capacity ≤ t.filter.active.card
  · -- the full generation becomes the previous one, and what was in neither had it added since
    have hmark : counts t.filter item = true := hcounts.resolve_right fun hroom => by omega
    have hfilter : (t.step counts capacity item).filter = ⟨{item}, t.filter.active⟩ := by
      rw [Tracked.step, add, if_pos hfull]
      rfl
    constructor
    · rw [hfilter]
      exact hcapacity
    · rw [hfilter]
      exact h.active_le
    · intro a ha hactive
      rw [hfilter] at hactive ⊢
      exact Finset.singleton_subset_iff.2 (hcounted a (mt Finset.mem_singleton.2 hactive) hmark)
    · intro a ha hactive hprevious
      rw [hfilter] at hactive hprevious
      have hne : a ≠ item := mt Finset.mem_singleton.2 hactive
      exact hfull.trans (Finset.card_le_card ((h.newer a (hold a ha hne) hprevious).trans (hsub a hne)))
  · have hroom : t.filter.active.card < capacity := Nat.lt_of_not_le hfull
    have hfilter : (t.step counts capacity item).filter =
        ⟨insert item t.filter.active, t.filter.previous⟩ := by
      rw [Tracked.step, add, if_neg hfull]
    constructor
    · rw [hfilter]
      exact (Finset.card_insert_le _ _).trans hroom
    · rw [hfilter]
      exact h.previous_le
    · intro a ha hactive
      rw [hfilter] at hactive ⊢
      rw [Finset.mem_insert, not_or] at hactive
      have hnewer := (h.newer a (hold a ha hactive.1) hactive.2).trans (hsub a hactive.1)
      apply Finset.insert_subset ?_ hnewer
      cases hcounts with
      | inl hmark => exact hcounted a hactive.1 hmark
      | inr hmem => exact hnewer hmem.1
    · intro a ha hactive hprevious
      rw [hfilter] at hactive hprevious
      rw [Finset.mem_insert, not_or] at hactive
      exact (h.kept a (hold a ha hactive.1) hactive.2 hprevious).trans
        (Finset.card_le_card (hsub a hactive.1))

theorem filter_track (counts : InMemFilter → String → Bool) (capacity : Nat) (items : List String) :
    (track counts capacity items).filter = run capacity items ∧
      (track counts capacity items).history.map Prod.fst = items.reverse := by
  induction items using List.reverseRecOn with
  | nil => exact ⟨rfl, rfl⟩
  | append_singleton items item ih =>
    rw [track, run, List.foldl_append, List.foldl_append, List.reverse_append, ← track, ← run]
    exact ⟨congrArg (add capacity item) ih.1, congrArg (item :: ·) ih.2⟩

theorem inWindow_track (counts : InMemFilter → String → Bool) (hcapacity : 1 ≤ capacity) (items : List String)
    (hcounts : ∀ before item after, items = before ++ item :: after →
      counts (run capacity before) item = true ∨
        item ∈ (run capacity before).active ∧ (run capacity before).active.card < capacity) :
    InWindow capacity (track counts capacity items) := by
  induction items using List.reverseRecOn with
  | nil =>
    refine ⟨Nat.zero_le _, Nat.zero_le _, ?_, ?_⟩
    · exact fun a ha => absurd ha List.not_mem_nil
    · exact fun a ha => absurd ha List.not_mem_nil
  | append_singleton items item ih =>
    rw [track, List.foldl_append]
    apply (ih ?_).step hcapacity
    · rw [(filter_track counts capacity items).1]
      exact hcounts items item [] rfl
    · intro before item' after heq
      exact hcounts before item' (after ++ [item]) (by rw [heq, List.append_assoc]; rfl)

theorem countedSince_all (capacity : Nat) (items : List String) (item : String) :
    (countedSince (track (fun _ _ => true) capacity items).history item).card =
      Recency.distinctSince items.reverse item := by
  have hmarks : ∀ e ∈ (track (fun _ _ => true) capacity items).history, e.2 = true := by
    induction items using List.reverseRecOn with
    | nil => exact fun e he => absurd he List.not_mem_nil
    | append_singleton items item ih =>
      rw [track, List.foldl_append]
      exact List.forall_mem_cons.2 ⟨rfl, ih⟩
  rw [Recency.distinctSince, Recency.since, ← (filter_track (fun _ _ => true) capacity items).2,
    countedSince, List.filter_eq_self.2 fun e he => hmarks e ((List.takeWhile_sublist _).mem he),
    List.takeWhile_map]
  rfl

theorem contains_iff {f : InMemFilter} : f.contains item = true ↔ item ∈ f.active ∨ item ∈ f.previous :=
  decide_eq_true_iff

theorem InWindow.contains_or (h : InWindow capacity t) (item : String) (hitem : item ∈ t.history.map Prod.fst) :
    t.filter.contains item = true ∨ capacity ≤ (countedSince t.history item).card := by
  rw [contains_iff, or_iff_not_imp_left]
  intro hnot
  exact h.kept item hitem (fun h => hnot (Or.inl h)) fun h => hnot (Or.inr h)

end Window

end InMemFilter

/-! ### A set without order -/

namespace PersistentSetAdapter

/-- Items are popped, as a set read in some order gives them first. -/
def popSome (o : SetOrder String) : Nat → Finset String → Finset String
  | 0, s => s
  | n + 1, s =>
    match (o.order s).head? with
    | none => s
    | some item => popSome o n (s.erase item)

/-- `max(1, self._max_size // 10)`. -/
def evictCount (maxSize : Nat) : Nat := max 1 (maxSize / 10)

/-- The set after the eviction loop. -/
def evict (o : SetOrder String) (maxSize : Nat) (s : Finset String) : Finset String :=
  if maxSize ≤ s.card then popSome o (evictCount maxSize) s else s

/-- `add`; `tools/url_dedup.py:263-272`. -/
def add (maxSize : Nat) (s : Finset String) (call : String × SetOrder String) : Finset String :=
  insert call.1 (evict call.2 maxSize s)

/-- The set after some adds, each with the order of the set at its time. -/
def run (maxSize : Nat) (calls : List (String × SetOrder String)) : Finset String :=
  calls.foldl (add maxSize) ∅

/-- The items added, the latest first. -/
def historyOf (calls : List (String × SetOrder String)) : List String := (calls.map Prod.fst).reverse

/-- What an add evicts was added before all that it keeps. -/
def EvictsOldest (maxSize : Nat) (before : List (String × SetOrder String)) (o : SetOrder String) : Prop :=
  ∀ a ∈ run maxSize before, a ∉ evict o maxSize (run maxSize before) →
    ∀ b ∈ evict o maxSize (run maxSize before), b ∈ Recency.since (historyOf before) a

/-- An item is held until nine tenths of the bound, less one, other items have been added. -/
def KeepsWindow (maxSize : Nat) (calls : List (String × SetOrder String)) : Prop :=
  ∀ item ∈ calls.map Prod.fst, item ∈ run maxSize calls ∨
    9 * maxSize ≤ 10 * (Recency.distinctSince (historyOf calls) item + 1)

/-- Every add evicts the oldest items, and the window is kept throughout. -/
def Keeps (maxSize : Nat) (calls : List (String × SetOrder String)) : Prop :=
  (∀ before call after, calls = before ++ call :: after → EvictsOldest maxSize before call.2) ∧
    ∀ before after, calls = before ++ after → KeepsWindow maxSize before

/-- No add comes when as many different items have been added as the bound. -/
def NeverFull (maxSize : Nat) (items : List String) : Prop :=
  ∀ before item after, items = before ++ item :: after → before.toFinset.card < maxSize

section Set

variable {maxSize : Nat} {o : SetOrder String} {s : Finset String}
  {calls : List (String × SetOrder String)}

theorem popSome_subset (o : SetOrder String) (n : Nat) (s : Finset String) : popSome o n s ⊆ s := by
  induction n generalizing s with
  | zero => exact Finset.Subset.refl _
  | succ n ih =>
    rw [popSome]
    split
    · exact Finset.Subset.refl _
    · exact (ih _).trans (Finset.erase_subset _ _)

theorem card_popSome (o : SetOrder String) (n : Nat) (s : Finset String) :
    (popSome o n s).card = s.card - n := by
  induction n generalizing s with
  | zero => rfl
  | succ n ih =>
    rw [popSome]
    split
    · next hnone =>
      have hempty : s.card = 0 := by
        rw [← o.length_order, List.head?_eq_none_iff.1 hnone]
        rfl
      omega
    · next item hitem =>
      have hmem : item ∈ s := (o.mem s item).1 (List.mem_of_head? hitem)
      rw [ih, Finset.card_erase_of_mem hmem]
      omega

theorem evict_subset (o : SetOrder String) (maxSize : Nat) (s : Finset String) : evict o maxSize s ⊆ s := by
  rw [evict]
  split
  · exact popSome_subset o _ s
  · exact Finset.Subset.refl _

theorem run_append (maxSize : Nat) (calls : List (String × SetOrder String))
    (call : String × SetOrder String) : run maxSize (calls ++ [call]) = add maxSize (run maxSize calls) call := by
  rw [run, List.foldl_append]
  rfl

theorem historyOf_append (calls : List (String × SetOrder String)) (call : String × SetOrder String) :
    historyOf (calls ++ [call]) = call.1 :: historyOf calls := by
  rw [historyOf, List.map_append, List.reverse_append]
  rfl

theorem card_run_le (hmax : 1 ≤ maxSize) (calls : List (String × SetOrder String)) :
    (run maxSize calls).card ≤ maxSize := by
  induction calls using List.reverseRecOn with
  | nil => exact Nat.zero_le _
  | append_singleton calls call ih =>
    rw [run_append, add]
    apply (Finset.card_insert_le _ _).trans
    rw [evict]
    split
    · have hcount : 1 ≤ evictCount maxSize := Nat.le_max_left _ _
      rw [card_popSome]
      omega
    · omega

theorem run_subset (maxSize : Nat) (calls : List (String × SetOrder String)) :
    run maxSize calls ⊆ (calls.map Prod.fst).toFinset := by
  induction calls using List.reverseRecOn with
  | nil => exact Finset.Subset.refl _
  | append_singleton calls call ih =>
    rw [run_append, add, List.map_append, List.toFinset_append]
    apply Finset.insert_subset
    · exact Finset.mem_union_right _ (List.mem_toFinset.2 List.mem_cons_self)
    · exact ((evict_subset _ _ _).trans ih).trans Finset.subset_union_left

theorem keepsWindow_of_oldest (calls : List (String × SetOrder String))
    (holdest : ∀ before call after, calls = before ++ call :: after → EvictsOldest maxSize before call.2) :
    KeepsWindow maxSize calls := by
  induction calls using List.reverseRecOn with
  | nil => exact fun item hitem => absurd hitem List.not_mem_nil
  | append_singleton calls call ih =>
    have ih := ih fun before call' after heq =>
      holdest before call' (after ++ [call]) (by rw [heq, List.append_assoc]; rfl)
    intro item hitem
    rw [run_append, historyOf_append]
    by_cases hsame : call.1 = item
    · exact Or.inl (hsame ▸ Finset.mem_insert_self _ _)
    have hadded : item ∈ calls.map Prod.fst := by
      rw [List.map_append, List.mem_append] at hitem
      exact hitem.resolve_right fun h => hsame (List.mem_singleton.1 h).symm
    have hmono : Recency.distinctSince (historyOf calls) item ≤
        Recency.distinctSince (call.1 :: historyOf calls) item := Recency.distinctSince_le_cons hsame
    cases ih item hadded with
    | inr hcount => exact Or.inr (by omega)
    | inl hheld =>
      by_cases hkept : item ∈ evict call.2 maxSize (run maxSize calls)
      · exact Or.inl (Finset.mem_insert_of_mem hkept)
      -- the items kept were all added since, and they are nine tenths of a full set
      have hfull : maxSize ≤ (run maxSize calls).card := by
        by_contra hroom
        rw [evict, if_neg hroom] at hkept
        exact hkept hheld
      have hcard : (run maxSize calls).card - evictCount maxSize ≤
          Recency.distinctSince (historyOf calls) item := by
        have hpop : evict call.2 maxSize (run maxSize calls) =
            popSome call.2 (evictCount maxSize) (run maxSize calls) := if_pos hfull
        rw [← card_popSome call.2, ← hpop]
        apply Finset.card_le_card
        intro b hb
        exact List.mem_toFinset.2 (holdest calls call [] rfl item hheld hkept b hb)
      have hevict : evictCount maxSize = max 1 (maxSize / 10) := rfl
      exact Or.inr (by omega)

theorem evictsOldest_of_room (hroom : maxSize = 1 ∨ (run maxSize calls).card < maxSize)
    (o : SetOrder String) : EvictsOldest maxSize calls o := by
  intro a ha hgone b hb
  cases hroom with
  | inl hone =>
    have hcard := card_run_le (by omega : 1 ≤ maxSize) calls
    rw [hone] at hcard ha hgone hb
    rw [Finset.card_le_one.1 hcard a ha b (evict_subset o 1 _ hb)] at hgone
    exact absurd hb hgone
  | inr hlt =>
    rw [evict, if_neg (Nat.not_le.2 hlt)] at hgone
    exact absurd ha hgone

theorem run_eq_of_room (maxSize : Nat) (calls : List (String × SetOrder String))
    (hroom : ∀ before call after, calls = before ++ call :: after → (run maxSize before).card < maxSize) :
    run maxSize calls = (calls.map Prod.fst).toFinset := by
  induction calls using List.reverseRecOn with
  | nil => rfl
  | append_singleton calls call ih =>
    have ih := ih fun before call' after heq =>
      hroom before call' (after ++ [call]) (by rw [heq, List.append_assoc]; rfl)
    have hkept : evict call.2 maxSize (run maxSize calls) = run maxSize calls :=
      if_neg (Nat.not_le.2 (hroom calls call [] rfl))
    rw [run_append, add, hkept, ih, List.map_append, List.toFinset_append, Finset.union_comm]
    rfl

theorem evicts_leading {last : String} {rest : List String} (hmax : 2 ≤ maxSize)
    (hfull : maxSize ≤ (run maxSize calls).card) (hhistory : historyOf calls = last :: rest)
    (hlast : last ∈ run maxSize calls) : ¬ EvictsOldest maxSize calls (SetOrder.leading last) := by
  intro holdest
  have hpop : evict (SetOrder.leading last) maxSize (run maxSize calls) =
      popSome (SetOrder.leading last) (evictCount maxSize) (run maxSize calls) := if_pos hfull
  have hcount : evictCount maxSize = max 1 (maxSize / 10) := rfl
  have hgone : last ∉ evict (SetOrder.leading last) maxSize (run maxSize calls) := by
    obtain ⟨n, hn⟩ : ∃ n, evictCount maxSize = n + 1 := ⟨evictCount maxSize - 1, by omega⟩
    rw [hpop, hn, popSome, SetOrder.head?_leading hlast]
    intro hmem
    exact Finset.notMem_erase last _ (popSome_subset _ n _ hmem)
  have hkept : 0 < (evict (SetOrder.leading last) maxSize (run maxSize calls)).card := by
    rw [hpop, card_popSome]
    omega
  obtain ⟨b, hb⟩ := Finset.card_pos.1 hkept
  have hsince := holdest last hlast hgone b hb
  rw [hhistory, Recency.since_cons_self] at hsince
  exact absurd hsince List.not_mem_nil

theorem keeps_iff (hmax : 1 ≤ maxSize) (items : List String) :
    (∀ calls, calls.map Prod.fst = items → Keeps maxSize calls) ↔
      maxSize = 1 ∨ NeverFull maxSize items := by
  constructor
  · intro hkeeps
    rw [or_iff_not_imp_left]
    intro hne
    by_contra hnot
    obtain ⟨o⟩ : Nonempty (SetOrder String) := inferInstance
    have hfst : ∀ l : List String, (l.map fun item => (item, o)).map Prod.fst = l := by
      intro l
      rw [List.map_map]
      exact List.map_id l
    -- some add comes to a full set, which the next order makes evict the item added last
    obtain ⟨before, item, after, rfl, hfull⟩ : ∃ before item after, items = before ++ item :: after ∧
        maxSize ≤ (run maxSize (before.map fun item => (item, o))).card := by
      by_contra hall
      push Not at hall
      apply hnot
      intro before item after heq
      have hrun := run_eq_of_room maxSize (before.map fun item => (item, o)) (by
        intro first call rest hsplit
        obtain ⟨first', rest', hbefore, rfl, hrest⟩ := List.map_eq_append_iff.1 hsplit
        obtain ⟨item', rest'', rfl, -, -⟩ := List.map_eq_cons_iff.1 hrest
        exact hall first' item' (rest'' ++ item :: after) (by rw [heq, hbefore, List.append_assoc]; rfl))
      have hlt := hall before item after heq
      rwa [hrun, hfst] at hlt
    cases before using List.reverseRecOn with
    | nil => exact absurd (hmax.trans hfull) (Nat.not_succ_le_zero 0)
    | append_singleton before last =>
      have hhistory : historyOf ((before ++ [last]).map fun item => (item, o)) = last :: before.reverse := by
        rw [historyOf, hfst, List.reverse_append]
        rfl
      have hlast : last ∈ run maxSize ((before ++ [last]).map fun item => (item, o)) := by
        rw [List.map_append, List.map_singleton, run_append]
        exact Finset.mem_insert_self _ _
      apply evicts_leading (by omega) hfull hhistory hlast
      apply (hkeeps ((before ++ [last]).map (fun item => (item, o)) ++
        (item, SetOrder.leading last) :: after.map fun item => (item, o)) ?_).1 _ (item, SetOrder.leading last) _ rfl
      rw [List.map_append, List.map_cons, hfst, hfst]
  · intro hcond calls hcalls
    have holdest : ∀ before call after, calls = before ++ call :: after →
        EvictsOldest maxSize before call.2 := by
      intro before call after heq
      apply evictsOldest_of_room
      apply hcond.imp_right
      intro hnever
      apply (Finset.card_le_card (run_subset maxSize before)).trans_lt
      apply hnever (before.map Prod.fst) call.1 (after.map Prod.fst)
      rw [← hcalls, heq, List.map_append, List.map_cons]
    refine ⟨holdest, fun before after heq => keepsWindow_of_oldest before ?_⟩
    intro first call rest hbefore
    exact holdest first call (rest ++ after) (by rw [heq, hbefore, List.append_assoc]; rfl)

end Set

end PersistentSetAdapter

/-! ### Both -/

/-- The items added since that were new when they were added. -/
def newSince (capacity : Nat) (items : List String) (item : String) : Finset String :=
  InMemFilter.countedSince (InMemFilter.track InMemFilter.isNew capacity items).history item

/-- The filter never holds more than two bounds and keeps an item until as many different ones have been
added as its bound, as many new ones where every add puts in a new item or one of a generation with room.
The set never holds more than its bound, keeps its window where the oldest items are evicted, and does so
in whatever order it is read if and only if it is of one item or never full. -/
theorem dedupWindow_run (capacity maxSize : Nat) (hcapacity : 1 ≤ capacity) (hmax : 1 ≤ maxSize)
    (items : List String) :
    ((InMemFilter.run capacity items).active.card + (InMemFilter.run capacity items).previous.card ≤
        2 * capacity ∧
      (∀ item ∈ items, (InMemFilter.run capacity items).contains item = true ∨
        capacity ≤ Recency.distinctSince items.reverse item) ∧
      ((∀ before item after, items = before ++ item :: after →
          InMemFilter.AddsNew capacity (InMemFilter.run capacity before) item) →
        ∀ item ∈ items, (InMemFilter.run capacity items).contains item = true ∨
          capacity ≤ (newSince capacity items item).card)) ∧
    (∀ calls, calls.map Prod.fst = items → (PersistentSetAdapter.run maxSize calls).card ≤ maxSize ∧
      ((∀ before call after, calls = before ++ call :: after →
          PersistentSetAdapter.EvictsOldest maxSize before call.2) →
        PersistentSetAdapter.KeepsWindow maxSize calls)) ∧
    ((∀ calls, calls.map Prod.fst = items → PersistentSetAdapter.Keeps maxSize calls) ↔
      maxSize = 1 ∨ PersistentSetAdapter.NeverFull maxSize items) := by
  have hall := InMemFilter.inWindow_track (fun _ _ => true) hcapacity items
    fun _ _ _ _ => Or.inl rfl
  have hfilter := InMemFilter.filter_track (fun _ _ => true) capacity items
  refine ⟨⟨?_, ?_, ?_⟩, ?_, PersistentSetAdapter.keeps_iff hmax items⟩
  · have hactive := hall.active_le
    have hprevious := hall.previous_le
    rw [hfilter.1] at hactive hprevious
    omega
  · intro item hitem
    have hor := hall.contains_or item (by rwa [hfilter.2, List.mem_reverse])
    rwa [hfilter.1, InMemFilter.countedSince_all] at hor
  · intro hnew item hitem
    have hwindow := InMemFilter.inWindow_track InMemFilter.isNew hcapacity items hnew
    have htrack := InMemFilter.filter_track InMemFilter.isNew capacity items
    have hor := hwindow.contains_or item (by rwa [htrack.2, List.mem_reverse])
    rwa [htrack.1] at hor
  · intro calls _
    exact ⟨PersistentSetAdapter.card_run_le hmax calls, PersistentSetAdapter.keepsWindow_of_oldest calls⟩

theorem dedupWindow_run_three : (1 ≤ 3 ∧ 1 ≤ 3) ∧
    PersistentSetAdapter.NeverFull 3 ["a", "b", "a"] ∧
    ∀ calls, calls.map Prod.fst = ["a", "b", "a"] → PersistentSetAdapter.Keeps 3 calls := by
  have hnever : PersistentSetAdapter.NeverFull 3 ["a", "b", "a"] := by
    intro before item after heq
    have hlength := congrArg List.length heq
    have hle := List.toFinset_card_le before
    simp only [List.length_cons, List.length_append, List.length_nil] at hlength
    omega
  exact ⟨by decide, hnever, (dedupWindow_run 3 3 (by decide) (by decide) _).2.2.2 (Or.inr hnever)⟩

/-- A full set may evict the item added last, and a filter may lose an item after one new one. -/
theorem not_dedupWindow :
    (¬ ∀ maxSize, 1 ≤ maxSize → ∀ calls, PersistentSetAdapter.Keeps maxSize calls) ∧
      ¬ ∀ capacity, 1 ≤ capacity → ∀ items, ∀ item ∈ items,
        (InMemFilter.run capacity items).contains item = true ∨
          capacity ≤ (newSince capacity items item).card := by
  constructor
  · intro h
    have hnever := (PersistentSetAdapter.keeps_iff (by decide : 1 ≤ 2) ["a", "b", "c"]).1
      fun calls _ => h 2 (by decide) calls
    exact absurd ((hnever.resolve_left (by decide)) ["a", "b"] "c" [] rfl) (by decide)
  · intro h
    have hor := h 3 (by decide) ["b1", "b2", "a", "b1", "b2", "c", "c"] "a" (by decide)
    exact absurd hor (by decide)

end Hledac.Knowledge
