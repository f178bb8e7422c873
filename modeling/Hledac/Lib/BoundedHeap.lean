import Mathlib.Data.Finset.Card
import Mathlib.Data.List.Sort
import Mathlib.Data.Prod.Lex

/-!
# The oldest entries, and a heap that is to keep them

The oldest entries of a list are the first ones in the order of their times. A heap with its least entry at the root
would keep the greatest entries of a list if every greater entry replaced the root. Here an entry replaces it that is
older than the root, so what the heap keeps is what came first, with the oldest entry of all at its root.
-/

namespace Hledac.Lib

universe u v

variable {K : Type u} {T : Type v}

/-- An entry as it is compared: by its time, then by its key. -/
def rank (e : K × T) : T ×ₗ K := toLex (e.2, e.1)

variable [LinearOrder T]

/-- The first `n` entries in the order of their times, those of one time in the order of the list. -/
def oldest (n : Nat) (xs : List (K × T)) : List (K × T) :=
  (xs.mergeSort fun a b => decide (a.2 ≤ b.2)).take n

/-- `heappush` while there is room, and `heapreplace` where the entry is older than the root. The heap is given by its
entries in order. -/
def heapStep [LinearOrder K] (room : Nat) (heap : List (T ×ₗ K)) (e : K × T) : List (T ×ₗ K) :=
  if heap.length < room then heap.orderedInsert (· ≤ ·) (rank e)
  else
    match heap with
    | [] => []
    | root :: rest => if e.2 < (ofLex root).1 then rest.orderedInsert (· ≤ ·) (rank e) else root :: rest

def heapOf [LinearOrder K] (room : Nat) (xs : List (K × T)) : List (T ×ₗ K) := xs.foldl (heapStep room) []

/-! ### The oldest entries -/

section Oldest

variable {n : Nat} {xs : List (K × T)} {a b : K × T}

omit [LinearOrder T] in
theorem rank_injective : Function.Injective (rank : K × T → T ×ₗ K) := by
  intro a b h
  have heq := toLex.injective h
  exact Prod.ext (congrArg Prod.snd heq) (congrArg Prod.fst heq)

theorem rank_le_iff [LinearOrder K] : rank a ≤ rank b ↔ a.2 < b.2 ∨ a.2 = b.2 ∧ a.1 ≤ b.1 := Prod.Lex.toLex_le_toLex

theorem mem_of_mem_oldest (h : a ∈ oldest n xs) : a ∈ xs := List.mem_mergeSort.1 (List.mem_of_mem_take h)

theorem nodup_oldest (h : xs.Nodup) (n : Nat) : (oldest n xs).Nodup :=
  ((List.mergeSort_perm xs _).nodup_iff.2 h).sublist (List.take_sublist n _)

theorem length_oldest (h : n ≤ xs.length) : (oldest n xs).length = n := by
  rw [oldest, List.length_take, List.length_mergeSort, Nat.min_eq_left h]

private theorem rel_of_take {α : Type*} {R : α → α → Prop} {l : List α} (h : l.Pairwise R) {x y : α}
    (hx : x ∈ l.take n) (hy : y ∈ l) (hnot : y ∉ l.take n) : R x y := by
  rw [← List.take_append_drop n l] at h hy
  exact (List.pairwise_append.1 h).2.2 x hx y ((List.mem_append.1 hy).resolve_left hnot)

theorem le_of_mem_oldest (ha : a ∈ oldest n xs) (hb : b ∈ xs) (hnot : b ∉ oldest n xs) : a.2 ≤ b.2 := by
  have hsorted : (xs.mergeSort fun a b => decide (a.2 ≤ b.2)).Pairwise fun a b => a.2 ≤ b.2 :=
    List.pairwise_mergeSort' (Order.Preimage Prod.snd (· ≤ ·)) xs
  exact rel_of_take hsorted ha (List.mem_mergeSort.2 hb) hnot

/-- Entries in the order of their keys are sorted by time and key. -/
theorem pairwise_rank_mergeSort [LinearOrder K] (h : xs.Pairwise fun a b => a.1 < b.1) :
    (xs.mergeSort fun a b => decide (a.2 ≤ b.2)).Pairwise fun a b => rank a ≤ rank b := by
  rw [← List.mergeSort_zipIdx, List.pairwise_map]
  have hsorted := @List.pairwise_mergeSort _ (List.zipIdxLE fun a b : K × T => decide (a.2 ≤ b.2))
    (List.zipIdxLE_trans fun a b c hab hbc =>
      decide_eq_true ((of_decide_eq_true hab).trans (of_decide_eq_true hbc)))
    (List.zipIdxLE_total fun a b => by
      rw [Bool.or_eq_true, decide_eq_true_eq, decide_eq_true_eq]
      exact le_total a.2 b.2) xs.zipIdx
  apply hsorted.imp_of_mem
  rintro ⟨a, i⟩ ⟨b, j⟩ ha hb hab
  have hai := List.mem_zipIdx_iff_getElem?.1 (List.mem_mergeSort.1 ha)
  have hbj := List.mem_zipIdx_iff_getElem?.1 (List.mem_mergeSort.1 hb)
  rw [rank_le_iff]
  simp only [List.zipIdxLE, decide_eq_true_eq] at hab
  split at hab
  · next hle =>
    split at hab
    · next hge =>
      refine .inr ⟨le_antisymm hle hge, ?_⟩
      rcases Nat.lt_or_eq_of_le (of_decide_eq_true hab) with hlt | rfl
      · obtain ⟨hi, hgeti⟩ := List.getElem?_eq_some_iff.1 hai
        obtain ⟨hj, hgetj⟩ := List.getElem?_eq_some_iff.1 hbj
        have hkeys := List.pairwise_iff_getElem.1 h i j hi hj hlt
        rw [hgeti, hgetj] at hkeys
        exact hkeys.le
      · exact (congrArg Prod.fst (Option.some.inj (hai.symm.trans hbj))).le
    · next hge => exact .inl (lt_of_not_ge hge)
  · cases hab

theorem rank_le_of_mem_oldest [LinearOrder K] (h : xs.Pairwise fun a b => a.1 < b.1) (ha : a ∈ oldest n xs) (hb : b ∈ xs)
    (hnot : b ∉ oldest n xs) : rank a ≤ rank b :=
  rel_of_take (pairwise_rank_mergeSort h) ha (List.mem_mergeSort.2 hb) hnot

end Oldest

/-! ### The heap -/

section Heap

variable [LinearOrder K] {room : Nat} {xs : List (K × T)}

theorem heapOf_concat (room : Nat) (xs : List (K × T)) (e : K × T) :
    heapOf room (xs ++ [e]) = heapStep room (heapOf room xs) e := by
  rw [heapOf, List.foldl_append]
  rfl

/-- While there is room the heap keeps everything. -/
theorem heapOf_of_le (h : xs.length ≤ room) :
    (heapOf room xs).Pairwise (· ≤ ·) ∧ (heapOf room xs).Perm (xs.map rank) := by
  induction xs using List.reverseRecOn with
  | nil => exact ⟨List.Pairwise.nil, List.Perm.refl _⟩
  | append_singleton xs e ih =>
    rw [List.length_append, List.length_singleton] at h
    obtain ⟨hsorted, hperm⟩ := ih (Nat.le_of_succ_le h)
    have hroom : (heapOf room xs).length < room := by
      rw [hperm.length_eq, List.length_map]
      exact h
    rw [heapOf_concat, heapStep.eq_def, if_pos hroom]
    refine ⟨hsorted.orderedInsert _ _, (List.perm_orderedInsert _ _ _).trans ?_⟩
    rw [List.map_append]
    exact (hperm.cons _).trans (List.perm_append_singleton _ _).symm

/-- What the heap has kept of a list in the order of the keys: the first entries but the least of them, and the least
of all. -/
structure Kept (room : Nat) (xs : List (K × T)) (root least : T ×ₗ K) (rest : List (T ×ₗ K)) : Prop where
  heap : heapOf room xs = root :: rest
  first : (least :: rest).Perm ((xs.take room).map rank)
  least_le : ∀ r ∈ rest, least ≤ r
  root_mem : root ∈ xs.map rank
  root_le : ∀ r ∈ xs.map rank, root ≤ r

theorem kept_append (first others : List (K × T)) (hpos : 0 < first.length)
    (h : (first ++ others).Pairwise fun a b => a.1 < b.1) :
    ∃ root least rest, Kept first.length (first ++ others) root least rest := by
  induction others using List.reverseRecOn with
  | nil =>
    obtain ⟨hsorted, hperm⟩ := heapOf_of_le (le_refl first.length)
    rw [List.append_nil]
    cases hheap : heapOf first.length first with
    | nil =>
      rw [hheap] at hperm
      rw [List.length_eq_zero_iff.2 (List.map_eq_nil_iff.1 hperm.nil_eq.symm)] at hpos
      cases hpos
    | cons root rest =>
      rw [hheap] at hsorted hperm
      obtain ⟨hle, -⟩ := List.pairwise_cons.1 hsorted
      refine ⟨root, root, rest, hheap, ?_, hle, hperm.mem_iff.1 List.mem_cons_self, fun r hr => ?_⟩
      · rwa [List.take_length]
      · rcases List.mem_cons.1 (hperm.mem_iff.2 hr) with rfl | hr
        · exact le_rfl
        · exact hle r hr
  | append_singleton others e ih =>
    rw [← List.append_assoc] at h ⊢
    obtain ⟨hbefore, -, hlast⟩ := List.pairwise_append.1 h
    obtain ⟨root, least, rest, hkept⟩ := ih hbefore
    have hfirst : ((first ++ others ++ [e]).take first.length) = (first ++ others).take first.length := by
      rw [List.append_assoc, List.take_left, List.take_left]
    have hlength : (root :: rest).length = first.length := by
      have hlength := hkept.first.length_eq
      rw [List.length_map, List.take_left] at hlength
      exact hlength
    have hstep : heapOf first.length (first ++ others ++ [e]) =
        if e.2 < (ofLex root).1 then rest.orderedInsert (· ≤ ·) (rank e) else root :: rest := by
      rw [heapOf_concat, hkept.heap, heapStep, if_neg (by omega)]
    have hmem : ∀ r ∈ (first ++ others ++ [e]).map rank, r ∈ (first ++ others).map rank ∨ r = rank e := by
      intro r hr
      rw [List.map_append, List.mem_append, List.map_singleton, List.mem_singleton] at hr
      exact hr
    by_cases holder : e.2 < (ofLex root).1
    · have hlt : rank e < root := Prod.Lex.lt_iff.2 (.inl holder)
      have hrest : ∀ r ∈ rest, root ≤ r := by
        intro r hr
        apply hkept.root_le
        have hr := hkept.first.mem_iff.1 (List.mem_cons_of_mem least hr)
        exact List.map_subset _ (List.take_subset _ _) hr
      refine ⟨rank e, least, rest, ?_, ?_, hkept.least_le, ?_, fun r hr => ?_⟩
      · rw [hstep, if_pos holder]
        cases rest with
        | nil => rfl
        | cons r rest => exact List.orderedInsert_cons_of_le _ _ (hlt.le.trans (hrest r List.mem_cons_self))
      · rw [hfirst]
        exact hkept.first
      · exact List.mem_map_of_mem (by simp)
      · rcases hmem r hr with hr | rfl
        · exact hlt.le.trans (hkept.root_le r hr)
        · exact le_rfl
    · refine ⟨root, least, rest, ?_, ?_, hkept.least_le, ?_, fun r hr => ?_⟩
      · rw [hstep, if_neg holder]
      · rw [hfirst]
        exact hkept.first
      · rw [List.map_append]
        exact List.mem_append_left _ hkept.root_mem
      · rcases hmem r hr with hr | rfl
        · exact hkept.root_le r hr
        · -- a later entry has a greater key
          obtain ⟨y, hy, rfl⟩ := List.mem_map.1 hkept.root_mem
          have hkey := hlast y hy e (List.mem_singleton_self e)
          rw [rank_le_iff]
          rcases lt_or_eq_of_le (not_lt.1 holder) with hlt | heq
          · exact .inl hlt
          · exact .inr ⟨heq, hkey.le⟩

theorem exists_kept (hpos : 0 < room) (hroom : room ≤ xs.length) (h : xs.Pairwise fun a b => a.1 < b.1) :
    ∃ root least rest, Kept room xs root least rest := by
  have hlength : (xs.take room).length = room := by rw [List.length_take, Nat.min_eq_left hroom]
  have hkept := kept_append (xs.take room) (xs.drop room) (by omega)
    (by rwa [List.take_append_drop])
  rwa [List.take_append_drop, hlength] at hkept

end Heap

end Hledac.Lib
