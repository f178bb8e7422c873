import Mathlib.Data.List.Range
import Mathlib.Data.List.Sort

/-!
# Chunks and batches

A list is cut into chunks of one size, and chunks are gathered again into batches that each reach
a least length. Neither loses, repeats or reorders an entry. What is made of the chunks can be compared piece by piece,
and numbered pieces can be put back in order.
-/

namespace Hledac.Lib

universe u v

variable {α : Type u} {β : Type v}

/-- Chunk number `c` of the chunks of `k` entries. -/
def chunk (k : Nat) (xs : List α) (c : Nat) : List α := (xs.drop (c * k)).take k

/-- How many chunks of `k` entries `n` entries make, the last one possibly shorter. -/
def chunkCount (k n : Nat) : Nat := (n + k - 1) / k

/-- The chunks of `k` entries, in order. -/
def chunks (k : Nat) (xs : List α) : List (List α) :=
  (List.range (chunkCount k xs.length)).map (chunk k xs)

/-- Chunks are gathered until there are at least `least` entries; what is left over is a batch of its
own. -/
def grouped (least : Nat) (pending : List α) : List (List α) → List (List α)
  | [] => if pending = [] then [] else [pending]
  | g :: gs =>
    if pending ++ g ≠ [] ∧ least ≤ (pending ++ g).length then
      (pending ++ g) :: grouped least [] gs
    else grouped least (pending ++ g) gs

/-! ### Cutting -/

theorem lt_chunkCount_iff {k n c : Nat} (hk : 0 < k) : c < chunkCount k n ↔ c * k < n := by
  rw [chunkCount, Nat.lt_div_iff_mul_lt hk]
  omega

theorem chunk_map (f : α → β) (k : Nat) (xs : List α) (c : Nat) :
    chunk k (xs.map f) c = (chunk k xs c).map f := by
  simp only [chunk, List.map_drop, List.map_take]

theorem chunks_map (f : α → β) (k : Nat) (xs : List α) :
    chunks k (xs.map f) = (chunks k xs).map (List.map f) := by
  simp only [chunks, List.length_map, List.map_map]
  apply List.map_congr_left
  intro c _
  exact chunk_map f k xs c

/-- The first chunks together are the first entries. -/
private theorem flatten_take_chunks (k : Nat) (xs : List α) (m : Nat) :
    ((List.range m).map (chunk k xs)).flatten = xs.take (m * k) := by
  induction m with
  | zero => simp
  | succ m ih =>
    rw [List.range_succ, List.map_append, List.flatten_append, ih]
    simp only [List.map_cons, List.map_nil, List.flatten_cons, List.flatten_nil, List.append_nil]
    rw [chunk, Nat.succ_mul, List.take_add]

/-- Cutting loses nothing. -/
theorem flatten_chunks {k : Nat} (hk : 0 < k) (xs : List α) : (chunks k xs).flatten = xs := by
  rw [chunks, flatten_take_chunks]
  apply List.take_of_length_le
  have h : ¬ chunkCount k xs.length < chunkCount k xs.length := Nat.lt_irrefl _
  rw [lt_chunkCount_iff hk] at h
  omega

/-- Entries keep their positions in a chunk. -/
theorem zipIdx_chunk (k : Nat) (xs : List α) (c : Nat) :
    (chunk k xs c).zipIdx (c * k) = chunk k xs.zipIdx c := by
  apply List.ext_getElem?
  intro i
  simp only [chunk, List.getElem?_zipIdx, List.getElem?_take, List.getElem?_drop]
  split
  · cases xs[c * k + i]? <;> simp
  · rfl

/-- Where an entry of a chunk stands in the list. -/
theorem index_of_mem_chunk {k : Nat} {xs : List α} {c : Nat} {p : α × Nat}
    (h : p ∈ chunk k xs.zipIdx c) : p.2 / k = c ∧ xs[p.2]? = some p.1 ∧ p.2 = c * k + p.2 % k := by
  obtain ⟨i, hi⟩ := List.mem_iff_getElem?.1 h
  simp only [chunk, List.getElem?_take, List.getElem?_drop, List.getElem?_zipIdx] at hi
  split at hi
  case isFalse => cases hi
  case isTrue hlt =>
    obtain ⟨x, hx, rfl⟩ := Option.map_eq_some_iff.1 hi
    have hdiv : (0 + (c * k + i)) / k = c := by
      rw [Nat.zero_add, Nat.mul_comm, Nat.mul_add_div (by omega), Nat.div_eq_of_lt hlt, Nat.add_zero]
    have hmod : (0 + (c * k + i)) % k = i := by
      rw [Nat.zero_add, Nat.mul_comm, Nat.mul_add_mod, Nat.mod_eq_of_lt hlt]
    refine ⟨hdiv, by simpa using hx, ?_⟩
    show 0 + (c * k + i) = c * k + (0 + (c * k + i)) % k
    rw [hmod, Nat.zero_add]

theorem length_chunk_le (k : Nat) (xs : List α) (c : Nat) : (chunk k xs c).length ≤ k := by
  rw [chunk, List.length_take]
  omega

theorem length_le_of_mem_chunks {k : Nat} {xs c : List α} (h : c ∈ chunks k xs) : c.length ≤ k := by
  obtain ⟨i, _, rfl⟩ := List.mem_map.1 h
  exact length_chunk_le k xs i

theorem ne_nil_of_mem_chunks {k : Nat} (hk : 0 < k) {xs c : List α} (h : c ∈ chunks k xs) : c ≠ [] := by
  obtain ⟨i, hi, rfl⟩ := List.mem_map.1 h
  have hlt := (lt_chunkCount_iff hk).1 (List.mem_range.1 hi)
  apply List.ne_nil_of_length_pos
  rw [chunk, List.length_take, List.length_drop]
  omega

/-! ### Pieces -/

private theorem length_flatten_map_le {f g : α → List β} {xs : List α}
    (h : ∀ x ∈ xs, (f x).length ≤ (g x).length) : (xs.map f).flatten.length ≤ (xs.map g).flatten.length := by
  induction xs with
  | nil => simp
  | cons x xs ih =>
    have hx := h x List.mem_cons_self
    have hxs := ih fun y hy => h y (List.mem_cons_of_mem x hy)
    simp only [List.map_cons, List.flatten_cons, List.length_append]
    omega

/-- Pieces of which none is longer make the same list when and only when they are the same. -/
theorem flatten_map_eq_flatten_map_iff {f g : α → List β} {xs : List α}
    (h : ∀ x ∈ xs, (f x).length ≤ (g x).length) :
    (xs.map f).flatten = (xs.map g).flatten ↔ ∀ x ∈ xs, f x = g x := by
  induction xs with
  | nil => simp
  | cons x xs ih =>
    have hx := h x List.mem_cons_self
    have hrest : ∀ y ∈ xs, (f y).length ≤ (g y).length := fun y hy => h y (List.mem_cons_of_mem x hy)
    rw [List.forall_mem_cons, ← ih hrest]
    simp only [List.map_cons, List.flatten_cons]
    constructor
    · intro heq
      apply List.append_inj heq
      have hlength := congrArg List.length heq
      have hle := length_flatten_map_le hrest
      simp only [List.length_append] at hlength
      omega
    · rintro ⟨hhead, htail⟩
      rw [hhead, htail]

/-- Numbered entries that come in another order are put back by their numbers. -/
theorem mergeSort_eq_zipIdx {xs : List α} {ys : List (α × Nat)} (h : ys.Perm xs.zipIdx) :
    ys.mergeSort (fun a b => decide (a.2 ≤ b.2)) = xs.zipIdx := by
  refine @List.Perm.eq_of_pairwise _ (fun a b => a.2 ≤ b.2) _ _ ?_ ?_ ?_ ?_
  · intro a b ha hb hab hba
    have ha := List.mem_zipIdx_iff_getElem?.1 (h.mem_iff.1 (List.mem_mergeSort.1 ha))
    have hb := List.mem_zipIdx_iff_getElem?.1 hb
    have hnumber := Nat.le_antisymm hab hba
    rw [hnumber, hb] at ha
    exact Prod.ext (Option.some.inj ha).symm hnumber
  · exact List.pairwise_mergeSort' (Order.Preimage Prod.snd (· ≤ ·)) ys
  · rw [← List.pairwise_map (f := Prod.snd) (R := (· ≤ ·)), List.zipIdx_map_snd]
    exact List.pairwise_le_range'
  · exact (List.mergeSort_perm ys _).trans h

/-! ### Gathering -/

/-- Gathering loses nothing. -/
theorem flatten_grouped (least : Nat) (pending : List α) (gs : List (List α)) :
    (grouped least pending gs).flatten = pending ++ gs.flatten := by
  induction gs generalizing pending with
  | nil =>
    simp only [grouped]
    split
    · next h => simp [h]
    · simp
  | cons g gs ih =>
    simp only [grouped]
    split
    · rw [List.flatten_cons, ih, List.flatten_cons, List.nil_append, List.append_assoc]
    · rw [ih, List.flatten_cons, List.append_assoc]

theorem grouped_map (f : α → β) (least : Nat) (pending : List α) (gs : List (List α)) :
    grouped least (pending.map f) (gs.map (List.map f)) =
      (grouped least pending gs).map (List.map f) := by
  induction gs generalizing pending with
  | nil =>
    simp only [grouped, List.map_nil, List.map_eq_nil_iff]
    split <;> rfl
  | cons g gs ih =>
    simp only [grouped, List.map_cons, ← List.map_append, List.length_map, ne_eq,
      List.map_eq_nil_iff]
    split
    · rw [List.map_cons, ← ih, List.map_nil]
    · exact ih (pending ++ g)

end Hledac.Lib
