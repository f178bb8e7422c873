import Mathlib.Data.List.Sort
import Mathlib.Data.Nat.Bitwise

/-!
# Nearest elements, and distances by exclusive or

What it means for a list to hold the `count` elements of a collection with the
least keys, and when sorting a part of the collection finds them. Exclusive or
as a distance: numbers that differ from a centre below one bit are nearer to
each other than to the numbers that differ from it at that bit or above.
-/

namespace Hledac.Lib

section Nearest

variable {α : Type*} (key : α → Nat)

/-- `result` holds `count` elements of `all`, or all of them, and none left out has a smaller key. -/
structure IsNearest (all : List α) (count : Nat) (result : List α) : Prop where
  nodup : result.Nodup
  mem : ∀ q ∈ result, q ∈ all
  length : result.length = min count all.length
  nearest : ∀ p ∈ all, p ∉ result → ∀ q ∈ result, key q ≤ key p

/-- The first `count` elements of a part by ascending key; equal keys keep their order. -/
def leastOf (part : List α) (count : Nat) : List α :=
  (part.insertionSort fun p q => key p ≤ key q).take count

variable {key} {all part : List α} {count : Nat}

theorem mem_of_mem_leastOf {q : α} (h : q ∈ leastOf key part count) : q ∈ part :=
  (List.mem_insertionSort _).1 (List.mem_of_mem_take h)

theorem length_leastOf : (leastOf key part count).length = min count part.length := by
  rw [leastOf, List.length_take, List.length_insertionSort]

theorem nodup_leastOf (h : part.Nodup) : (leastOf key part count).Nodup :=
  ((List.perm_insertionSort _ part).nodup_iff.2 h).sublist (List.take_sublist count _)

private theorem pairwise_insertionSort_key (key : α → Nat) (l : List α) :
    (l.insertionSort fun p q => key p ≤ key q).Pairwise fun p q => key p ≤ key q :=
  haveI : Std.Total fun p q : α => key p ≤ key q := ⟨fun p q => Nat.le_total (key p) (key q)⟩
  haveI : IsTrans α fun p q : α => key p ≤ key q := ⟨fun _ _ _ => Nat.le_trans⟩
  List.pairwise_insertionSort _ l

theorem le_of_mem_leastOf {p q : α} (hq : q ∈ leastOf key part count)
    (hp : p ∈ (part.insertionSort fun p q => key p ≤ key q).drop count) : key q ≤ key p := by
  have hsorted := pairwise_insertionSort_key key part
  rw [← List.take_append_drop count (part.insertionSort _), List.pairwise_append] at hsorted
  exact hsorted.2.2 q hq p hp

/-- An element with a larger key is not among the first `count` when `count` elements come before. -/
theorem key_le_of_count_le {k : Nat} (h : count ≤ (part.filter fun q => key q ≤ k).length) {q : α}
    (hq : q ∈ leastOf key part count) : key q ≤ k := by
  by_contra hk
  set sorted := part.insertionSort fun p q => key p ≤ key q
  have hperm : (sorted.filter fun q => key q ≤ k).length = (part.filter fun q => key q ≤ k).length :=
    ((List.perm_insertionSort _ part).filter _).length_eq
  have hdrop : (sorted.drop count).filter (fun q => key q ≤ k) = [] := by
    apply List.filter_eq_nil_iff.2
    intro p hp
    have := le_of_mem_leastOf hq hp
    simp only [decide_eq_true_eq]
    omega
  have htake : ((sorted.take count).filter fun q => key q ≤ k).length < (sorted.take count).length :=
    List.length_filter_lt_length_iff_exists.2 ⟨q, hq, by simpa using hk⟩
  have hcut := congrArg List.length
    (congrArg (List.filter fun q => key q ≤ k) (List.take_append_drop count sorted))
  rw [List.filter_append, hdrop, List.append_nil, hperm] at hcut
  have hle := List.length_take_le count sorted
  omega

/-- Sorting a part finds the nearest of all elements exactly when for every element outside of the
part there are already `count` elements in the part that are no farther. -/
theorem isNearest_leastOf_iff (hall : all.Nodup) (hpart : part.Nodup) (hsub : part ⊆ all) :
    IsNearest key all count (leastOf key part count) ↔
      ∀ p ∈ all, p ∉ part → count ≤ (part.filter fun q => key q ≤ key p).length := by
  have hle : part.length ≤ all.length := (List.subperm_of_subset hpart hsub).length_le
  constructor
  · intro h p hp hpart'
    have hout : p ∉ leastOf key part count := fun hmem => hpart' (mem_of_mem_leastOf hmem)
    -- every element found counts, so there are fewer than `count` only if nothing is outside
    have hfound : (leastOf key part count).length ≤ (part.filter fun q => key q ≤ key p).length := by
      apply (List.subperm_of_subset (nodup_leastOf hpart) ?_).length_le
      intro q hq
      exact List.mem_filter.2 ⟨mem_of_mem_leastOf hq, by simpa using h.nearest p hp hout q hq⟩
    have hlength := h.length
    have hlt : part.length < all.length := by
      apply Nat.lt_of_le_of_ne hle
      intro heq
      exact hpart' (((List.subperm_of_subset hpart hsub).perm_of_length_le heq.ge).mem_iff.2 hp)
    rw [length_leastOf] at hlength hfound
    omega
  · intro h
    refine ⟨nodup_leastOf hpart, fun q hq => hsub (mem_of_mem_leastOf hq), ?_, ?_⟩
    · rw [length_leastOf]
      by_cases hcover : ∀ p ∈ all, p ∈ part
      · have := (List.subperm_of_subset hall hcover).length_le
        omega
      · push Not at hcover
        obtain ⟨p, hp, hpart'⟩ := hcover
        have := h p hp hpart'
        have := List.length_filter_le (fun q => decide (key q ≤ key p)) part
        omega
    · intro p hp hout q hq
      by_cases hpart' : p ∈ part
      · apply le_of_mem_leastOf hq
        have hmem := (List.mem_insertionSort fun p q => key p ≤ key q).2 hpart'
        rw [← List.take_append_drop count (part.insertionSort _), List.mem_append] at hmem
        exact hmem.resolve_left hout
      · exact key_le_of_count_le (h p hp hpart') hq

end Nearest

section Xor

/-- The highest bit at which two numbers differ, zero for equal ones. -/
def highBit (a b : Nat) : Nat := Nat.log2 (a ^^^ b)

variable {a b c : Nat}

theorem xor_lt_of_highBit {i : Nat} (h : highBit a c < i) : a ^^^ c < 2 ^ i := by
  apply Nat.lt_of_lt_of_le (Nat.lt_log2_self (n := a ^^^ c))
  exact Nat.pow_le_pow_right (by omega) h

theorem le_xor_of_highBit {i : Nat} (hi : 0 < i) (h : i ≤ highBit a c) : 2 ^ i ≤ a ^^^ c := by
  have hne : a ^^^ c ≠ 0 := by
    intro h0
    rw [highBit, h0, Nat.log2_zero] at h
    omega
  exact (Nat.le_log2 hne).1 h

theorem xor_xor_middle : (a ^^^ c) ^^^ (c ^^^ b) = a ^^^ b := by
  rw [Nat.xor_assoc, ← Nat.xor_assoc c c b, Nat.xor_self, Nat.zero_xor]

/-- Numbers that agree with the centre above a bit are nearer to each other than to any number that
differs from the centre at this bit or above. -/
theorem xor_lt_xor_of_highBit {near far i : Nat} (hi : 0 < i) (hb : highBit b c < i)
    (hnear : highBit near c < i) (hfar : i ≤ highBit far c) : near ^^^ b < far ^^^ b := by
  have hb' : c ^^^ b < 2 ^ i := Nat.xor_comm b c ▸ xor_lt_of_highBit hb
  have hlow : near ^^^ b < 2 ^ i := by
    rw [← xor_xor_middle (c := c)]
    exact Nat.xor_lt_two_pow (xor_lt_of_highBit hnear) hb'
  apply Nat.lt_of_lt_of_le hlow
  by_contra hhigh
  have : far ^^^ c < 2 ^ i := by
    rw [← xor_xor_middle (c := b), Nat.xor_comm b c]
    exact Nat.xor_lt_two_pow (by omega) hb'
  have := le_xor_of_highBit hi hfar
  omega

end Xor

end Hledac.Lib
