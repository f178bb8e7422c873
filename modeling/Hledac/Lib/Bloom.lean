import Mathlib.Data.Finset.Card
import Mathlib.Data.Finset.Union
import Mathlib.Data.Nat.Bitwise
import Hledac.Lib.Digest

/-!
# Bloom filters

An item stands at some positions of a filter. It is taken to be in the filter where all of them are set,
so that what was put in is found, and more may be. The positions are kept as a list of bytes, eight to a byte with
the lowest first.
-/

namespace Hledac.Lib

/-- The positions of items, at least one for each. -/
structure BloomShape (α : Type*) where
  positions : α → List Nat
  positions_ne_nil : ∀ a, positions a ≠ []

namespace BloomShape

variable {α : Type*} (shape : BloomShape α) {bits more : Finset Nat} {a b : α}

/-- Whether all positions of the item are set. -/
def mem (bits : Finset Nat) (a : α) : Bool := (shape.positions a).all fun i => decide (i ∈ bits)

/-- The positions of the item are set. -/
def put (bits : Finset Nat) (a : α) : Finset Nat := bits ∪ (shape.positions a).toFinset

variable {shape}

theorem mem_iff : shape.mem bits a = true ↔ ∀ i ∈ shape.positions a, i ∈ bits := by
  simp only [mem, List.all_eq_true, decide_eq_true_iff]

theorem mem_of_subset (hsub : bits ⊆ more) (h : shape.mem bits a = true) : shape.mem more a = true :=
  mem_iff.2 fun i hi => hsub (mem_iff.1 h i hi)

theorem mem_put_self : shape.mem (shape.put bits a) a = true :=
  mem_iff.2 fun _ hi => Finset.mem_union_right _ (List.mem_toFinset.2 hi)

theorem mem_put_of_mem (h : shape.mem bits a = true) : shape.mem (shape.put bits b) a = true :=
  mem_of_subset Finset.subset_union_left h

theorem mem_empty : shape.mem ∅ a = false := by
  rw [Bool.eq_false_iff]
  intro h
  obtain ⟨i, rest, hpositions⟩ := List.exists_cons_of_ne_nil (shape.positions_ne_nil a)
  exact Finset.notMem_empty i (mem_iff.1 h i (hpositions ▸ List.mem_cons_self))

end BloomShape

/-! ### Bit arrays -/

namespace BitArray

/-- The bit at a position. -/
def getBit (bytes : Bytes) (position : Nat) : Bool := (bytes.getD (position / 8) 0).toNat.testBit (position % 8)

/-- The byte with one more bit set. -/
def withBit (byte : UInt8) (bit : Nat) : UInt8 := UInt8.ofNat (byte.toNat ||| 1 <<< bit)

/-- The bit at a position set. -/
def setBit (bytes : Bytes) (position : Nat) : Bytes := bytes.modify (position / 8) (withBit · (position % 8))

/-- The positions that are set. -/
def bits (bytes : Bytes) : Finset Nat := (Finset.range (8 * bytes.length)).filter fun i => getBit bytes i = true

variable {bytes : Bytes} {p q : Nat}

@[simp] theorem length_setBit (bytes : Bytes) (p : Nat) : (setBit bytes p).length = bytes.length :=
  List.length_modify _ _ _

theorem toNat_withBit (byte : UInt8) {bit : Nat} (h : bit < 8) :
    (withBit byte bit).toNat = byte.toNat ||| 1 <<< bit := by
  have hone : 1 <<< bit < 2 ^ 8 := by
    rw [Nat.one_shiftLeft]
    exact Nat.pow_lt_pow_right (by omega) h
  have hor : byte.toNat ||| 1 <<< bit < 2 ^ 8 := Nat.or_lt_two_pow byte.toNat_lt hone
  rw [withBit, UInt8.toNat_ofNat_of_lt' hor]

theorem testBit_withBit (byte : UInt8) {bit i : Nat} (h : bit < 8) :
    (withBit byte bit).toNat.testBit i = (decide (i = bit) || byte.toNat.testBit i) := by
  rw [toNat_withBit byte h, Nat.testBit_or, Nat.one_shiftLeft, Nat.testBit_two_pow, Bool.or_comm]
  by_cases hi : i = bit
  · simp [hi]
  · simp [hi, Ne.symm hi]

/-- Setting a bit of the array sets that bit and no other. -/
theorem getBit_setBit (h : p / 8 < bytes.length) : getBit (setBit bytes p) q = (decide (q = p) || getBit bytes q) := by
  rw [getBit, setBit, getBit, List.getD_eq_getElem?_getD, List.getElem?_modify, List.getD_eq_getElem?_getD]
  by_cases hq : p / 8 = q / 8
  · simp only [if_pos hq]
    rw [← hq, List.getElem?_eq_getElem h]
    simp only [Option.map_eq_map, Option.map_some, Option.getD_some]
    rw [testBit_withBit _ (Nat.mod_lt _ (by omega))]
    have hiff : q % 8 = p % 8 ↔ q = p := by omega
    simp only [hiff]
  · have hne : q ≠ p := by
      intro heq
      rw [heq] at hq
      exact hq rfl
    simp [hq, hne]

theorem getBit_eq_false_of_le (h : 8 * bytes.length ≤ p) : getBit bytes p = false := by
  rw [getBit, List.getD_eq_default _ _ (by omega)]
  exact Nat.zero_testBit _

theorem mem_bits : p ∈ bits bytes ↔ getBit bytes p = true := by
  rw [bits, Finset.mem_filter, Finset.mem_range, and_iff_right_iff_imp]
  intro h
  by_contra hle
  rw [getBit_eq_false_of_le (by omega)] at h
  cases h

theorem bits_setBit (h : p < 8 * bytes.length) : bits (setBit bytes p) = bits bytes ∪ {p} := by
  ext q
  rw [mem_bits, getBit_setBit (by omega), Finset.mem_union, mem_bits, Finset.mem_singleton, Bool.or_eq_true,
    decide_eq_true_iff, or_comm]

/-- Setting the bits at some positions, one by one. -/
theorem bits_foldl_setBit {positions : List Nat} (h : ∀ p ∈ positions, p < 8 * bytes.length) :
    bits (positions.foldl setBit bytes) = bits bytes ∪ positions.toFinset := by
  induction positions generalizing bytes with
  | nil => simp
  | cons p rest ih =>
    rw [List.forall_mem_cons] at h
    rw [List.foldl_cons, ih (by rw [length_setBit]; exact h.2), bits_setBit h.1, List.toFinset_cons,
      Finset.union_assoc, Finset.insert_eq]

@[simp] theorem length_foldl_setBit (positions : List Nat) (bytes : Bytes) :
    (positions.foldl setBit bytes).length = bytes.length := by
  induction positions generalizing bytes with
  | nil => rfl
  | cons p rest ih => rw [List.foldl_cons, ih, length_setBit]

/-- A new array has no bit set. -/
theorem bits_replicate (n : Nat) : bits (List.replicate n 0) = ∅ := by
  ext p
  rw [mem_bits, getBit, List.getD_eq_getElem?_getD, List.getElem?_replicate]
  by_cases hp : p / 8 < n
  · simp [hp]
  · simp [hp]

theorem getBit_take {n : Nat} (h : p < 8 * n) : getBit (bytes.take n) p = getBit bytes p := by
  rw [getBit, getBit, List.getD_eq_getElem?_getD, List.getElem?_take_of_lt (by omega), List.getD_eq_getElem?_getD]

end BitArray

end Hledac.Lib
