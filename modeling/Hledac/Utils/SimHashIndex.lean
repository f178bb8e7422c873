import Mathlib.Algebra.Order.Ring.Nat
import Mathlib.Data.LawfulXor.Basic
import Mathlib.Data.Nat.BitIndices
import Hledac.Lib.Dict
import Hledac.Lib.Machine

/-!
# The bucket index of SimHash fingerprints

`TopKBucketIndex` keeps fingerprints in buckets by their leading bits, and compares a new one with the bucket of its own
leading bits and with those that differ from it in one bit. The distance comes from the Rust extension where it is
installed, which takes numbers of 64 bits only; the fallback in Python takes any.
-/

namespace Hledac.Utils

open Hledac.Lib

/-- `int.bit_count()`. -/
def bitCount (n : Nat) : Nat := n.bitIndices.length

/-- What the distance is computed with. -/
inductive HammingBackend where
  | rust
  | python
  deriving DecidableEq

/-- `hamming_dist` of the extension, `rust_extensions/src/simhash_ext.rs:242-244`, or the fallback; `none` where a
number does not fit into 64 bits, which raises `OverflowError`. -/
def hammingDist (backend : HammingBackend) (fp₁ fp₂ : Nat) : Option Nat :=
  if backend = .rust ∧ ¬ (fp₁ < 2 ^ 64 ∧ fp₂ < 2 ^ 64) then none else some (bitCount (fp₁ ^^^ fp₂))

/-- `TopKBucketIndex`; `utils/deduplication.py:1464-1489`. The second component of an entry is never read. -/
structure TopKBucketIndex where
  hashbits : Nat
  topKBits : Nat
  threshold : Int
  buckets : Dict Nat (List Nat) := .empty
  total : Nat := 0

namespace TopKBucketIndex

/-- `_bucket_key`; `deduplication.py:1491-1493`. -/
def bucketKey (t : TopKBucketIndex) (fp : Nat) : Nat := fp >>> (t.hashbits - t.topKBits)

/-- `_neighbor_buckets`; `deduplication.py:1502-1514`. -/
def neighborBuckets (t : TopKBucketIndex) (bucket : Nat) : List Nat :=
  bucket :: (List.range t.topKBits).filterMap fun pos =>
    if bucket ^^^ (1 <<< pos) ≠ bucket then some (bucket ^^^ (1 <<< pos)) else none

/-- The fingerprints in the order in which they are compared. -/
def candidates (t : TopKBucketIndex) (fp : Nat) : List Nat :=
  (t.neighborBuckets (t.bucketKey fp)).flatMap fun nkey => (t.buckets.get? nkey).getD []

/-- The two loops of `add`, which end at the first fingerprint that is near. -/
def scan (backend : HammingBackend) (threshold : Int) (fp : Nat) : List Nat → Option Bool
  | [] => some false
  | stored :: rest =>
    (hammingDist backend fp stored).bind fun d => if d ≤ threshold then some true else scan backend threshold fp rest

/-- The fingerprint put into its bucket; `deduplication.py:1531-1532`. -/
def store (t : TopKBucketIndex) (fp : Nat) : TopKBucketIndex :=
  { t with
    buckets := t.buckets.insert (t.bucketKey fp) ((t.buckets.get? (t.bucketKey fp)).getD [] ++ [fp])
    total := t.total + 1 }

/-- `add`; `deduplication.py:1516-1533`. -/
def add (backend : HammingBackend) (t : TopKBucketIndex) (fp : Nat) : Option (Bool × TopKBucketIndex) :=
  (scan backend t.threshold fp (t.candidates fp)).map fun found => if found then (true, t) else (false, t.store fp)

/-- `clear`; `deduplication.py:1538-1540`. -/
def clear (t : TopKBucketIndex) : TopKBucketIndex := { t with buckets := .empty, total := 0 }

/-! ### Runs -/

/-- The calls of the index. -/
inductive Call where
  | add (fp : Nat)
  | clear
  deriving DecidableEq

/-- The index beside the fingerprints that were stored, each when `add` answered that it is new. -/
structure Observed where
  index : TopKBucketIndex
  stored : List Nat := []

namespace Observed

def step (backend : HammingBackend) (o : Observed) : Call → Observed
  | .add fp =>
    match o.index.add backend fp with
    | some (true, t) => ⟨t, o.stored⟩
    | some (false, t) => ⟨t, o.stored ++ [fp]⟩
    | none => o
  | .clear => ⟨o.index.clear, []⟩

/-- An empty index. -/
def start (hashbits topKBits : Nat) (threshold : Int) : Observed where
  index := { hashbits := hashbits, topKBits := topKBits, threshold := threshold }

end Observed

/-- Some stored fingerprint is near, and differs in at most one of the leading bits. -/
def Recalls (o : Observed) (fp : Nat) : Prop :=
  ∃ x ∈ o.stored, (bitCount (fp ^^^ x) : Int) ≤ o.index.threshold ∧
    bitCount (o.index.bucketKey fp ^^^ o.index.bucketKey x) ≤ 1

/-- Some stored fingerprint is near. -/
def FullScan (o : Observed) (fp : Nat) : Prop := ∃ x ∈ o.stored, (bitCount (fp ^^^ x) : Int) ≤ o.index.threshold

/-- The call answers what the design says. -/
structure Answers (o : Observed) (fp : Nat) (found : Bool) (t : TopKBucketIndex) : Prop where
  recalls : found = true ↔ Recalls o fp
  fullScan : o.index.threshold ≤ 1 → (found = true ↔ FullScan o fp)
  near : found = true → FullScan o fp
  counts : t.total = if found then o.stored.length else o.stored.length + 1

/-- The call returns, and with the right answer. -/
def AsDesigned (backend : HammingBackend) (o : Observed) : Call → Prop
  | .add fp => ∃ found t, o.index.add backend fp = some (found, t) ∧ Answers o fp found t
  | .clear => o.index.clear.total = 0

/-- What is compared: the candidates up to the first that is near. -/
def compared (threshold : Int) (fp : Nat) : List Nat → List Nat
  | [] => []
  | x :: rest => if (bitCount (fp ^^^ x) : Int) ≤ threshold then [x] else x :: compared threshold fp rest

/-- The extension compares numbers of 64 bits only. -/
def ComparesWords (backend : HammingBackend) (o : Observed) : Call → Prop
  | .add fp => backend = .python ∨ ∀ x ∈ compared o.index.threshold fp (o.index.candidates fp), fp < 2 ^ 64 ∧ x < 2 ^ 64
  | .clear => True

/-! ### Bits -/

section Bits

variable {a b n k : Nat}

theorem bitCount_le_one_iff : bitCount n ≤ 1 ↔ n = 0 ∨ ∃ i, n = 2 ^ i := by
  have hsum := Nat.sum_map_two_pow_bitIndices n
  constructor
  · intro h
    rw [bitCount] at h
    cases hbits : n.bitIndices with
    | nil =>
      rw [hbits] at hsum
      exact .inl hsum.symm
    | cons i rest =>
      rw [hbits, List.length_cons] at h
      have hrest : rest = [] := List.length_eq_zero_iff.1 (by omega)
      rw [hbits, hrest] at hsum
      exact .inr ⟨i, by simpa using hsum.symm⟩
  · intro h
    cases h with
    | inl h => simp [h, bitCount]
    | inr h =>
      cases h with
      | intro i h => simp [h, bitCount]

theorem bitCount_shiftRight_le (h : bitCount (a ^^^ b) ≤ 1) (s : Nat) : bitCount (a >>> s ^^^ b >>> s) ≤ 1 := by
  rw [← Nat.shiftRight_xor_distrib, bitCount_le_one_iff]
  rw [bitCount_le_one_iff] at h
  cases h with
  | inl h => exact .inl (by rw [h, Nat.zero_shiftRight])
  | inr h =>
    cases h with
    | intro i h =>
      rw [h, Nat.shiftRight_eq_div_pow]
      by_cases hs : s ≤ i
      · exact .inr ⟨i - s, Nat.pow_div hs two_pos⟩
      · exact .inl (Nat.div_eq_of_lt (Nat.pow_lt_pow_right one_lt_two (Nat.lt_of_not_le hs)))

theorem mem_neighborBuckets {t : TopKBucketIndex} (ha : a < 2 ^ t.topKBits) (hb : b < 2 ^ t.topKBits) :
    b ∈ t.neighborBuckets a ↔ bitCount (a ^^^ b) ≤ 1 := by
  rw [neighborBuckets, List.mem_cons, List.mem_filterMap, bitCount_le_one_iff]
  constructor
  · intro h
    cases h with
    | inl h => exact .inl (by rw [h, Nat.xor_self])
    | inr h =>
      obtain ⟨pos, -, hpos⟩ := h
      split at hpos
      · rw [← Option.some.inj hpos, ← Nat.xor_assoc, Nat.xor_self, Nat.zero_xor, Nat.one_shiftLeft]
        exact .inr ⟨pos, rfl⟩
      · cases hpos
  · intro h
    cases h with
    | inl h => exact .inl (xor_eq_zero_iff.1 h).symm
    | inr h =>
      obtain ⟨i, hi⟩ := h
      have hlt : 2 ^ i < 2 ^ t.topKBits := hi ▸ Nat.xor_lt_two_pow ha hb
      have hflip : a ^^^ (1 <<< i) = b := by
        rw [Nat.one_shiftLeft, ← hi, ← Nat.xor_assoc, Nat.xor_self, Nat.zero_xor]
      refine .inr ⟨i, List.mem_range.2 ((Nat.pow_lt_pow_iff_right one_lt_two).1 hlt), ?_⟩
      rw [hflip, if_pos]
      intro hsame
      rw [hsame, Nat.xor_self] at hi
      exact absurd hi.symm (Nat.two_pow_pos i).ne'

end Bits

/-! ### The scan -/

section Scan

variable {backend : HammingBackend} {threshold : Int} {fp : Nat} {xs : List Nat}

theorem scan_eq (h : backend = .python ∨ ∀ x ∈ compared threshold fp xs, fp < 2 ^ 64 ∧ x < 2 ^ 64) :
    scan backend threshold fp xs = some (decide (∃ x ∈ xs, (bitCount (fp ^^^ x) : Int) ≤ threshold)) := by
  induction xs with
  | nil => simp [scan]
  | cons x rest ih =>
    have hfirst : hammingDist backend fp x = some (bitCount (fp ^^^ x)) := by
      rw [hammingDist, if_neg]
      intro hc
      cases h with
      | inl h => exact absurd (hc.1.symm.trans h) (by decide)
      | inr h =>
        apply hc.2
        apply h
        rw [compared]
        split
        · exact List.mem_singleton_self x
        · exact List.mem_cons_self
    rw [scan, hfirst, Option.bind_some]
    by_cases hnear : (bitCount (fp ^^^ x) : Int) ≤ threshold
    · simp [hnear]
    · rw [if_neg hnear, ih]
      · simp [hnear]
      · apply h.imp_right
        intro hwords y hy
        apply hwords
        rw [compared, if_neg hnear]
        exact List.mem_cons_of_mem x hy

theorem comparesWords_of_scan {found : Bool} (h : scan backend threshold fp xs = some found) :
    backend = .python ∨ ∀ x ∈ compared threshold fp xs, fp < 2 ^ 64 ∧ x < 2 ^ 64 := by
  cases backend with
  | python => exact .inl rfl
  | rust =>
    right
    induction xs with
    | nil => simp [compared]
    | cons x rest ih =>
      rw [scan, hammingDist] at h
      split at h
      · cases h
      · next hwords =>
        have hx : fp < 2 ^ 64 ∧ x < 2 ^ 64 := by
          by_contra hnot
          exact hwords ⟨rfl, hnot⟩
        rw [Option.bind_some] at h
        rw [compared]
        split at h
        · next hnear =>
          rw [if_pos hnear]
          intro y hy
          rwa [List.mem_singleton.1 hy]
        · next hnear =>
          rw [if_neg hnear]
          exact List.forall_mem_cons.2 ⟨hx, ih h⟩

end Scan

/-! ### Every run -/

/-- The fingerprints stored are those in the buckets, each in its own, and they are counted. -/
structure Observed.Sound (hashbits topKBits : Nat) (o : Observed) : Prop where
  width : o.index.hashbits = hashbits
  leading : o.index.topKBits = topKBits
  bucket : ∀ key x, x ∈ (o.index.buckets.get? key).getD [] ↔ x ∈ o.stored ∧ o.index.bucketKey x = key
  below : ∀ x ∈ o.stored, x < 2 ^ hashbits
  counted : o.index.total = o.stored.length

namespace Observed

variable {hashbits topKBits : Nat} {backend : HammingBackend} {o : Observed} {fp : Nat}

theorem Sound.start (hashbits topKBits : Nat) (threshold : Int) :
    (start hashbits topKBits threshold).Sound hashbits topKBits where
  width := rfl
  leading := rfl
  bucket key x := by simp [Observed.start]
  below x hx := by cases hx
  counted := rfl

theorem Sound.store (h : o.Sound hashbits topKBits) (hfp : fp < 2 ^ hashbits) :
    Sound hashbits topKBits ⟨o.index.store fp, o.stored ++ [fp]⟩ where
  width := h.width
  leading := h.leading
  bucket key x := by
    show x ∈ ((o.index.buckets.insert _ _).get? key).getD [] ↔ _ ∧ o.index.bucketKey x = key
    rw [Dict.get?_insert, List.mem_append, List.mem_singleton]
    by_cases hkey : o.index.bucketKey fp = key
    · rw [if_pos hkey, Option.getD_some, List.mem_append, List.mem_singleton, h.bucket, hkey]
      constructor
      · intro hx
        cases hx with
        | inl hx => exact ⟨.inl hx.1, hx.2⟩
        | inr hx => exact ⟨.inr hx, hx ▸ hkey⟩
      · intro hx
        exact hx.1.imp_left fun hmem => ⟨hmem, hx.2⟩
    · rw [if_neg hkey, h.bucket]
      constructor
      · intro hx
        exact ⟨.inl hx.1, hx.2⟩
      · intro hx
        exact ⟨hx.1.resolve_right fun hc => hkey (hc ▸ hx.2), hx.2⟩
  below x hx := by
    rw [List.mem_append, List.mem_singleton] at hx
    cases hx with
    | inl hx => exact h.below x hx
    | inr hx => exact hx ▸ hfp
  counted := by
    rw [List.length_append, ← h.counted]
    rfl

theorem Sound.step (h : o.Sound hashbits topKBits) (c : Call) (hc : ∀ fp, c = .add fp → fp < 2 ^ hashbits) :
    (o.step backend c).Sound hashbits topKBits := by
  cases c with
  | add fp =>
    simp only [Observed.step, add]
    cases scan backend o.index.threshold fp (o.index.candidates fp) with
    | none => exact h
    | some found =>
      cases found with
      | true => exact h
      | false => exact h.store (hc fp rfl)
  | clear => exact ⟨h.width, h.leading, fun key x => by simp [Observed.step, clear], fun x hx => (by cases hx), rfl⟩

theorem Sound.bucketKey_lt (h : o.Sound hashbits topKBits) (hk : topKBits ≤ hashbits) {x : Nat}
    (hx : x < 2 ^ hashbits) : o.index.bucketKey x < 2 ^ o.index.topKBits := by
  rw [bucketKey, h.width, h.leading, Nat.shiftRight_eq_div_pow]
  apply Nat.div_lt_of_lt_mul
  rwa [← pow_add, Nat.sub_add_cancel hk]

theorem Sound.mem_candidates (h : o.Sound hashbits topKBits) (hk : topKBits ≤ hashbits) (hfp : fp < 2 ^ hashbits)
    {x : Nat} : x ∈ o.index.candidates fp ↔
      x ∈ o.stored ∧ bitCount (o.index.bucketKey fp ^^^ o.index.bucketKey x) ≤ 1 := by
  rw [candidates, List.mem_flatMap]
  constructor
  · intro hx
    obtain ⟨key, hkey, hx⟩ := hx
    rw [h.bucket] at hx
    refine ⟨hx.1, ?_⟩
    rw [← mem_neighborBuckets (h.bucketKey_lt hk hfp) (h.bucketKey_lt hk (h.below x hx.1)), hx.2]
    exact hkey
  · intro hx
    refine ⟨o.index.bucketKey x, ?_, (h.bucket _ _).2 ⟨hx.1, rfl⟩⟩
    exact (mem_neighborBuckets (h.bucketKey_lt hk hfp) (h.bucketKey_lt hk (h.below x hx.1))).2 hx.2

theorem Sound.answers (h : o.Sound hashbits topKBits) (hk : topKBits ≤ hashbits) (hfp : fp < 2 ^ hashbits) {found : Bool}
    (hfound : found = decide (∃ x ∈ o.index.candidates fp, (bitCount (fp ^^^ x) : Int) ≤ o.index.threshold)) :
    Answers o fp found (if found then o.index else o.index.store fp) := by
  have hrecalls : found = true ↔ Recalls o fp := by
    rw [hfound, decide_eq_true_iff, Recalls]
    apply exists_congr
    intro x
    rw [h.mem_candidates hk hfp]
    tauto
  have hnear : Recalls o fp → FullScan o fp := by
    rintro ⟨x, hx, hle, -⟩
    exact ⟨x, hx, hle⟩
  refine ⟨hrecalls, ?_, fun hf => hnear (hrecalls.1 hf), ?_⟩
  · intro hone
    rw [hrecalls]
    refine ⟨hnear, ?_⟩
    rintro ⟨x, hx, hle⟩
    exact ⟨x, hx, hle, bitCount_shiftRight_le (by omega) _⟩
  · cases found with
    | true => exact h.counted
    | false => exact congrArg (· + 1) h.counted

theorem Sound.designed_iff (h : o.Sound hashbits topKBits) (hk : topKBits ≤ hashbits) (c : Call)
    (hc : ∀ fp, c = .add fp → fp < 2 ^ hashbits) : AsDesigned backend o c ↔ ComparesWords backend o c := by
  cases c with
  | clear => exact iff_of_true rfl trivial
  | add fp =>
    rw [AsDesigned, ComparesWords, add]
    constructor
    · rintro ⟨found, t, hadd, -⟩
      obtain ⟨found, hscan, -⟩ := Option.map_eq_some_iff.1 hadd
      exact comparesWords_of_scan hscan
    · intro hwords
      rw [scan_eq hwords, Option.map_some]
      generalize hfound : decide (∃ x ∈ o.index.candidates fp, (bitCount (fp ^^^ x) : Int) ≤ o.index.threshold) = found
      have hanswers := h.answers hk (hc fp rfl) hfound.symm
      cases found with
      | true => exact ⟨_, _, rfl, hanswers⟩
      | false => exact ⟨_, _, rfl, hanswers⟩

theorem Sound.run (backend : HammingBackend) {calls : List Call} (hcalls : ∀ fp, Call.add fp ∈ calls → fp < 2 ^ hashbits)
    (h : o.Sound hashbits topKBits) : (calls.foldl (Observed.step backend) o).Sound hashbits topKBits := by
  induction calls generalizing o with
  | nil => exact h
  | cons c rest ih =>
    apply ih fun fp hfp => hcalls fp (List.mem_cons_of_mem c hfp)
    exact h.step c fun fp hc => hcalls fp (hc ▸ List.mem_cons_self)

end Observed

instance (backend : HammingBackend) (o : Observed) : ∀ c, Decidable (ComparesWords backend o c)
  | .add fp => inferInstanceAs (Decidable (backend = .python ∨
      ∀ x ∈ compared o.index.threshold fp (o.index.candidates fp), fp < 2 ^ 64 ∧ x < 2 ^ 64))
  | .clear => inferInstanceAs (Decidable True)

end TopKBucketIndex

end Hledac.Utils
