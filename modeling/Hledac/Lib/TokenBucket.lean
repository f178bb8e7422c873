import Mathlib.Tactic.Linarith
import Mathlib.Tactic.Positivity

/-!
# Token buckets

A bucket of at most `capacity` tokens that fills at `rate` tokens in a unit of time. `Fits` counts
the tokens that have been taken in a window of time; where every token is there when it is taken,
there are at most `capacity + rate * length` of them.
-/

namespace Hledac.Lib

universe u

/-- The tokens at the time of the last refill. -/
structure TokenBucket (α : Type u) where
  tokens : α
  lastRefill : α
  deriving DecidableEq, Repr

namespace TokenBucket

variable {α : Type u} [Field α] [LinearOrder α]

/-- The tokens that have come since the last refill. -/
def refill (rate capacity now : α) (b : TokenBucket α) : TokenBucket α where
  tokens := min capacity (b.tokens + (now - b.lastRefill) * rate)
  lastRefill := now

/-- One token is taken. -/
def take (b : TokenBucket α) : TokenBucket α := { b with tokens := b.tokens - 1 }

/-- The rest of a token is given up. -/
def drain (b : TokenBucket α) : TokenBucket α := { b with tokens := 0 }

/-- The time lies in the window of the length from `start` on. -/
def InWindow (start length time : α) : Prop := start ≤ time ∧ time ≤ start + length

instance (start length time : α) : Decidable (InWindow start length time) :=
  inferInstanceAs (Decidable (_ ∧ _))

/-- The `n` tokens that have been taken in the window, and those that are left, fit into what the
bucket can have held and got since the window began. -/
structure Fits (rate capacity start length : α) (n : Nat) (b : TokenBucket α) : Prop where
  nonneg : 0 ≤ b.tokens
  le_capacity : b.tokens ≤ capacity
  before : b.lastRefill < start → n = 0
  within : b.lastRefill ≤ start + length →
    n + b.tokens ≤ capacity + rate * max 0 (b.lastRefill - start)
  total : n ≤ capacity + rate * length

variable [IsStrictOrderedRing α] {rate capacity start length : α} {n : Nat} {b : TokenBucket α}

/-- A full bucket. -/
theorem fits_full (hrate : 0 ≤ rate) (hcapacity : 0 ≤ capacity) (hlength : 0 ≤ length) (now : α) :
    Fits rate capacity start length 0 ⟨capacity, now⟩ where
  nonneg := hcapacity
  le_capacity := le_refl _
  before _ := rfl
  within _ := by
    have hmore : 0 ≤ rate * max 0 (now - start) := mul_nonneg hrate (le_max_left _ _)
    rw [Nat.cast_zero, zero_add]
    linarith
  total := by
    have hmore : 0 ≤ rate * length := mul_nonneg hrate hlength
    rw [Nat.cast_zero]
    linarith

/-- Refilling keeps within the rate. -/
theorem Fits.refill (h : Fits rate capacity start length n b) (hrate : 0 ≤ rate) {now : α}
    (hnow : b.lastRefill ≤ now) : Fits rate capacity start length n (b.refill rate capacity now) where
  nonneg := by
    have hgain : 0 ≤ (now - b.lastRefill) * rate := mul_nonneg (sub_nonneg.2 hnow) hrate
    exact le_min (h.nonneg.trans h.le_capacity) (add_nonneg h.nonneg hgain)
  le_capacity := min_le_left _ _
  before hbefore := h.before (lt_of_le_of_lt hnow hbefore)
  within hwithin := by
    have hcapped : (b.refill rate capacity now).tokens ≤ capacity := min_le_left _ _
    by_cases hbefore : b.lastRefill < start
    · -- nothing has been taken yet
      have hmore : 0 ≤ rate * max 0 (now - start) := mul_nonneg hrate (le_max_left _ _)
      rw [h.before hbefore, Nat.cast_zero, zero_add]
      show (b.refill rate capacity now).tokens ≤ capacity + rate * max 0 (now - start)
      linarith
    · have hstart : start ≤ b.lastRefill := not_lt.1 hbefore
      have hthen := h.within (hnow.trans hwithin)
      have hgained : (b.refill rate capacity now).tokens ≤ b.tokens + (now - b.lastRefill) * rate :=
        min_le_right _ _
      rw [max_eq_right (sub_nonneg.2 hstart)] at hthen
      show n + (b.refill rate capacity now).tokens ≤ capacity + rate * max 0 (now - start)
      rw [max_eq_right (sub_nonneg.2 (hstart.trans hnow))]
      linarith
  total := h.total

/-- A token that is there is taken at the time of the last refill. -/
theorem Fits.take (h : Fits rate capacity start length n b) (hrate : 0 ≤ rate) (htoken : 1 ≤ b.tokens) :
    Fits rate capacity start length (n + if InWindow start length b.lastRefill then 1 else 0) b.take := by
  have hleft : b.take.tokens = b.tokens - 1 := rfl
  constructor
  · rw [hleft]
    linarith
  · rw [hleft]
    linarith [h.le_capacity]
  · intro hbefore
    rw [if_neg fun hc => absurd hc.1 (not_le.2 hbefore), Nat.add_zero]
    exact h.before hbefore
  · intro hwithin
    have hthen := h.within hwithin
    rw [hleft]
    show _ ≤ capacity + rate * max 0 (b.lastRefill - start)
    split
    · rw [Nat.cast_add, Nat.cast_one]
      linarith
    · rw [Nat.add_zero]
      linarith
  · split
    · next hwindow =>
      have hthen := h.within hwindow.2
      have hspan : rate * (b.lastRefill - start) ≤ rate * length :=
        mul_le_mul_of_nonneg_left (by linarith [hwindow.2]) hrate
      rw [max_eq_right (sub_nonneg.2 hwindow.1)] at hthen
      rw [Nat.cast_add, Nat.cast_one]
      linarith
    · exact h.total

/-- What is given up is not taken. -/
theorem Fits.drain (h : Fits rate capacity start length n b) : Fits rate capacity start length n b.drain where
  nonneg := le_refl _
  le_capacity := h.nonneg.trans h.le_capacity
  before := h.before
  within hwithin := by
    have hthen := h.within hwithin
    have hless : (n : α) + b.drain.tokens ≤ n + b.tokens := add_le_add_right h.nonneg _
    exact hless.trans hthen
  total := h.total

end TokenBucket

end Hledac.Lib
