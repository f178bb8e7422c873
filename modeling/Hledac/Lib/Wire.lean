import Mathlib.Algebra.GroupWithZero.Nat
import Hledac.Lib.Digest

/-!
# Binary formats

Little-endian numbers of a fixed width, and readers that take values off the front of a byte string. A reader that looks
at no more than it takes is steady: bytes that are added behind change nothing, so it fails on every proper start of a
text that it reads to the end.
-/

namespace Hledac.Lib.Wire

/-! ### Numbers -/

/-- The low bytes of a number, the lowest first. -/
def putLe : Nat → Nat → Bytes
  | 0, _ => []
  | width + 1, n => UInt8.ofNat n :: putLe width (n / 256)

/-- The number that the bytes stand for, the lowest first. -/
def getLe : Bytes → Nat
  | [] => 0
  | x :: rest => x.toNat + 256 * getLe rest

@[simp] theorem length_putLe (width n : Nat) : (putLe width n).length = width := by
  induction width generalizing n with
  | zero => rfl
  | succ width ih => rw [putLe, List.length_cons, ih]

theorem getLe_putLe {width n : Nat} (h : n < 256 ^ width) : getLe (putLe width n) = n := by
  induction width generalizing n with
  | zero =>
    rw [Nat.pow_zero, Nat.lt_one_iff] at h
    rw [h]
    rfl
  | succ width ih =>
    rw [Nat.pow_succ] at h
    have hbyte : (UInt8.ofNat n).toNat = n % 256 := rfl
    rw [putLe, getLe, ih (Nat.div_lt_of_lt_mul (by omega)), hbyte]
    exact Nat.mod_add_div n 256

/-- A number in two's complement. -/
def putInt (width : Nat) (n : Int) : Bytes := putLe width (n % (256 ^ width : Nat)).toNat

/-- The number that the bytes stand for in two's complement. -/
def getInt (data : Bytes) : Int :=
  if 2 * getLe data < 256 ^ data.length then getLe data else (getLe data : Int) - (256 ^ data.length : Nat)

@[simp] theorem length_putInt (width : Nat) (n : Int) : (putInt width n).length = width := length_putLe _ _

theorem getInt_putInt {width : Nat} {n : Int} (hlow : -(256 ^ width : Nat) ≤ 2 * n)
    (hhigh : 2 * n < (256 ^ width : Nat)) : getInt (putInt width n) = n := by
  have hget : getLe (putInt width n) = (n % (256 ^ width : Nat)).toNat := by
    apply getLe_putLe
    have hlt := Int.emod_lt_of_pos n (b := (256 ^ width : Nat)) (by omega)
    have hnonneg := Int.emod_nonneg n (b := (256 ^ width : Nat)) (by omega)
    omega
  rw [getInt, hget, length_putInt]
  cases Int.lt_or_le n 0 with
  | inl hneg =>
    have hmod : n % (256 ^ width : Nat) = n + (256 ^ width : Nat) := by
      rw [← Int.add_emod_right]
      exact Int.emod_eq_of_lt (by omega) (by omega)
    rw [hmod, if_neg (by omega)]
    omega
  | inr hnonneg =>
    have hmod : n % (256 ^ width : Nat) = n := Int.emod_eq_of_lt hnonneg (by omega)
    rw [hmod, if_pos (by omega)]
    omega

/-! ### Readers -/

/-- Takes a value off the front, or fails. -/
abbrev Reader (α : Type) := StateT Bytes Option α

section Readers

variable {α β : Type} {r : Reader α} {f : α → Reader β} {data rest more : Bytes} {a : α}

theorem bind_apply (r : Reader α) (f : α → Reader β) (data : Bytes) :
    (r >>= f) data = (r data).bind fun p => f p.1 p.2 := rfl

theorem bind_eq_of_eq_some (h : r data = some (a, rest)) : (r >>= f) data = f a rest := by
  rw [bind_apply, h]
  rfl

/-- Exactly so many bytes. -/
def bytes (n : Nat) : Reader Bytes := fun data => if n ≤ data.length then some (data.take n, data.drop n) else none

/-- So many bytes, or what is left of them. -/
def slice (n : Nat) : Reader Bytes := fun data => some (data.take n, data.drop n)

/-- A number of a fixed width. -/
def uint (width : Nat) : Reader Nat := do
  let field ← bytes width
  pure (getLe field)

/-- So many values, one after the other. -/
def many (r : Reader α) : Nat → Reader (List α)
  | 0 => pure []
  | n + 1 => do
    let first ← r
    let others ← many r n
    pure (first :: others)

theorem bytes_append (field rest : Bytes) : bytes field.length (field ++ rest) = some (field, rest) := by
  rw [bytes, if_pos (by simp), List.take_left, List.drop_left]

theorem slice_append (field rest : Bytes) : slice field.length (field ++ rest) = some (field, rest) := by
  rw [slice, List.take_left, List.drop_left]

theorem uint_append {width n : Nat} (h : n < 256 ^ width) (rest : Bytes) :
    uint width (putLe width n ++ rest) = some (n, rest) := by
  have hfield : bytes width (putLe width n ++ rest) = some (putLe width n, rest) := by
    have := bytes_append (putLe width n) rest
    rwa [length_putLe] at this
  rw [uint, bind_eq_of_eq_some hfield, getLe_putLe h]
  rfl

/-- Values that are read back one by one are read back together. -/
theorem many_flatMap {put : α → Bytes} {values : List α}
    (h : ∀ value ∈ values, ∀ rest, r (put value ++ rest) = some (value, rest)) (rest : Bytes) :
    many r values.length (values.flatMap put ++ rest) = some (values, rest) := by
  induction values with
  | nil => rfl
  | cons first others ih =>
    obtain ⟨hfirst, hothers⟩ := List.forall_mem_cons.1 h
    rw [List.length_cons, many, List.flatMap_cons, List.append_assoc, bind_eq_of_eq_some (hfirst _),
      bind_eq_of_eq_some (ih hothers)]
    rfl

/-! ### Steady readers -/

/-- What stands behind the part that is read changes nothing. -/
def Steady (r : Reader α) : Prop :=
  ∀ data a rest more, r data = some (a, rest) → r (data ++ more) = some (a, rest ++ more)

theorem steady_pure (a : α) : Steady (pure a : Reader α) := by
  intro data b rest more h
  cases h
  rfl

theorem steady_bytes (n : Nat) : Steady (bytes n) := by
  intro data field rest more h
  rw [bytes] at h
  split at h
  · next hn =>
    cases h
    rw [bytes, if_pos (by rw [List.length_append]; omega), List.take_append_of_le_length hn,
      List.drop_append_of_le_length hn]
  · cases h

theorem Steady.bind (hr : Steady r) (hf : ∀ a, Steady (f a)) : Steady (r >>= f) := by
  intro data b rest more h
  rw [bind_apply] at h
  obtain ⟨⟨a, middle⟩, hfirst, hsecond⟩ := Option.bind_eq_some_iff.1 h
  rw [bind_eq_of_eq_some (hr data a middle more hfirst)]
  exact hf a middle b rest more hsecond

theorem steady_uint (width : Nat) : Steady (uint width) :=
  (steady_bytes width).bind fun field => steady_pure (getLe field)

/-- A steady reader fails on every proper start of a text that it reads to the end. -/
theorem Steady.eq_none_of_start (h : Steady r) (hdata : r data = some (a, [])) {start : Bytes}
    (hstart : start <+: data) (hne : start ≠ data) : r start = none := by
  obtain ⟨more, rfl⟩ := hstart
  cases hread : r start with
  | none => rfl
  | some p =>
    obtain ⟨b, rest⟩ := p
    have hwhole := h start b rest more hread
    have hempty : rest ++ more = [] := (Prod.mk.inj (Option.some.inj (hwhole.symm.trans hdata))).2
    rw [(List.append_eq_nil_iff.1 hempty).2, List.append_nil] at hne
    exact absurd rfl hne

end Readers

end Hledac.Lib.Wire
