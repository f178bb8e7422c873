import Hledac.Py.Value

/-!
# Python text

`str.encode` and `bytes.decode` for UTF-8, over byte lists, and the text form of a UTC
timestamp. Strings are sequences of Unicode scalar values, so encoding never fails.
-/

namespace Hledac.Py

open Hledac.Lib

/-- `str.encode("utf-8")`. -/
def encode (s : String) : Bytes := s.toByteArray.data.toList

/-- The scalar value the bytes start with, when they start with a well-formed one. -/
def decodeChar? (bs : Bytes) : Option Char := (ByteArray.mk bs.toArray).utf8DecodeChar? 0

/-- Bounds of the second byte after a lead byte, and how many more may follow. -/
def secondByte (b : UInt8) : Option (UInt8 × UInt8 × Nat) :=
  if 0xC2 ≤ b ∧ b ≤ 0xDF then some (0x80, 0xBF, 0)
  else if b = 0xE0 then some (0xA0, 0xBF, 1)
  else if b = 0xED then some (0x80, 0x9F, 1)
  else if 0xE1 ≤ b ∧ b ≤ 0xEF then some (0x80, 0xBF, 1)
  else if b = 0xF0 then some (0x90, 0xBF, 2)
  else if 0xF1 ≤ b ∧ b ≤ 0xF3 then some (0x80, 0xBF, 2)
  else if b = 0xF4 then some (0x80, 0x8F, 2)
  else none

/-- Length of the ill-formed prefix that one replacement character stands for: the longest start
of a well-formed sequence, and at least one byte. -/
def maximalSubpart : Bytes → Nat
  | lead :: second :: rest =>
    match secondByte lead with
    | some (lo, hi, more) =>
      if lo ≤ second ∧ second ≤ hi then
        2 + ((rest.take more).takeWhile fun b => 0x80 ≤ b && b ≤ 0xBF).length
      else 1
    | none => 1
  | _ => 1

/-- Decoding loop with `errors="replace"`; every round consumes at least one byte, so the
length of the input is enough fuel. -/
def decodeReplaceLoop : Nat → Bytes → List Char
  | 0, _ => []
  | _ + 1, [] => []
  | fuel + 1, b :: bs =>
    match decodeChar? (b :: bs) with
    | some c => c :: decodeReplaceLoop fuel ((b :: bs).drop c.utf8Size)
    | none => '\uFFFD' :: decodeReplaceLoop fuel ((b :: bs).drop (maximalSubpart (b :: bs)))

/-- `bytes.decode("utf-8", errors="replace")`. -/
def decodeReplace (bs : Bytes) : String := String.ofList (decodeReplaceLoop bs.length bs)

/-- Decoding loop with `errors="ignore"`, which leaves out what the other replaces. -/
def decodeIgnoreLoop : Nat → Bytes → List Char
  | 0, _ => []
  | _ + 1, [] => []
  | fuel + 1, b :: bs =>
    match decodeChar? (b :: bs) with
    | some c => c :: decodeIgnoreLoop fuel ((b :: bs).drop c.utf8Size)
    | none => decodeIgnoreLoop fuel ((b :: bs).drop (maximalSubpart (b :: bs)))

/-- `bytes.decode("utf-8", errors="ignore")`. -/
def decodeIgnore (bs : Bytes) : String := String.ofList (decodeIgnoreLoop bs.length bs)

/-- `bytes.decode("utf-8")`, none where it raises. -/
def decode? (bs : Bytes) : Option String := String.fromUTF8? ⟨bs.toArray⟩

/-! ### The two together -/

theorem encode_eq_flatMap (s : String) : encode s = s.toList.flatMap String.utf8EncodeChar := by
  unfold encode
  rw [← String.utf8Encode_toList]
  simp [List.utf8Encode]

@[simp] theorem encode_append (s t : String) : encode (s ++ t) = encode s ++ encode t := by
  simp [encode_eq_flatMap]

theorem encode_of_decode? {bs : Bytes} {s : String} (h : decode? bs = some s) : encode s = bs := by
  rw [decode?, String.fromUTF8?] at h
  split at h
  · cases h
    rfl
  · cases h

theorem length_encode_le (s : String) : (encode s).length ≤ 4 * s.length := by
  rw [encode_eq_flatMap, ← String.length_toList]
  induction s.toList with
  | nil => simp
  | cons ch cs ih =>
    have hch := Char.utf8Size_le_four ch
    rw [List.flatMap_cons, List.length_append, String.length_utf8EncodeChar, List.length_cons]
    omega

theorem eq_of_mem_utf8EncodeChar {ch : Char} {x : UInt8} (h : x ∈ String.utf8EncodeChar ch)
    (hx : x.toNat < 128) : ch.toNat = x.toNat := by
  have hhigh : ∀ n : Nat, 128 ≤ n ∧ n < 256 → x ≠ UInt8.ofNat n := by
    rintro n ⟨hl, hu⟩ rfl
    rw [UInt8.toNat_ofNat_of_lt' hu] at hx
    omega
  unfold String.utf8EncodeChar at h
  simp only at h
  split at h
  · next hv =>
    rw [List.mem_singleton] at h
    rw [h, UInt8.toNat_ofNat_of_lt' (by omega : ch.val.toNat < 256)]
    rfl
  · exfalso
    split at h
    · rcases List.mem_cons.1 h with h | h
      · exact hhigh _ (by omega) h
      · exact hhigh _ (by omega) (List.mem_singleton.1 h)
    · split at h
      · simp only [List.mem_cons, List.not_mem_nil, or_false] at h
        rcases h with h | h | h
        · exact hhigh _ (by omega) h
        · exact hhigh _ (by omega) h
        · exact hhigh _ (by omega) h
      · simp only [List.mem_cons, List.not_mem_nil, or_false] at h
        rcases h with h | h | h | h
        · exact hhigh _ (by omega) h
        · exact hhigh _ (by omega) h
        · exact hhigh _ (by omega) h
        · exact hhigh _ (by omega) h

theorem mem_encode {s : String} {x : UInt8} (hx : x.toNat < 128) (h : x ∈ encode s) :
    Char.ofNat x.toNat ∈ s.toList := by
  rw [encode_eq_flatMap] at h
  obtain ⟨ch, hch, hmem⟩ := List.mem_flatMap.1 h
  rw [← eq_of_mem_utf8EncodeChar hmem hx, Char.ofNat_toNat]
  exact hch

private theorem decodeChar?_append (ch : Char) (bs : Bytes) :
    decodeChar? (String.utf8EncodeChar ch ++ bs) = some ch := by
  have h := @ByteArray.utf8DecodeChar?_utf8EncodeChar_append bs.toByteArray ch
  rw [← List.toByteArray_append] at h
  rw [← h, decodeChar?]
  congr 1
  ext1
  simp

private theorem loop_flatMap {loop : Nat → Bytes → List Char} (hnil : ∀ fuel, loop fuel [] = [])
    (hround : ∀ fuel b bs ch, decodeChar? (b :: bs) = some ch →
      loop (fuel + 1) (b :: bs) = ch :: loop fuel ((b :: bs).drop ch.utf8Size))
    (cs : List Char) (fuel : Nat) (hf : (cs.flatMap String.utf8EncodeChar).length ≤ fuel) :
    loop fuel (cs.flatMap String.utf8EncodeChar) = cs := by
  induction cs generalizing fuel with
  | nil => exact hnil fuel
  | cons ch cs ih =>
    have hlen : (String.utf8EncodeChar ch).length = ch.utf8Size := String.length_utf8EncodeChar ch
    have hpos : 0 < ch.utf8Size := Char.utf8Size_pos ch
    have hdecode := decodeChar?_append ch (cs.flatMap String.utf8EncodeChar)
    rw [List.flatMap_cons] at hf ⊢
    rw [List.length_append, hlen] at hf
    cases fuel with
    | zero => omega
    | succ fuel =>
      cases hb : String.utf8EncodeChar ch ++ cs.flatMap String.utf8EncodeChar with
      | nil =>
        rw [(List.append_eq_nil_iff.1 hb).1] at hlen
        exact absurd hlen.symm (Nat.ne_of_gt hpos)
      | cons b bs =>
        rw [hb] at hdecode
        rw [hround fuel b bs ch hdecode, ← hb, ← hlen, List.drop_left, ih fuel (by omega)]

theorem decodeReplace_encode (s : String) : decodeReplace (encode s) = s := by
  rw [decodeReplace, encode_eq_flatMap, @loop_flatMap decodeReplaceLoop (fun fuel => by cases fuel <;> rfl) ?_ _ _ le_rfl,
    String.ofList_toList]
  intro fuel b bs ch h
  simp only [decodeReplaceLoop, h]

theorem decodeIgnore_encode (s : String) : decodeIgnore (encode s) = s := by
  rw [decodeIgnore, encode_eq_flatMap, @loop_flatMap decodeIgnoreLoop (fun fuel => by cases fuel <;> rfl) ?_ _ _ le_rfl,
    String.ofList_toList]
  intro fuel b bs ch h
  simp only [decodeIgnoreLoop, h]

/-! ### Numbers and dates -/

/-- Decimal digits, padded with zeros to a width. -/
def padded (width n : Nat) : String :=
  let digits := toString n
  String.ofList (List.replicate (width - digits.length) '0') ++ digits

/-- Proleptic Gregorian year, month and day of a day number counted from 1970-01-01. -/
def civilFromDays (days : Int) : Int × Nat × Nat :=
  let z := days + 719468
  let era := z / 146097
  let doe := (z % 146097).toNat
  let yoe := (doe - doe / 1460 + doe / 36524 - doe / 146096) / 365
  let doy := doe - (365 * yoe + yoe / 4 - yoe / 100)
  let mp := (5 * doy + 2) / 153
  let day := doy - (153 * mp + 2) / 5 + 1
  let month := if mp < 10 then mp + 3 else mp - 9
  (yoe + era * 400 + (if month ≤ 2 then 1 else 0), month, day)

/-- `datetime.fromtimestamp(ts, UTC).isoformat()`; years outside 1 to 9999 raise. -/
def utcIsoformat (ts : ℚ) : Except PyError String :=
  let micros := (roundTo 6 ts * 1000000).floor
  let (year, month, day) := civilFromDays (micros / 86400000000)
  if 1 ≤ year ∧ year ≤ 9999 then
    let ofDay := (micros % 86400000000).toNat
    let seconds := ofDay / 1000000
    let fraction := ofDay % 1000000
    .ok (padded 4 year.toNat ++ "-" ++ padded 2 month ++ "-" ++ padded 2 day ++ "T" ++
      padded 2 (seconds / 3600) ++ ":" ++ padded 2 (seconds / 60 % 60) ++ ":" ++
      padded 2 (seconds % 60) ++ (if fraction = 0 then "" else "." ++ padded 6 fraction) ++
      "+00:00")
  else .error ⟨.valueError, "year is out of range"⟩

end Hledac.Py
