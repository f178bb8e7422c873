import Mathlib.Data.List.SplitBy
import Hledac.Lib.Words
import Hledac.Py.Text

/-!
# Quoting of URL parts

`quote_plus`, `unquote_plus`, `parse_qsl` and `urlencode` of `urllib.parse`, on characters. What is
quoted is unquoted to the same text, and an encoded query is parsed to the pairs it was made of.
-/

namespace Hledac.Py

open Hledac.Lib

/-- The value of a hexadecimal digit. -/
def hexOf? (ch : Char) : Option Nat :=
  let n := ch.toNat
  if 48 ≤ n ∧ n ≤ 57 then some (n - 48)
  else if 65 ≤ n ∧ n ≤ 70 then some (n - 55)
  else if 97 ≤ n ∧ n ≤ 102 then some (n - 87)
  else none

/-- `unquote_to_bytes`, of an ASCII text. -/
def unquoteToBytes : List Char → Bytes
  | '%' :: a :: b :: rest =>
    match hexOf? a, hexOf? b with
    | some x, some y => UInt8.ofNat (16 * x + y) :: unquoteToBytes rest
    | _, _ => UInt8.ofNat '%'.toNat :: unquoteToBytes (a :: b :: rest)
  | ch :: rest => UInt8.ofNat ch.toNat :: unquoteToBytes rest
  | [] => []

def isAscii (ch : Char) : Bool := ch.toNat < 128

/-- One run of a text: ASCII characters are unquoted, others are left. -/
def unquoteRun (run : List Char) : List Char :=
  if run.all isAscii then (decodeReplace (unquoteToBytes run)).toList else run

/-- `unquote`. -/
def unquote (s : List Char) : List Char :=
  if '%' ∈ s then (s.splitBy fun a b => isAscii a == isAscii b).flatMap unquoteRun else s

/-- `unquote_plus`. -/
def unquotePlus (s : List Char) : List Char := unquote (s.map fun ch => if ch = '+' then ' ' else ch)

/-- `_ALWAYS_SAFE`. -/
def alwaysSafe (b : UInt8) : Bool :=
  (65 ≤ b && b ≤ 90) || (97 ≤ b && b ≤ 122) || (48 ≤ b && b ≤ 57) || [95, 46, 45, 126].contains b

/-- An upper-case hexadecimal digit. -/
def hexUpper (n : Nat) : Char := Char.ofNat (if n < 10 then 48 + n else 55 + n)

/-- `_Quoter`, on one byte. -/
def quoteByte (safe : List UInt8) (b : UInt8) : List Char :=
  if alwaysSafe b || safe.contains b then [Char.ofNat b.toNat]
  else ['%', hexUpper (b.toNat / 16), hexUpper (b.toNat % 16)]

/-- `quote`. -/
def quote (safe : List UInt8) (s : List Char) : List Char :=
  (encode (String.ofList s)).flatMap (quoteByte safe)

/-- `quote_plus`. -/
def quotePlus (s : List Char) : List Char :=
  if ' ' ∈ s then (quote [32] s).map fun ch => if ch = ' ' then '+' else ch else quote [] s

/-- `urlencode`, of pairs of strings. -/
def urlencode (query : List (List Char × List Char)) : List Char :=
  ['&'].intercalate (query.map fun pair => quotePlus pair.1 ++ '=' :: quotePlus pair.2)

/-- `parse_qsl`, with `keep_blank_values` as given. -/
def parseQsl (keepBlankValues : Bool) (qs : List Char) : List (List Char × List Char) :=
  (qs.splitOn '&').filterMap fun nameValue =>
    let name := nameValue.takeWhile (· ≠ '=')
    let value := (nameValue.dropWhile (· ≠ '=')).drop 1
    if nameValue = [] then none
    else if value = [] ∧ keepBlankValues = false then none
    else some (unquotePlus name, unquotePlus value)

/-! ### Bytes -/

theorem hexOf?_hexUpper {n : Nat} (h : n < 16) : hexOf? (hexUpper n) = some n := by
  have hall : ∀ n : Fin 16, hexOf? (hexUpper n) = some n.val := by decide
  exact hall ⟨n, h⟩

theorem unquoteToBytes_cons {ch : Char} (h : ch ≠ '%') (rest : List Char) :
    unquoteToBytes (ch :: rest) = UInt8.ofNat ch.toNat :: unquoteToBytes rest := by
  rw [unquoteToBytes]
  intro a b rest' heq
  exact absurd heq h

theorem toNat_ofByte (b : UInt8) : (Char.ofNat b.toNat).toNat = b.toNat := by
  have hb : b.toNat < 256 := UInt8.toNat_lt_size b
  have hvalid : Nat.isValidChar b.toNat := Or.inl (by omega)
  rw [Char.ofNat, dif_pos hvalid]
  rfl

theorem unquoteToBytes_quoteByte {safe : List UInt8} (hsafe : 37 ∉ safe) (b : UInt8) (rest : List Char) :
    unquoteToBytes (quoteByte safe b ++ rest) = b :: unquoteToBytes rest := by
  have hb : b.toNat < 256 := UInt8.toNat_lt_size b
  rw [quoteByte]
  split
  · next hkept =>
    have hne : b ≠ 37 := by
      rintro rfl
      rw [Bool.or_eq_true] at hkept
      rcases hkept with hkept | hkept
      · exact absurd hkept (by decide)
      · exact hsafe (List.contains_iff_mem.1 hkept)
    have hnot : Char.ofNat b.toNat ≠ '%' := by
      intro heq
      apply hne
      apply UInt8.toNat_inj.1
      rw [← toNat_ofByte, heq]
      rfl
    rw [List.singleton_append, unquoteToBytes_cons hnot, toNat_ofByte, UInt8.ofNat_toNat]
  · rw [List.cons_append, List.cons_append, List.singleton_append, unquoteToBytes,
      hexOf?_hexUpper (by omega), hexOf?_hexUpper (by omega)]
    simp only [List.cons.injEq, and_true]
    rw [show 16 * (b.toNat / 16) + b.toNat % 16 = b.toNat by omega, UInt8.ofNat_toNat]

theorem unquoteToBytes_flatMap {safe : List UInt8} (hsafe : 37 ∉ safe) (bs : Bytes) :
    unquoteToBytes (bs.flatMap (quoteByte safe)) = bs := by
  induction bs with
  | nil => rfl
  | cons b bs ih => rw [List.flatMap_cons, unquoteToBytes_quoteByte hsafe, ih]

theorem utf8EncodeChar_of_isAscii {ch : Char} (h : isAscii ch = true) :
    String.utf8EncodeChar ch = [UInt8.ofNat ch.toNat] := by
  have hlt : ch.toNat < 128 := by simpa [isAscii] using h
  unfold String.utf8EncodeChar
  simp only
  rw [if_pos (by show ch.toNat ≤ 127; omega)]
  rfl

theorem unquoteToBytes_of_notMem {s : List Char} (hascii : ∀ ch ∈ s, isAscii ch = true) (h : '%' ∉ s) :
    unquoteToBytes s = encode (String.ofList s) := by
  rw [encode_eq_flatMap, String.toList_ofList]
  induction s with
  | nil => rfl
  | cons ch rest ih =>
    have hne : ch ≠ '%' := fun heq => h (by simp [heq])
    rw [unquoteToBytes_cons hne, List.flatMap_cons, utf8EncodeChar_of_isAscii (hascii ch (by simp)),
      ih (fun c hc => hascii c (by simp [hc])) fun hmem => h (by simp [hmem])]
    rfl

theorem unquote_of_isAscii {s : List Char} (hascii : ∀ ch ∈ s, isAscii ch = true) :
    unquote s = (decodeReplace (unquoteToBytes s)).toList := by
  rw [unquote]
  split
  · next h =>
    have hne : s ≠ [] := List.ne_nil_of_mem h
    have hchain : s.IsChain fun a b => (isAscii a == isAscii b) = true := by
      apply List.Pairwise.isChain
      apply List.pairwise_of_forall_mem_list
      intro a ha b hb
      rw [hascii a ha, hascii b hb]
      rfl
    rw [List.splitBy_of_isChain hne hchain, List.flatMap_singleton, unquoteRun,
      if_pos (List.all_eq_true.2 hascii)]
  · next h => rw [unquoteToBytes_of_notMem hascii h, decodeReplace_encode, String.toList_ofList]

/-! ### Characters -/

/-- The characters of quoted texts. -/
def isQuoted (ch : Char) : Bool :=
  let n := ch.toNat
  (65 ≤ n && n ≤ 90) || (97 ≤ n && n ≤ 122) || (48 ≤ n && n ≤ 57) || [95, 46, 45, 126, 37].contains n

theorem isQuoted_hexUpper {n : Nat} (h : n < 16) : isQuoted (hexUpper n) = true := by
  have hall : ∀ n : Fin 16, isQuoted (hexUpper n) = true := by decide
  exact hall ⟨n, h⟩

theorem isQuoted_of_mem_quoteByte {safe : List UInt8} {b : UInt8} {ch : Char} (h : ch ∈ quoteByte safe b) :
    isQuoted ch = true ∨ ∃ c ∈ safe, ch = Char.ofNat c.toNat := by
  have hb : b.toNat < 256 := UInt8.toNat_lt_size b
  rw [quoteByte] at h
  split at h
  · next hkept =>
    rw [List.mem_singleton] at h
    subst h
    rw [Bool.or_eq_true] at hkept
    rcases hkept with hkept | hkept
    · left
      simp only [alwaysSafe, Bool.or_eq_true, Bool.and_eq_true, decide_eq_true_eq, UInt8.le_iff_toNat_le,
        List.contains_cons, List.contains_nil, beq_iff_eq, ← UInt8.toNat_inj] at hkept
      simp [isQuoted, toNat_ofByte]
      simp at hkept
      omega
    · exact .inr ⟨b, List.contains_iff_mem.1 hkept, rfl⟩
  · left
    simp only [List.mem_cons, List.not_mem_nil, or_false] at h
    rcases h with rfl | rfl | rfl
    · rfl
    · exact isQuoted_hexUpper (by omega)
    · exact isQuoted_hexUpper (by omega)

theorem of_mem_quote {safe : List UInt8} {s : List Char} {ch : Char} (h : ch ∈ quote safe s) :
    isQuoted ch = true ∨ ∃ c ∈ safe, ch = Char.ofNat c.toNat := by
  obtain ⟨b, -, hb⟩ := List.mem_flatMap.1 h
  exact isQuoted_of_mem_quoteByte hb

theorem of_mem_quotePlus {s : List Char} {ch : Char} (h : ch ∈ quotePlus s) :
    isQuoted ch = true ∨ ch = '+' := by
  rw [quotePlus] at h
  split at h
  · obtain ⟨c, hc, rfl⟩ := List.mem_map.1 h
    split
    · exact .inr rfl
    · next hne =>
      rcases of_mem_quote hc with hquoted | ⟨b, hb, rfl⟩
      · exact .inl hquoted
      · rw [List.mem_singleton.1 hb] at hne
        exact absurd rfl hne
  · rcases of_mem_quote h with hquoted | ⟨b, hb, -⟩
    · exact .inl hquoted
    · cases hb

theorem quoteByte_ne_nil (safe : List UInt8) (b : UInt8) : quoteByte safe b ≠ [] := by
  rw [quoteByte]
  split <;> exact List.cons_ne_nil _ _

theorem quotePlus_ne_nil {s : List Char} (h : s ≠ []) : quotePlus s ≠ [] := by
  have hquote : ∀ safe, quote safe s ≠ [] := by
    intro safe hnil
    obtain ⟨ch, rest, rfl⟩ := List.exists_cons_of_ne_nil h
    rw [quote, List.flatMap_eq_nil_iff, encode_eq_flatMap, String.toList_ofList] at hnil
    obtain ⟨b, hb⟩ := List.exists_mem_of_length_pos
      (String.length_utf8EncodeChar ch ▸ Char.utf8Size_pos ch : 0 < (String.utf8EncodeChar ch).length)
    exact quoteByte_ne_nil safe b (hnil b (by simp [hb]))
  rw [quotePlus]
  split
  · simpa using hquote [32]
  · exact hquote []

/-! ### Round trips -/

theorem unquote_quote {safe : List UInt8} (hsafe : ∀ b ∈ safe, b = 32) (s : List Char) :
    unquote (quote safe s) = s := by
  have hascii : ∀ ch ∈ quote safe s, isAscii ch = true := by
    intro ch hch
    rcases of_mem_quote hch with hquoted | ⟨b, hb, rfl⟩
    · simp only [isQuoted, Bool.or_eq_true, Bool.and_eq_true, decide_eq_true_eq, List.contains_cons,
        List.contains_nil, beq_iff_eq] at hquoted
      simp [isAscii]
      simp at hquoted
      omega
    · rw [hsafe b hb]
      rfl
  have hpercent : 37 ∉ safe := fun hmem => absurd (hsafe 37 hmem) (by decide)
  rw [unquote_of_isAscii hascii, quote, unquoteToBytes_flatMap hpercent, decodeReplace_encode,
    String.toList_ofList]

theorem unquotePlus_quotePlus (s : List Char) : unquotePlus (quotePlus s) = s := by
  have hplus : ∀ safe : List UInt8, (∀ b ∈ safe, b = 32) → ∀ ch ∈ quote safe s, ch ≠ '+' := by
    rintro safe hsafe ch hch rfl
    rcases of_mem_quote hch with hquoted | ⟨b, hb, heq⟩
    · exact absurd hquoted (by decide)
    · rw [hsafe b hb] at heq
      exact absurd heq (by decide)
  rw [unquotePlus, quotePlus]
  split
  · have hback : ((quote [32] s).map fun ch => if ch = ' ' then '+' else ch).map
        (fun ch => if ch = '+' then ' ' else ch) = quote [32] s := by
      rw [List.map_map]
      conv_rhs => rw [← List.map_id (quote [32] s)]
      apply List.map_congr_left
      intro ch hch
      by_cases hblank : ch = ' '
      · simp [hblank]
      · simp [hblank, hplus [32] (by simp) ch hch]
    rw [hback, unquote_quote (by simp)]
  · have hback : (quote [] s).map (fun ch => if ch = '+' then ' ' else ch) = quote [] s := by
      conv_rhs => rw [← List.map_id (quote [] s)]
      apply List.map_congr_left
      intro ch hch
      simp [hplus [] (by simp) ch hch]
    rw [hback, unquote_quote (by simp)]

theorem mem_pair {pair : List Char × List Char} {ch : Char}
    (h : ch ∈ quotePlus pair.1 ++ '=' :: quotePlus pair.2) : isQuoted ch = true ∨ ch = '+' ∨ ch = '=' := by
  rw [List.mem_append, List.mem_cons] at h
  rcases h with h | rfl | h
  · exact (of_mem_quotePlus h).imp_right .inl
  · exact .inr (.inr rfl)
  · exact (of_mem_quotePlus h).imp_right .inl

theorem takeWhile_pair (k v : List Char) :
    (quotePlus k ++ '=' :: v).takeWhile (· ≠ '=') = quotePlus k ∧
      (quotePlus k ++ '=' :: v).dropWhile (· ≠ '=') = '=' :: v := by
  have hne : ∀ ch ∈ quotePlus k, decide (ch ≠ '=') = true := by
    intro ch hch
    rw [decide_eq_true_iff]
    rintro rfl
    exact absurd (of_mem_quotePlus hch) (by decide)
  constructor
  · rw [List.takeWhile_append_of_pos hne]
    simp
  · rw [List.dropWhile_append_of_pos hne]
    simp

theorem parseQsl_urlencode {keepBlankValues : Bool} {query : List (List Char × List Char)}
    (h : keepBlankValues = true ∨ ∀ pair ∈ query, pair.2 ≠ []) :
    parseQsl keepBlankValues (urlencode query) = query := by
  cases query with
  | nil => rfl
  | cons first rest =>
    have hamp : ∀ part ∈ (first :: rest).map (fun pair => quotePlus pair.1 ++ '=' :: quotePlus pair.2),
        '&' ∉ part := by
      intro part hpart hmem
      obtain ⟨pair, -, rfl⟩ := List.mem_map.1 hpart
      exact absurd (mem_pair hmem) (by decide)
    rw [parseQsl, urlencode, List.splitOn_intercalate '&' hamp (by simp), List.filterMap_map]
    conv_rhs => rw [← List.filterMap_some (l := first :: rest)]
    apply List.filterMap_congr
    intro pair hpair
    obtain ⟨htake, hdrop⟩ := takeWhile_pair pair.1 (quotePlus pair.2)
    have hvalue : ¬ (quotePlus pair.2 = [] ∧ keepBlankValues = false) := by
      rintro ⟨hnil, hkeep⟩
      rcases h with h | h
      · rw [hkeep] at h
        cases h
      · exact quotePlus_ne_nil (h pair hpair) hnil
    simp only [Function.comp_apply, htake, hdrop, List.drop_succ_cons, List.drop_zero, if_neg hvalue,
      unquotePlus_quotePlus]
    rw [if_neg (by simp)]

theorem of_mem_urlencode {query : List (List Char × List Char)} {ch : Char} (h : ch ∈ urlencode query) :
    isQuoted ch = true ∨ ch ∈ ['+', '=', '&'] := by
  rw [urlencode] at h
  rcases Hledac.Lib.Words.mem_intercalate h with rfl | hmem
  · simp
  · obtain ⟨part, hpart, hch⟩ := List.mem_flatten.1 hmem
    obtain ⟨pair, -, rfl⟩ := List.mem_map.1 hpart
    rcases mem_pair hch with hquoted | rfl | rfl
    · exact .inl hquoted
    · simp
    · simp

theorem urlencode_ne_nil {query : List (List Char × List Char)} (h : query ≠ []) : urlencode query ≠ [] := by
  obtain ⟨first, rest, rfl⟩ := List.exists_cons_of_ne_nil h
  rw [urlencode, List.map_cons]
  cases rest with
  | nil => simp
  | cons second rest => simp [List.intercalate_cons_cons]

/-! ### Blank values -/

theorem decodeReplace_ne_nil {bs : Bytes} (h : bs ≠ []) : (decodeReplace bs).toList ≠ [] := by
  obtain ⟨b, rest, rfl⟩ := List.exists_cons_of_ne_nil h
  rw [decodeReplace, String.toList_ofList, List.length_cons, decodeReplaceLoop]
  split <;> exact List.cons_ne_nil _ _

theorem unquoteToBytes_ne_nil {s : List Char} (h : s ≠ []) : unquoteToBytes s ≠ [] := by
  fun_cases unquoteToBytes s <;> simp_all

theorem unquotePlus_ne_nil {s : List Char} (h : s ≠ []) : unquotePlus s ≠ [] := by
  have hmap : s.map (fun ch => if ch = '+' then ' ' else ch) ≠ [] := by simpa using h
  rw [unquotePlus, unquote]
  split
  · obtain ⟨run, runs, hruns⟩ := List.exists_cons_of_ne_nil
      ((List.splitBy_ne_nil (r := fun a b => isAscii a == isAscii b)).2 hmap)
    have hrun : run ≠ [] := List.ne_nil_of_mem_splitBy (hruns ▸ List.mem_cons_self)
    rw [hruns, List.flatMap_cons]
    apply List.append_ne_nil_of_left_ne_nil
    rw [unquoteRun]
    split
    · exact decodeReplace_ne_nil (unquoteToBytes_ne_nil hrun)
    · exact hrun
  · exact hmap

theorem parseQsl_false (qs : List Char) :
    parseQsl false qs = (parseQsl true qs).filter fun pair => !pair.2.isEmpty := by
  rw [parseQsl, parseQsl, List.filter_filterMap]
  apply List.filterMap_congr
  intro nameValue _
  by_cases hname : nameValue = []
  · simp [hname]
  · simp only [if_neg hname]
    generalize (nameValue.dropWhile (· ≠ '=')).drop 1 = value
    by_cases hvalue : value = []
    · subst hvalue
      rfl
    · have hne : (unquotePlus value).isEmpty = false := by simpa using unquotePlus_ne_nil hvalue
      rw [if_neg (fun h => hvalue h.1), if_neg (fun h => hvalue h.1), Option.filter_some_pos (by simp [hne])]

end Hledac.Py
