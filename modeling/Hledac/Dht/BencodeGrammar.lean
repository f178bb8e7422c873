import Hledac.Dht.Bencode

/-!
# Well-formed bencodings

The grammar of BEP-3, as a relation between a value and bytes, down to a depth of nesting. Integers have no
leading zeros and no sign but a minus, the entries of a dictionary have different keys, in any order. Every
decoder that follows a few rules reads what the grammar allows, and leaves what comes after it.
-/

namespace Hledac.Dht

open Hledac.Lib Hledac.Py

/-! ### Numbers -/

/-- The number that decimal digits stand for. -/
def digitsValue (text : Bytes) : Option Nat :=
  if text ≠ [] ∧ text.all isAsciiDigit = true ∧ text.length ≤ maxStrDigits then
    some ((text.map fun x => x.toNat - 48).foldl (fun n d => n * 10 + d) 0)
  else none

/-- The integer that a text of BEP-3 stands for. -/
def strictInt : Bytes → Option Int
  | [] => none
  | x :: rest =>
    if x = ascii '-' then
      if rest.head? = some (ascii '0') then none else (digitsValue rest).map fun n : Nat => -(n : Int)
    else if x = ascii '0' ∧ rest ≠ [] then none
    else (digitsValue (x :: rest)).map fun n : Nat => (n : Int)

section Numbers

variable {text : Bytes} {n : Nat} {i : Int} {x : UInt8}

theorem isAsciiDigit_iff : isAsciiDigit x = true ↔ 48 ≤ x.toNat ∧ x.toNat ≤ 57 := by
  rw [isAsciiDigit, Bool.and_eq_true, decide_eq_true_iff, decide_eq_true_iff, UInt8.le_iff_toNat_le,
    UInt8.le_iff_toNat_le]
  exact Iff.rfl

theorem toNat_latin (h : isAsciiDigit x = true) : (latin x).toNat = x.toNat := by
  obtain ⟨-, hhigh⟩ := isAsciiDigit_iff.1 h
  have hvalid : x.toNat.isValidChar := Or.inl (by omega)
  rw [latin, Char.ofNat, dif_pos hvalid]
  rfl

theorem isDigit_latin (h : isAsciiDigit x = true) : (latin x).isDigit = true := by
  have hrange := isAsciiDigit_iff.1 h
  have hnat := toNat_latin h
  simp only [Char.isDigit, ge_iff_le, Bool.and_eq_true, decide_eq_true_eq, UInt32.le_iff_toNat_le]
  show 48 ≤ (latin x).toNat ∧ (latin x).toNat ≤ 57
  omega

theorem digitsValue_eq_some (h : digitsValue text = some n) :
    text ≠ [] ∧ (∀ x ∈ text, isAsciiDigit x = true) ∧ text.length ≤ maxStrDigits ∧
      (text.map fun x => x.toNat - 48).foldl (fun n d => n * 10 + d) 0 = n := by
  rw [digitsValue] at h
  split at h
  · next hall => exact ⟨hall.1, List.all_eq_true.1 hall.2.1, hall.2.2, Option.some.inj h⟩
  · cases h

theorem readNat_of_digitsValue (h : digitsValue text = some n) : readNat (text.map latin) = some n := by
  obtain ⟨hne, hall, hlen, hvalue⟩ := digitsValue_eq_some h
  have hdigits : ∀ ch ∈ text.map latin, ch.isDigit = true := by
    intro ch hch
    obtain ⟨x, hx, rfl⟩ := List.mem_map.1 hch
    exact isDigit_latin (hall x hx)
  have hmap : (text.map latin).map (fun ch => ch.toNat - 48) = text.map fun x => x.toNat - 48 := by
    rw [List.map_map]
    exact List.map_congr_left fun x hx => congrArg (· - 48) (toNat_latin (hall x hx))
  rw [readNat, readDigits_of_forall hdigits (.inl (by simpa using hne)), hmap]
  simp only [Option.bind_eq_bind, Option.bind_some, List.length_map, if_pos hlen, hvalue]

theorem strip_of_forall_not {cs : List Char} (h : ∀ ch ∈ cs, isByteSpace ch = false) :
    (cs.dropWhile isByteSpace).rdropWhile isByteSpace = cs := by
  have hdrop : cs.dropWhile isByteSpace = cs := by
    rw [List.dropWhile_eq_self_iff]
    intro hpos
    rw [h _ (List.getElem_mem hpos)]
    exact Bool.false_ne_true
  rw [hdrop, List.rdropWhile_eq_self_iff]
  intro hne
  rw [h _ (List.getLast_mem hne)]
  exact Bool.false_ne_true

theorem isByteSpace_of_forall_isAsciiDigit (h : ∀ x ∈ text, isAsciiDigit x = true) :
    ∀ ch ∈ text.map latin, isByteSpace ch = false := by
  intro ch hch
  obtain ⟨x, hx, rfl⟩ := List.mem_map.1 hch
  have hrange := isAsciiDigit_iff.1 (h x hx)
  rw [← toNat_latin (h x hx)] at hrange
  simp only [isByteSpace, Bool.or_eq_false_iff, Bool.and_eq_false_iff, decide_eq_false_iff_not, beq_eq_false_iff_ne]
  omega

theorem intOfBytes_of_digitsValue (h : digitsValue text = some n) : intOfBytes text = some (n : Int) := by
  obtain ⟨hne, hall, -, -⟩ := digitsValue_eq_some h
  have hspace := isByteSpace_of_forall_isAsciiDigit hall
  have hsign : ∀ ch : Char, ch.toNat < 48 → (text.map latin).head? ≠ some ch := by
    intro ch hch hhead
    obtain ⟨rest, hrest⟩ := List.head?_eq_some_iff.1 hhead
    obtain ⟨x, hx, rfl⟩ := List.mem_map.1 (hrest ▸ List.mem_cons_self : ch ∈ text.map latin)
    have hrange := isAsciiDigit_iff.1 (hall x hx)
    rw [toNat_latin (hall x hx)] at hch
    omega
  rw [intOfBytes, strip_of_forall_not hspace]
  rw [if_neg (hsign '-' (by decide)), if_neg (hsign '+' (by decide)), readNat_of_digitsValue h]
  rfl

theorem intOfBytes_of_strictInt (h : strictInt text = some i) : intOfBytes text = some i := by
  cases text with
  | nil => cases h
  | cons x rest =>
    rw [strictInt] at h
    by_cases hminus : x = ascii '-'
    · rw [if_pos hminus] at h
      split at h
      · cases h
      · obtain ⟨n, hn, rfl⟩ := Option.map_eq_some_iff.1 h
        obtain ⟨-, hall, -, -⟩ := digitsValue_eq_some hn
        have hspace : ∀ ch ∈ (x :: rest).map latin, isByteSpace ch = false := by
          rw [List.map_cons, List.forall_mem_cons, hminus]
          exact ⟨by decide, isByteSpace_of_forall_isAsciiDigit hall⟩
        have hhead : ((x :: rest).map latin).head? = some '-' := by
          rw [hminus]
          rfl
        rw [intOfBytes, strip_of_forall_not hspace, if_pos hhead, List.map_cons, List.tail_cons,
          readNat_of_digitsValue hn]
        rfl
    · rw [if_neg hminus] at h
      split at h
      · cases h
      · obtain ⟨n, hn, rfl⟩ := Option.map_eq_some_iff.1 h
        exact intOfBytes_of_digitsValue hn

theorem head?_toDigits (n : Nat) (hn : 0 < n) : (Nat.toDigits 10 n).head? ≠ some '0' := by
  induction n using Nat.strongRecOn with
  | ind n ih =>
    by_cases hlt : n < 10
    · have hdigits : ∀ m < 10, 0 < m → m.digitChar ≠ '0' := by decide
      rw [Nat.toDigits_of_lt_base hlt]
      intro hhead
      exact hdigits n hlt hn (Option.some.inj hhead)
    · rw [Nat.toDigits_of_base_le (by decide) (by omega), List.head?_append_of_ne_nil _ Nat.toDigits_ne_nil]
      exact ih (n / 10) (by omega) (by omega)

theorem natBytes_eq_some (h : natBytes n = some text) :
    text = (Nat.toDigits 10 n).map ascii ∧ digitsValue text = some n := by
  obtain ⟨t, ht, rfl⟩ := Option.map_eq_some_iff.1 h
  rw [natText] at ht
  split at ht
  · next hlen =>
    obtain rfl := Option.some.inj ht
    rw [Nat.toString_eq_ofList_toDigits] at hlen ⊢
    rw [String.toList_ofList]
    rw [String.length_ofList] at hlen
    have hdigit : ∀ ch ∈ Nat.toDigits 10 n, 48 ≤ ch.toNat ∧ ch.toNat ≤ 57 := by
      intro ch hch
      have hd := Nat.isDigit_of_mem_toDigits (by decide) (by decide) hch
      simp only [Char.isDigit, ge_iff_le, Bool.and_eq_true, decide_eq_true_eq, UInt32.le_iff_toNat_le] at hd
      exact hd
    have hascii : ∀ ch ∈ Nat.toDigits 10 n, (ascii ch).toNat = ch.toNat := by
      intro ch hch
      have hd := hdigit ch hch
      exact UInt8.toNat_ofNat_of_lt' (show ch.toNat < 256 by omega)
    refine ⟨rfl, ?_⟩
    have hall : ((Nat.toDigits 10 n).map ascii).all isAsciiDigit = true := by
      rw [List.all_eq_true]
      intro x hx
      obtain ⟨ch, hch, rfl⟩ := List.mem_map.1 hx
      rw [isAsciiDigit_iff, hascii ch hch]
      exact hdigit ch hch
    rw [digitsValue, if_pos ⟨by simp, hall, by simpa using hlen⟩, List.map_map]
    have hmap : (Nat.toDigits 10 n).map ((fun x : UInt8 => x.toNat - 48) ∘ ascii) =
        (Nat.toDigits 10 n).map fun ch => ch.toNat - 48 :=
      List.map_congr_left fun ch hch => congrArg (· - 48) (hascii ch hch)
    rw [hmap, foldl_toDigits]
  · cases ht

theorem head?_natBytes (h : natBytes n = some text) (hn : 0 < n) : text.head? ≠ some (ascii '0') := by
  intro hhead
  obtain ⟨rfl, hvalue⟩ := natBytes_eq_some h
  have hdigits := head?_toDigits n hn
  cases hd : Nat.toDigits 10 n with
  | nil => exact Nat.toDigits_ne_nil hd
  | cons ch rest =>
    rw [hd] at hdigits hhead
    have hch : ch.isDigit = true :=
      Nat.isDigit_of_mem_toDigits (by decide) (by decide) (hd ▸ List.mem_cons_self : ch ∈ Nat.toDigits 10 n)
    simp only [Char.isDigit, ge_iff_le, Bool.and_eq_true, decide_eq_true_eq, UInt32.le_iff_toNat_le] at hch
    have hhigh : ch.toNat ≤ 57 := hch.2
    have hnat := congrArg UInt8.toNat (Option.some.inj hhead)
    rw [ascii, UInt8.toNat_ofNat_of_lt' (show ch.toNat < 256 by omega)] at hnat
    apply hdigits
    have hzero : ch = '0' := by
      apply Char.ext
      exact UInt32.toNat_inj.1 hnat
    rw [hzero]
    rfl

theorem strictInt_of_intBytes (h : intBytes i = some text) : strictInt text = some i := by
  cases i with
  | ofNat n =>
    obtain ⟨htext, hvalue⟩ := natBytes_eq_some h
    obtain ⟨hne, hall, -, -⟩ := digitsValue_eq_some hvalue
    cases text with
    | nil => exact absurd rfl hne
    | cons x rest =>
      have hminus : x ≠ ascii '-' := by
        rintro rfl
        exact absurd (hall _ List.mem_cons_self) (by decide)
      have hzero : ¬ (x = ascii '0' ∧ rest ≠ []) := by
        rintro ⟨rfl, hrest⟩
        cases Nat.eq_zero_or_pos n with
        | inl hn =>
          rw [hn, Nat.toDigits_zero] at htext
          exact hrest (List.cons.inj htext).2
        | inr hn => exact head?_natBytes h hn rfl
      rw [strictInt, if_neg hminus, if_neg hzero, hvalue]
      rfl
  | negSucc n =>
    obtain ⟨digits, hdigits, rfl⟩ := Option.map_eq_some_iff.1 h
    rw [strictInt, if_pos rfl, if_neg (head?_natBytes hdigits (Nat.succ_pos n)), (natBytes_eq_some hdigits).2]
    rfl

end Numbers

/-! ### The grammar -/

/-- What the grammar describes: a value, the items of a list or the entries of a dictionary. -/
inductive Part where
  | value (v : BVal)
  | items (items : List BVal)
  | entries (entries : List (BKey × BVal))

/-- The well-formed bencodings, with at most so many values inside one another. -/
inductive Encodes : Nat → Part → Bytes → Prop
  | int {n : Nat} {i : Int} {text : Bytes} (hint : strictInt text = some i) :
      Encodes (n + 1) (.value (.int i)) (ascii 'i' :: (text ++ [ascii 'e']))
  | bytes {n : Nat} {b text : Bytes} (hlength : digitsValue text = some b.length) :
      Encodes (n + 1) (.value (.bytes b)) (text ++ ascii ':' :: b)
  | list {n : Nat} {items : List BVal} {body : Bytes} (hbody : Encodes n (.items items) body) :
      Encodes (n + 1) (.value (.list items)) (ascii 'l' :: (body ++ [ascii 'e']))
  | dict {n : Nat} {entries : List (BKey × BVal)} {body : Bytes} (hbody : Encodes n (.entries entries) body)
      (hkeys : (entries.map Prod.fst).Nodup) :
      Encodes (n + 1) (.value (.dict entries)) (ascii 'd' :: (body ++ [ascii 'e']))
  | noItems {n : Nat} : Encodes n (.items []) []
  | item {n : Nat} {v : BVal} {items : List BVal} {first rest : Bytes} (hfirst : Encodes n (.value v) first)
      (hrest : Encodes n (.items items) rest) : Encodes n (.items (v :: items)) (first ++ rest)
  | noEntries {n : Nat} : Encodes n (.entries []) []
  | entry {n : Nat} {key : Bytes} {v : BVal} {entries : List (BKey × BVal)} {first second rest : Bytes}
      (hfirst : Encodes n (.value (.bytes key)) first) (hsecond : Encodes n (.value v) second)
      (hrest : Encodes n (.entries entries) rest) :
      Encodes n (.entries ((.bytes key, v) :: entries)) (first ++ (second ++ rest))

/-- A decoder reads the numbers and the keys of the grammar. -/
structure Reader.Follows {ε : Type} (r : Reader ε) : Prop where
  isDigit : ∀ x, isAsciiDigit x = true → r.isDigit x = true
  int : ∀ text i, strictInt text = some i → r.int text = .ok i
  length : ∀ text n, digitsValue text = some n → r.length text = .ok n
  key : ∀ b, r.key (.bytes b) = .ok (some (.bytes b))

section Reading

variable {ε : Type} {r : Reader ε} {text : Bytes} {n : Nat}

theorem notMem_of_digitsValue {x : UInt8} (hx : isAsciiDigit x = false) (h : digitsValue text = some n) : x ∉ text := by
  intro hmem
  rw [(digitsValue_eq_some h).2.1 x hmem] at hx
  cases hx

theorem notMem_of_strictInt {i : Int} (h : strictInt text = some i) : ascii 'e' ∉ text := by
  cases text with
  | nil => exact List.not_mem_nil
  | cons x rest =>
    rw [strictInt] at h
    by_cases hminus : x = ascii '-'
    · rw [if_pos hminus] at h
      split at h
      · cases h
      · obtain ⟨n, hn, -⟩ := Option.map_eq_some_iff.1 h
        rw [hminus, List.mem_cons, not_or]
        exact ⟨by decide, notMem_of_digitsValue (by decide) hn⟩
    · rw [if_neg hminus] at h
      split at h
      · cases h
      · obtain ⟨n, hn, -⟩ := Option.map_eq_some_iff.1 h
        exact notMem_of_digitsValue (by decide) hn

theorem upTo_append {stop : UInt8} (h : stop ∉ text) (rest : Bytes) :
    r.upTo stop (text ++ stop :: rest) = .ok (text, rest) := by
  have hne : ∀ x ∈ text, decide (x ≠ stop) = true := by
    intro x hx
    rw [decide_eq_true_iff]
    rintro rfl
    exact h hx
  rw [Reader.upTo, List.dropWhile_append_of_pos hne, List.takeWhile_append_of_pos hne]
  simp

theorem slice_append (b rest : Bytes) : r.slice b.length (b ++ rest) = .ok (b, rest) := by
  rw [Reader.slice, if_neg (by simp)]
  simp [pure, Except.pure]

theorem Encodes.exists_cons {v : BVal} (h : Encodes n (.value v) text) :
    ∃ x rest, text = x :: rest ∧ x ≠ ascii 'e' := by
  cases h with
  | int hint => exact ⟨_, _, rfl, by decide⟩
  | list hbody => exact ⟨_, _, rfl, by decide⟩
  | dict hbody hkeys => exact ⟨_, _, rfl, by decide⟩
  | bytes hlength =>
    obtain ⟨hne, hall, -, -⟩ := digitsValue_eq_some hlength
    obtain ⟨x, rest, rfl⟩ := List.exists_cons_of_ne_nil hne
    refine ⟨x, _, rfl, ?_⟩
    rintro rfl
    exact absurd (hall _ List.mem_cons_self) (by decide)

/-- The decoder reads what the grammar has for a part, and leaves the rest. The bytes of a loop's bound are those
that are left. -/
def Reads (r : Reader ε) (n : Nat) : Part → Bytes → Prop
  | .value v, text => ∀ rest, r.read n (text ++ rest) = .ok (v, rest)
  | .items items, text => ∀ rest bound, text.length ≤ bound →
      r.items (r.read n) (bound + 1) (text ++ ascii 'e' :: rest) = .ok (items, rest)
  | .entries entries, text => ∀ before rest bound, text.length ≤ bound →
      (before.map Prod.fst ++ entries.map Prod.fst).Nodup →
      r.entries (r.read n) (bound + 1) before (text ++ ascii 'e' :: rest) = .ok (before ++ entries, rest)

theorem reads_int (hr : r.Follows) {i : Int} (hint : strictInt text = some i) :
    Reads r (n + 1) (.value (.int i)) (ascii 'i' :: (text ++ [ascii 'e'])) := by
  intro rest
  have hdata : ascii 'i' :: (text ++ [ascii 'e']) ++ rest = ascii 'i' :: (text ++ ascii 'e' :: rest) := by simp
  rw [hdata, Reader.read, if_neg (by decide), if_neg (by decide), if_pos rfl, upTo_append (notMem_of_strictInt hint)]
  show (do let i ← r.int text; return (BVal.int i, rest)) = _
  rw [hr.int text i hint]
  rfl

theorem reads_bytes (hr : r.Follows) {b : Bytes} (hlength : digitsValue text = some b.length) :
    Reads r (n + 1) (.value (.bytes b)) (text ++ ascii ':' :: b) := by
  intro rest
  have hcolon : ascii ':' ∉ text := notMem_of_digitsValue (by decide) hlength
  have hupTo := upTo_append (r := r) hcolon (b ++ rest)
  obtain ⟨hne, hall, -, -⟩ := digitsValue_eq_some hlength
  obtain ⟨x, digits, rfl⟩ := List.exists_cons_of_ne_nil hne
  have hx := hall x List.mem_cons_self
  have hother : ∀ ch : Char, isAsciiDigit (ascii ch) = false → x ≠ ascii ch := by
    rintro ch hch rfl
    rw [hx] at hch
    cases hch
  have hdata : x :: digits ++ ascii ':' :: b ++ rest = x :: (digits ++ ascii ':' :: (b ++ rest)) := by simp
  rw [hdata, Reader.read, if_neg (hother 'd' (by decide)), if_neg (hother 'l' (by decide)),
    if_neg (hother 'i' (by decide)), if_pos (hr.isDigit x hx)]
  rw [List.cons_append] at hupTo
  simp only [hupTo, hr.length _ _ hlength, bind, Except.bind, slice_append]
  rfl

theorem reads_list {items : List BVal} {body : Bytes} (hbody : Reads r n (.items items) body) :
    Reads r (n + 1) (.value (.list items)) (ascii 'l' :: (body ++ [ascii 'e'])) := by
  intro rest
  have hdata : ascii 'l' :: (body ++ [ascii 'e']) ++ rest = ascii 'l' :: (body ++ ascii 'e' :: rest) := by simp
  have hlength : (body ++ ascii 'e' :: rest).length = body.length + rest.length + 1 := by
    simp only [List.length_append, List.length_cons]
    omega
  rw [hdata, Reader.read, if_neg (by decide), if_pos rfl, hlength, hbody rest _ (by omega)]
  rfl

theorem reads_dict {entries : List (BKey × BVal)} {body : Bytes} (hbody : Reads r n (.entries entries) body)
    (hkeys : (entries.map Prod.fst).Nodup) :
    Reads r (n + 1) (.value (.dict entries)) (ascii 'd' :: (body ++ [ascii 'e'])) := by
  intro rest
  have hdata : ascii 'd' :: (body ++ [ascii 'e']) ++ rest = ascii 'd' :: (body ++ ascii 'e' :: rest) := by simp
  have hlength : (body ++ ascii 'e' :: rest).length = body.length + rest.length + 1 := by
    simp only [List.length_append, List.length_cons]
    omega
  rw [hdata, Reader.read, if_pos rfl, hlength, hbody [] rest _ (by omega) hkeys]
  rfl

theorem reads_item {v : BVal} {items : List BVal} {first rest : Bytes} (hfirst : Encodes n (.value v) first)
    (hreads : Reads r n (.value v) first) (hrest : Reads r n (.items items) rest) :
    Reads r n (.items (v :: items)) (first ++ rest) := by
  intro after bound hbound
  obtain ⟨x, more, rfl, hx⟩ := hfirst.exists_cons
  have hdata : x :: more ++ rest ++ ascii 'e' :: after = x :: (more ++ (rest ++ ascii 'e' :: after)) := by simp
  have hvalue := hreads (rest ++ ascii 'e' :: after)
  rw [List.cons_append] at hvalue
  simp only [List.length_append, List.length_cons] at hbound
  obtain ⟨bound, rfl⟩ : ∃ m, bound = m + 1 := ⟨bound - 1, by omega⟩
  rw [hdata, Reader.items, if_neg hx, hvalue]
  simp only [bind, Except.bind, hrest after bound (by omega)]
  rfl

theorem reads_entry (hr : r.Follows) {key : Bytes} {v : BVal} {entries : List (BKey × BVal)}
    {first second rest : Bytes} (hfirst : Encodes n (.value (.bytes key)) first)
    (hkey : Reads r n (.value (.bytes key)) first) (hvalue : Reads r n (.value v) second)
    (hrest : Reads r n (.entries entries) rest) :
    Reads r n (.entries ((.bytes key, v) :: entries)) (first ++ (second ++ rest)) := by
  intro before after bound hbound hnodup
  obtain ⟨x, more, rfl, hx⟩ := hfirst.exists_cons
  have hdata : x :: more ++ (second ++ rest) ++ ascii 'e' :: after =
      x :: (more ++ (second ++ (rest ++ ascii 'e' :: after))) := by simp
  have hread := hkey (second ++ (rest ++ ascii 'e' :: after))
  rw [List.cons_append] at hread
  simp only [List.length_append, List.length_cons] at hbound
  obtain ⟨bound, rfl⟩ : ∃ m, bound = m + 1 := ⟨bound - 1, by omega⟩
  have hnew : BKey.bytes key ∉ before.map Prod.fst := by
    intro hmem
    exact (List.nodup_append.1 hnodup).2.2 _ hmem _ List.mem_cons_self rfl
  have hassign : r.assign before (.bytes key) v = .ok (before ++ [(.bytes key, v)]) := by
    rw [Reader.assign, hr.key]
    show (if BKey.bytes key ∈ before.map Prod.fst then _ else _) = _
    rw [if_neg hnew, assignEntry, if_neg hnew]
    rfl
  rw [hdata, Reader.entries, if_neg hx, hread]
  simp only [bind, Except.bind, hvalue (rest ++ ascii 'e' :: after), hassign]
  rw [hrest _ after bound (by omega)]
  · rw [List.append_assoc]
    rfl
  · rw [List.map_append, List.append_assoc]
    exact hnodup

theorem Encodes.reads {part : Part} (h : Encodes n part text) (hr : r.Follows) : Reads r n part text := by
  induction h with
  | int hint => exact reads_int hr hint
  | bytes hlength => exact reads_bytes hr hlength
  | list hbody ih => exact reads_list ih
  | dict hbody hkeys ih => exact reads_dict ih hkeys
  | noItems =>
    intro rest bound _
    rw [List.nil_append, Reader.items, if_pos rfl]
  | item hfirst hrest ihfirst ihrest => exact reads_item hfirst ihfirst ihrest
  | noEntries =>
    intro before rest bound _ _
    rw [List.nil_append, Reader.entries, if_pos rfl, List.append_nil]
  | entry hfirst hsecond hrest ihfirst ihsecond ihrest => exact reads_entry hr hfirst ihfirst ihsecond ihrest

end Reading

end Hledac.Dht
