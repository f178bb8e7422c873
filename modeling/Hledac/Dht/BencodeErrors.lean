import Hledac.Dht.BencodeCodecs

/-!
# Malformed data

`bdecode` goes on where strings are cut off, containers are not closed, numbers have signs, underscores or blanks
and keys are no byte strings. A strict reading of the grammar tells where it first meets such a defect, and where
it meets what `bdecode` refuses with `ValueError` as well.
-/

namespace Hledac.Dht

open Hledac.Lib Hledac.Py

/-! ### A strict reading -/

/-- What a strict reading stops at. -/
inductive Flaw where
  /-- An unexpected byte, the end of the data, a missing terminator or no number: `bdecode` raises `ValueError`. -/
  | rejected
  /-- What the grammar forbids and `bdecode` does not refuse. -/
  | defect
  deriving DecidableEq

/-- A number, or whether `int` would take the text. -/
def strictNumber {α : Type} (number : Option α) (text : Bytes) : Except Flaw α :=
  match number with
  | some n => .ok n
  | none => if (intOfBytes text).isSome then .error .defect else .error .rejected

/-- The grammar, read strictly. -/
def strictReader : Reader Flaw where
  tooDeep := .defect
  missing := .rejected
  atEnd := .error .rejected
  unclosed := .error .defect
  short := .error .defect
  isDigit := isAsciiDigit
  unknown := .error .rejected
  int text := strictNumber (strictInt text) text
  length text := strictNumber (digitsValue text) text
  key
    | .bytes b => .ok (some (.bytes b))
    | _ => .error .defect
  again := .error .defect

/-- The data have a defect, met before anything that is refused. -/
def MeetsDefect (limit : Nat) (data : Bytes) : Prop := strictReader.read limit data = .error .defect

/-! ### The strict reading and `bdecode` -/

section Simulation

variable {α β : Type}

/-- Where the strict reading returns, `bdecode` returns the same, and where it rejects, `bdecode` raises
`ValueError`. -/
def Simulates (x : Except Flaw α) (y : Except ExcClass α) : Prop :=
  match x with
  | .ok a => y = .ok a
  | .error .rejected => y = .error .valueError
  | .error .defect => True

theorem Simulates.bind {x : Except Flaw α} {y : Except ExcClass α} (h : Simulates x y) {f : α → Except Flaw β}
    {g : α → Except ExcClass β} (hfg : ∀ a, Simulates (f a) (g a)) : Simulates (x >>= f) (y >>= g) := by
  cases x with
  | ok a =>
    have hy : y = .ok a := h
    rw [hy]
    exact hfg a
  | error flaw =>
    cases flaw with
    | rejected =>
      have hy : y = .error .valueError := h
      rw [hy]
      rfl
    | defect => exact trivial

theorem simulates_pure (a : α) : Simulates (pure a) (pure a) := rfl

theorem simulates_upTo (stop : UInt8) (data : Bytes) :
    Simulates (strictReader.upTo stop data) (bdecodeReader.upTo stop data) := by
  rw [Reader.upTo, Reader.upTo]
  cases data.dropWhile (· ≠ stop) with
  | nil => rfl
  | cons x rest => rfl

theorem simulates_slice (length : Nat) (data : Bytes) :
    Simulates (strictReader.slice length data) (bdecodeReader.slice length data) := by
  rw [Reader.slice, Reader.slice]
  split
  · exact trivial
  · rfl

theorem simulates_int (text : Bytes) : Simulates (strictReader.int text) (bdecodeReader.int text) := by
  show Simulates (strictNumber (strictInt text) text) (intOr .valueError text)
  cases hstrict : strictInt text with
  | some i =>
    rw [intOr, intOfBytes_of_strictInt hstrict]
    rfl
  | none =>
    rw [strictNumber, intOr]
    cases intOfBytes text with
    | some i => exact trivial
    | none => rfl

theorem simulates_length (text : Bytes) : Simulates (strictReader.length text) (bdecodeReader.length text) := by
  show Simulates (strictNumber (digitsValue text) text) ((intOr .valueError text).map Int.toNat)
  cases hstrict : digitsValue text with
  | some n =>
    rw [intOr, intOfBytes_of_digitsValue hstrict]
    rfl
  | none =>
    rw [strictNumber, intOr]
    cases intOfBytes text with
    | some i => exact trivial
    | none => rfl

theorem simulates_assign (entries : List (BKey × BVal)) (key value : BVal) :
    Simulates (strictReader.assign entries key value) (bdecodeReader.assign entries key value) := by
  cases key with
  | bytes b =>
    show Simulates (if _ ∈ _ then _ else _) (if _ ∈ _ then _ else _)
    split
    · exact trivial
    · rfl
  | none => exact trivial
  | int i => exact trivial
  | list items => exact trivial
  | dict entries => exact trivial

variable {value : Bytes → Except Flaw (BVal × Bytes)} {value' : Bytes → Except ExcClass (BVal × Bytes)}

theorem simulates_items (h : ∀ data, Simulates (value data) (value' data)) (bound : Nat) (data : Bytes) :
    Simulates (strictReader.items value bound data) (bdecodeReader.items value' bound data) := by
  induction bound generalizing data with
  | zero => exact trivial
  | succ bound ih =>
    cases data with
    | nil => exact trivial
    | cons x rest =>
      rw [Reader.items, Reader.items]
      split
      · rfl
      · exact (h _).bind fun first => (ih first.2).bind fun more => simulates_pure _

theorem simulates_entries (h : ∀ data, Simulates (value data) (value' data)) (bound : Nat)
    (before : List (BKey × BVal)) (data : Bytes) :
    Simulates (strictReader.entries value bound before data) (bdecodeReader.entries value' bound before data) := by
  induction bound generalizing before data with
  | zero => exact trivial
  | succ bound ih =>
    cases data with
    | nil => exact trivial
    | cons x rest =>
      rw [Reader.entries, Reader.entries]
      split
      · rfl
      · exact (h _).bind fun first => (h _).bind fun second =>
          (simulates_assign before first.1 second.1).bind fun before => ih before second.2

theorem simulates_read (n : Nat) (data : Bytes) : Simulates (strictReader.read n data) (bdecodeReader.read n data) := by
  induction n generalizing data with
  | zero => exact trivial
  | succ n ih =>
    cases data with
    | nil => rfl
    | cons x rest =>
      rw [Reader.read, Reader.read]
      by_cases hd : x = ascii 'd'
      · rw [if_pos hd, if_pos hd]
        exact (simulates_entries ih _ _ _).bind fun _ => simulates_pure _
      rw [if_neg hd, if_neg hd]
      by_cases hl : x = ascii 'l'
      · rw [if_pos hl, if_pos hl]
        exact (simulates_items ih _ _).bind fun _ => simulates_pure _
      rw [if_neg hl, if_neg hl]
      by_cases hi : x = ascii 'i'
      · rw [if_pos hi, if_pos hi]
        exact (simulates_upTo _ _).bind fun text => (simulates_int text.1).bind fun _ => simulates_pure _
      rw [if_neg hi, if_neg hi]
      by_cases hdigit : isAsciiDigit x = true
      · rw [if_pos (show strictReader.isDigit x = true from hdigit),
          if_pos (show bdecodeReader.isDigit x = true from hdigit)]
        exact (simulates_upTo _ _).bind fun text => (simulates_length text.1).bind fun length =>
          (simulates_slice length text.2).bind fun _ => simulates_pure _
      · rw [if_neg (show ¬ strictReader.isDigit x = true from hdigit),
          if_neg (show ¬ bdecodeReader.isDigit x = true from hdigit)]
        rfl

end Simulation

/-! ### What the strict reading accepts -/

section Accepted

variable {n : Nat} {data rest : Bytes}

theorem strictReader_follows : strictReader.Follows where
  isDigit _ h := h
  int text i h := by
    show strictNumber (strictInt text) text = _
    rw [h]
    rfl
  length text n h := by
    show strictNumber (digitsValue text) text = _
    rw [h]
    rfl
  key _ := rfl

theorem append_of_upTo {ε : Type} {r : Reader ε} {stop : UInt8} {text : Bytes}
    (h : r.upTo stop data = .ok (text, rest)) :
    data = text ++ stop :: rest := by
  rw [Reader.upTo] at h
  cases hdrop : data.dropWhile (· ≠ stop) with
  | nil =>
    rw [hdrop] at h
    cases h
  | cons x after =>
    rw [hdrop] at h
    cases h
    have hx := List.head_dropWhile_not (· ≠ stop) (l := data) (by rw [hdrop]; simp)
    simp only [hdrop, List.head_cons, decide_eq_false_iff_not, not_not] at hx
    have hrest : stop :: rest = data.dropWhile (· ≠ stop) := by rw [hdrop, hx]
    rw [hrest, List.takeWhile_append_dropWhile]

theorem append_of_slice {length : Nat} {b : Bytes} (h : strictReader.slice length data = .ok (b, rest)) :
    data = b ++ rest ∧ b.length = length := by
  rw [Reader.slice] at h
  split at h
  · cases h
  · next hlength =>
    cases h
    rw [List.take_append_drop, List.length_take]
    exact ⟨rfl, by omega⟩

theorem eq_some_of_strictNumber {α : Type} {number : Option α} {text : Bytes} {a : α}
    (h : strictNumber number text = .ok a) : number = some a := by
  cases number with
  | some n =>
    cases h
    rfl
  | none =>
    rw [strictNumber] at h
    split at h
    · cases h
    · cases h

/-- The strict reading of a value accepts well-formed bencodings only. -/
def Accepts (n : Nat) (value : Bytes → Except Flaw (BVal × Bytes)) : Prop :=
  ∀ data v rest, value data = .ok (v, rest) → ∃ text, data = text ++ rest ∧ Encodes n (.value v) text

theorem encodes_of_items {value : Bytes → Except Flaw (BVal × Bytes)} (hvalue : Accepts n value) {bound : Nat}
    {items : List BVal} (h : strictReader.items value bound data = .ok (items, rest)) :
    ∃ text, data = text ++ ascii 'e' :: rest ∧ Encodes n (.items items) text := by
  induction bound generalizing data items with
  | zero => cases h
  | succ bound ih =>
    cases data with
    | nil => cases h
    | cons x more =>
      rw [Reader.items] at h
      by_cases hx : x = ascii 'e'
      · rw [if_pos hx] at h
        cases h
        exact ⟨[], by rw [hx]; rfl, .noItems⟩
      · rw [if_neg hx] at h
        obtain ⟨⟨v, left⟩, hv, h⟩ := Raising.bind_eq_ok_iff.1 h
        obtain ⟨⟨vs, left'⟩, hvs, h⟩ := Raising.bind_eq_ok_iff.1 h
        cases h
        obtain ⟨first, hfirst, henc⟩ := hvalue _ _ _ hv
        obtain ⟨text, htext, hitems⟩ := ih hvs
        exact ⟨first ++ text, by rw [hfirst, htext, List.append_assoc], .item henc hitems⟩

theorem eq_of_assign {entries after : List (BKey × BVal)} {key v : BVal}
    (h : strictReader.assign entries key v = .ok after) :
    ∃ b, key = .bytes b ∧ .bytes b ∉ entries.map Prod.fst ∧ after = entries ++ [(.bytes b, v)] := by
  cases key with
  | bytes b =>
    by_cases hmem : BKey.bytes b ∈ entries.map Prod.fst
    · have h : (if BKey.bytes b ∈ entries.map Prod.fst then _ else _) = _ := h
      rw [if_pos hmem] at h
      cases h
    · have h : (if BKey.bytes b ∈ entries.map Prod.fst then _ else _) = _ := h
      rw [if_neg hmem, assignEntry, if_neg hmem] at h
      exact ⟨b, rfl, hmem, (Except.ok.inj h).symm⟩
  | none => cases h
  | int i => cases h
  | list items => cases h
  | dict entries => cases h

theorem encodes_of_entries {value : Bytes → Except Flaw (BVal × Bytes)} (hvalue : Accepts n value) {bound : Nat}
    {before entries : List (BKey × BVal)} (h : strictReader.entries value bound before data = .ok (entries, rest)) :
    ∃ more text, entries = before ++ more ∧ data = text ++ ascii 'e' :: rest ∧ Encodes n (.entries more) text ∧
      ((before.map Prod.fst).Nodup → (entries.map Prod.fst).Nodup) := by
  induction bound generalizing data before with
  | zero => cases h
  | succ bound ih =>
    cases data with
    | nil => cases h
    | cons x left =>
      rw [Reader.entries] at h
      by_cases hx : x = ascii 'e'
      · rw [if_pos hx] at h
        cases h
        exact ⟨[], [], (List.append_nil _).symm, by rw [hx]; rfl, .noEntries, id⟩
      · rw [if_neg hx] at h
        obtain ⟨⟨key, left₁⟩, hkey, h⟩ := Raising.bind_eq_ok_iff.1 h
        obtain ⟨⟨v, left₂⟩, hv, h⟩ := Raising.bind_eq_ok_iff.1 h
        obtain ⟨after, hafter, h⟩ := Raising.bind_eq_ok_iff.1 h
        obtain ⟨b, rfl, hnew, rfl⟩ := eq_of_assign hafter
        obtain ⟨first, hfirst, henc⟩ := hvalue _ _ _ hkey
        obtain ⟨second, hsecond, henc'⟩ := hvalue _ _ _ hv
        obtain ⟨more, text, hentries, htext, hmore, hnodup⟩ := ih h
        refine ⟨(.bytes b, v) :: more, first ++ (second ++ text), ?_, ?_, .entry henc henc' hmore, ?_⟩
        · rw [hentries, List.append_assoc]
          rfl
        · rw [hfirst, show left₁ = _ from hsecond, show left₂ = _ from htext, List.append_assoc, List.append_assoc]
        · intro hbefore
          apply hnodup
          rw [List.map_append, List.map_singleton, List.nodup_append]
          refine ⟨hbefore, List.nodup_singleton _, ?_⟩
          intro a ha c hc heq
          have heq : a = .bytes b := heq.trans (List.mem_singleton.1 hc)
          exact hnew (heq ▸ ha)

theorem accepts_read (n : Nat) : Accepts n (strictReader.read n) := by
  induction n with
  | zero =>
    intro data v rest h
    cases h
  | succ n ih =>
    intro data v rest h
    cases data with
    | nil => cases h
    | cons x left =>
      rw [Reader.read] at h
      by_cases hd : x = ascii 'd'
      · rw [if_pos hd] at h
        obtain ⟨⟨entries, left'⟩, hentries, h⟩ := Raising.bind_eq_ok_iff.1 h
        cases h
        obtain ⟨more, text, hmore, htext, henc, hnodup⟩ := encodes_of_entries ih hentries
        have hmore : entries = more := hmore
        refine ⟨ascii 'd' :: (text ++ [ascii 'e']), ?_, .dict (hmore ▸ henc) (hnodup List.nodup_nil)⟩
        rw [hd, htext]
        simp
      rw [if_neg hd] at h
      by_cases hl : x = ascii 'l'
      · rw [if_pos hl] at h
        obtain ⟨⟨items, left'⟩, hitems, h⟩ := Raising.bind_eq_ok_iff.1 h
        cases h
        obtain ⟨text, htext, henc⟩ := encodes_of_items ih hitems
        refine ⟨ascii 'l' :: (text ++ [ascii 'e']), ?_, .list henc⟩
        rw [hl, htext]
        simp
      rw [if_neg hl] at h
      by_cases hi : x = ascii 'i'
      · rw [if_pos hi] at h
        obtain ⟨⟨text, left'⟩, htext, h⟩ := Raising.bind_eq_ok_iff.1 h
        obtain ⟨i, hint, h⟩ := Raising.bind_eq_ok_iff.1 h
        cases h
        refine ⟨ascii 'i' :: (text ++ [ascii 'e']), ?_, .int (eq_some_of_strictNumber hint)⟩
        rw [hi, append_of_upTo htext]
        simp
      rw [if_neg hi] at h
      by_cases hdigit : isAsciiDigit x = true
      · rw [if_pos (show strictReader.isDigit x = true from hdigit)] at h
        obtain ⟨⟨text, left'⟩, htext, h⟩ := Raising.bind_eq_ok_iff.1 h
        obtain ⟨length, hlength, h⟩ := Raising.bind_eq_ok_iff.1 h
        obtain ⟨⟨b, left''⟩, hslice, h⟩ := Raising.bind_eq_ok_iff.1 h
        cases h
        obtain ⟨heq, hlen⟩ := append_of_slice hslice
        refine ⟨text ++ ascii ':' :: b, ?_, .bytes (hlen ▸ eq_some_of_strictNumber hlength)⟩
        rw [append_of_upTo htext, show left' = _ from heq]
        simp
      · rw [if_neg (show ¬ strictReader.isDigit x = true from hdigit)] at h
        cases h

end Accepted

/-! ### Depth -/

section Depth

variable {n : Nat} {data rest : Bytes}

theorem depthEntries_le_iff {entries : List (BKey × BVal)} :
    depthEntries entries ≤ n ↔ ∀ e ∈ entries, depth e.2 ≤ n := by
  induction entries with
  | nil => simp [depthEntries]
  | cons e rest ih =>
    obtain ⟨k, v⟩ := e
    rw [depthEntries, max_le_iff, ih, List.forall_mem_cons]

/-- The depth of a part. -/
def Part.depth : Part → Nat
  | .value v => Dht.depth v
  | .items vs => depthItems vs
  | .entries es => depthEntries es

theorem Encodes.of_depth_le {part : Part} {text : Bytes} (h : Encodes n part text) {m : Nat} (hm : part.depth ≤ m) :
    Encodes m part text := by
  induction h generalizing m with
  | int hint =>
    have hm : 1 ≤ m := hm
    obtain ⟨m, rfl⟩ : ∃ k, m = k + 1 := ⟨m - 1, by omega⟩
    exact .int hint
  | bytes hlength =>
    have hm : 1 ≤ m := hm
    obtain ⟨m, rfl⟩ : ∃ k, m = k + 1 := ⟨m - 1, by omega⟩
    exact .bytes hlength
  | list hbody ih =>
    rw [Part.depth, Dht.depth] at hm
    obtain ⟨m, rfl⟩ : ∃ k, m = k + 1 := ⟨m - 1, by omega⟩
    exact .list (ih (Nat.le_of_succ_le_succ hm))
  | dict hbody hkeys ih =>
    rw [Part.depth, Dht.depth] at hm
    obtain ⟨m, rfl⟩ : ∃ k, m = k + 1 := ⟨m - 1, by omega⟩
    exact .dict (ih (Nat.le_of_succ_le_succ hm)) hkeys
  | noItems => exact .noItems
  | item hfirst hrest ihfirst ihrest =>
    rw [Part.depth, depthItems, max_le_iff] at hm
    exact .item (ihfirst hm.1) (ihrest hm.2)
  | noEntries => exact .noEntries
  | @entry n key v entries first second rest hfirst hsecond hrest ihfirst ihsecond ihrest =>
    rw [Part.depth, depthEntries, max_le_iff] at hm
    exact .entry (ihfirst (Nat.le_trans (depth_pos v) hm.1)) (ihsecond hm.1) (ihrest hm.2)

theorem depth_le_of_items {value : Bytes → Except ExcClass (BVal × Bytes)}
    (hvalue : ∀ data v rest, value data = .ok (v, rest) → depth v ≤ n) {bound : Nat} {items : List BVal}
    (h : bdecodeReader.items value bound data = .ok (items, rest)) : depthItems items ≤ n := by
  induction bound generalizing data items with
  | zero =>
    cases h
    exact Nat.zero_le n
  | succ bound ih =>
    cases data with
    | nil =>
      cases h
      exact Nat.zero_le n
    | cons x more =>
      rw [Reader.items] at h
      split at h
      · cases h
        exact Nat.zero_le n
      · obtain ⟨⟨v, left⟩, hv, h⟩ := Raising.bind_eq_ok_iff.1 h
        obtain ⟨⟨vs, left'⟩, hvs, h⟩ := Raising.bind_eq_ok_iff.1 h
        cases h
        exact Nat.max_le.2 ⟨hvalue _ _ _ hv, ih hvs⟩

theorem depth_le_of_assign {entries after : List (BKey × BVal)} {key v : BVal} (hentries : depthEntries entries ≤ n)
    (hv : depth v ≤ n) (h : bdecodeReader.assign entries key v = .ok after) : depthEntries after ≤ n := by
  rw [depthEntries_le_iff] at hentries ⊢
  obtain ⟨k, -, hafter⟩ : ∃ k, asKey key = .ok k ∧ after = assignEntry entries k v := by
    rw [Reader.assign] at h
    obtain ⟨key', hkey, h⟩ := Raising.bind_eq_ok_iff.1 h
    have hkey : (asKey key).map some = .ok key' := hkey
    cases hk : asKey key with
    | error e =>
      rw [hk] at hkey
      cases hkey
    | ok k =>
      rw [hk] at hkey
      cases hkey
      refine ⟨k, rfl, ?_⟩
      by_cases hmem : k ∈ entries.map Prod.fst
      · have h : (if k ∈ entries.map Prod.fst then _ else _) = _ := h
        rw [if_pos hmem] at h
        exact (Except.ok.inj h).symm
      · have h : (if k ∈ entries.map Prod.fst then _ else _) = _ := h
        rw [if_neg hmem] at h
        exact (Except.ok.inj h).symm
  rw [hafter, assignEntry]
  split
  · intro e he
    obtain ⟨e', he', rfl⟩ := List.mem_map.1 he
    split
    · exact hv
    · exact hentries e' he'
  · intro e he
    cases List.mem_append.1 he with
    | inl hold => exact hentries e hold
    | inr hnew => exact List.mem_singleton.1 hnew ▸ hv

theorem depth_le_of_entries {value : Bytes → Except ExcClass (BVal × Bytes)}
    (hvalue : ∀ data v rest, value data = .ok (v, rest) → depth v ≤ n) {bound : Nat}
    {before entries : List (BKey × BVal)} (hbefore : depthEntries before ≤ n)
    (h : bdecodeReader.entries value bound before data = .ok (entries, rest)) : depthEntries entries ≤ n := by
  induction bound generalizing data before with
  | zero =>
    cases h
    exact hbefore
  | succ bound ih =>
    cases data with
    | nil =>
      cases h
      exact hbefore
    | cons x more =>
      rw [Reader.entries] at h
      split at h
      · cases h
        exact hbefore
      · obtain ⟨⟨key, left⟩, -, h⟩ := Raising.bind_eq_ok_iff.1 h
        obtain ⟨⟨v, left'⟩, hv, h⟩ := Raising.bind_eq_ok_iff.1 h
        obtain ⟨after, hafter, h⟩ := Raising.bind_eq_ok_iff.1 h
        exact ih (depth_le_of_assign hbefore (hvalue _ _ _ hv) hafter) h

theorem depth_le_of_read : ∀ (n : Nat) (data : Bytes) (v : BVal) (rest : Bytes),
    bdecodeReader.read n data = .ok (v, rest) → depth v ≤ n := by
  intro n
  induction n with
  | zero =>
    intro data v rest h
    cases h
  | succ n ih =>
    intro data v rest h
    cases data with
    | nil => cases h
    | cons x left =>
      rw [Reader.read] at h
      split at h
      · obtain ⟨⟨entries, left'⟩, hentries, h⟩ := Raising.bind_eq_ok_iff.1 h
        cases h
        exact Nat.succ_le_succ (depth_le_of_entries ih (show depthEntries [] ≤ n from Nat.zero_le n) hentries)
      split at h
      · obtain ⟨⟨items, left'⟩, hitems, h⟩ := Raising.bind_eq_ok_iff.1 h
        cases h
        exact Nat.succ_le_succ (depth_le_of_items ih hitems)
      split at h
      · obtain ⟨text, -, h⟩ := Raising.bind_eq_ok_iff.1 h
        obtain ⟨i, -, h⟩ := Raising.bind_eq_ok_iff.1 h
        cases h
        exact Nat.succ_le_succ (Nat.zero_le n)
      split at h
      · obtain ⟨text, -, h⟩ := Raising.bind_eq_ok_iff.1 h
        obtain ⟨length, -, h⟩ := Raising.bind_eq_ok_iff.1 h
        obtain ⟨b, -, h⟩ := Raising.bind_eq_ok_iff.1 h
        cases h
        exact Nat.succ_le_succ (Nat.zero_le n)
      · cases h

end Depth

/-! ### What the decoders make of malformed data -/

/-- The data start with a well-formed bencoding of the value. -/
def StartsWith (data : Bytes) (v : BVal) : Prop := ∃ n text rest, data = text ++ rest ∧ Encodes n (.value v) text

/-- `bdecode` refuses the data or returns what they start with, and `safe_bdecode` returns a dictionary or `None`. -/
def Withstands (limit : Nat) (data : Bytes) : Prop :=
  (bdecode limit data = .error .valueError ∨ ∃ v, bdecode limit data = .ok v ∧ StartsWith data v) ∧
    ∃ result, safeBdecode limit data = .ok result ∧ ∀ v, result = some v → ∃ entries, v = .dict entries

section Withstands

variable {limit : Nat} {data : Bytes}

theorem safeBdecode_of_ok {v : BVal} (h : bdecode limit data = .ok v) :
    ∃ result, safeBdecode limit data = .ok result ∧ ∀ v, result = some v → ∃ entries, v = .dict entries := by
  rw [safeBdecode, h]
  cases v with
  | dict entries => exact ⟨_, rfl, fun v hv => ⟨entries, (Option.some.inj hv).symm⟩⟩
  | none => exact ⟨none, rfl, fun v hv => by cases hv⟩
  | int i => exact ⟨none, rfl, fun v hv => by cases hv⟩
  | bytes b => exact ⟨none, rfl, fun v hv => by cases hv⟩
  | list items => exact ⟨none, rfl, fun v hv => by cases hv⟩

theorem withstands_of_valueError (h : bdecode limit data = .error .valueError) : Withstands limit data := by
  refine ⟨Or.inl h, none, ?_, fun v hv => by cases hv⟩
  rw [safeBdecode, h]

theorem not_meetsDefect_of_startsWith {v : BVal} (h : bdecode limit data = .ok v) (hstarts : StartsWith data v) :
    ¬ MeetsDefect limit data := by
  intro hdefect
  obtain ⟨n, text, rest, rfl, henc⟩ := hstarts
  have hdepth : depth v ≤ limit := by
    rw [bdecode] at h
    cases hread : bdecodeReader.read limit (text ++ rest) with
    | error e =>
      rw [hread] at h
      cases h
    | ok p =>
      rw [hread] at h
      cases h
      exact depth_le_of_read limit _ p.1 p.2 hread
  have hstrict := (henc.of_depth_le hdepth).reads strictReader_follows rest
  rw [MeetsDefect, hstrict] at hdefect
  cases hdefect

/-- `bdecode` and `safe_bdecode` withstand data in which no defect is met before the value ends or is refused. Where
one is met, they do so only by a `ValueError` further on. -/
theorem withstands_iff (limit : Nat) (data : Bytes) :
    (¬ MeetsDefect limit data → Withstands limit data) ∧
      (MeetsDefect limit data → (Withstands limit data ↔ bdecode limit data = .error .valueError)) := by
  constructor
  · intro hnone
    have hsim := simulates_read limit data
    cases hstrict : strictReader.read limit data with
    | ok p =>
      rw [hstrict] at hsim
      have hread : bdecodeReader.read limit data = .ok p := hsim
      obtain ⟨text, htext, henc⟩ := accepts_read limit data p.1 p.2 hstrict
      have hok : bdecode limit data = .ok p.1 := by
        rw [bdecode, hread]
        rfl
      exact ⟨Or.inr ⟨p.1, hok, limit, text, p.2, htext, henc⟩, safeBdecode_of_ok hok⟩
    | error flaw =>
      cases flaw with
      | defect => exact absurd hstrict hnone
      | rejected =>
        rw [hstrict] at hsim
        have hread : bdecodeReader.read limit data = .error .valueError := hsim
        apply withstands_of_valueError
        rw [bdecode, hread]
        rfl
  · intro hdefect
    constructor
    · intro h
      cases h.1 with
      | inl herror => exact herror
      | inr hok =>
        obtain ⟨v, hok, hstarts⟩ := hok
        exact absurd hdefect (not_meetsDefect_of_startsWith hok hstarts)
    · exact withstands_of_valueError

/-- A list as a key makes `safe_bdecode` raise, and a string that is cut off is taken as it is. -/
theorem not_withstands :
    safeBdecode 1000 ("dlei0ee".toList.map ascii) = .error .typeError ∧
      ¬ Withstands 1000 ("dlei0ee".toList.map ascii) ∧
      bdecode 1000 ("5:ab".toList.map ascii) = .ok (.bytes [ascii 'a', ascii 'b']) := by
  have hraises : safeBdecode 1000 ("dlei0ee".toList.map ascii) = .error .typeError := rfl
  refine ⟨hraises, ?_, rfl⟩
  intro ⟨_, result, hresult, _⟩
  rw [hraises] at hresult
  cases hresult

end Withstands

end Hledac.Dht
