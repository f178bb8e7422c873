import Hledac.Dht.BencodeGrammar
import Hledac.Lib.Raising

/-!
# The codecs on values with byte keys

What an encoder writes is a well-formed bencoding of the value with the entries in its order, and every decoder
reads it. The codecs write the same bytes for a value exactly when the keys of all its dictionaries ascend.
-/

namespace Hledac.Dht

open Hledac.Lib Hledac.Py

/-! ### Values -/

mutual

/-- All values inside a value, and the value itself. -/
def Everywhere (P : BVal → Prop) : BVal → Prop
  | .list items => P (.list items) ∧ EverywhereItems P items
  | .dict entries => P (.dict entries) ∧ EverywhereEntries P entries
  | .none => P .none
  | .int i => P (.int i)
  | .bytes b => P (.bytes b)

def EverywhereItems (P : BVal → Prop) : List BVal → Prop
  | [] => True
  | v :: rest => Everywhere P v ∧ EverywhereItems P rest

def EverywhereEntries (P : BVal → Prop) : List (BKey × BVal) → Prop
  | [] => True
  | (_, v) :: rest => Everywhere P v ∧ EverywhereEntries P rest

end

mutual

/-- How many values stand inside one another. -/
def depth : BVal → Nat
  | .none => 1
  | .int _ => 1
  | .bytes _ => 1
  | .list items => depthItems items + 1
  | .dict entries => depthEntries entries + 1

def depthItems : List BVal → Nat
  | [] => 0
  | v :: rest => max (depth v) (depthItems rest)

def depthEntries : List (BKey × BVal) → Nat
  | [] => 0
  | (_, v) :: rest => max (depth v) (depthEntries rest)

end

mutual

/-- The value with the entries of all dictionaries in the order of their keys, where they are sorted. -/
def ordered (sorts : Bool) : BVal → BVal
  | .none => .none
  | .int i => .int i
  | .bytes b => .bytes b
  | .list items => .list (orderedItems sorts items)
  | .dict entries => .dict (arrange sorts (orderedEntries sorts entries))

def orderedItems (sorts : Bool) : List BVal → List BVal
  | [] => []
  | v :: rest => ordered sorts v :: orderedItems sorts rest

def orderedEntries (sorts : Bool) : List (BKey × BVal) → List (BKey × BVal)
  | [] => []
  | (k, v) :: rest => (k, ordered sorts v) :: orderedEntries sorts rest

end

/-- No `None`, and in a dictionary different byte strings as keys. -/
def PlainNode : BVal → Prop
  | .none => False
  | .dict entries => (∀ k ∈ entries.map Prod.fst, ∃ b, k = .bytes b) ∧ (entries.map Prod.fst).Nodup
  | _ => True

/-- Integers, byte strings, lists, and dictionaries with different byte strings as keys. -/
def Plain : BVal → Prop := Everywhere PlainNode

/-- The numbers that are written for the value itself are not too long for `str`. -/
def FitsNode : BVal → Prop
  | .int i => (intBytes i).isSome = true
  | .bytes b => (natBytes b.length).isSome = true
  | .dict entries => ∀ b, .bytes b ∈ entries.map Prod.fst → (natBytes b.length).isSome = true
  | _ => True

/-- All integers and lengths have so few digits that `str` gives them. -/
def Fits : BVal → Prop := Everywhere FitsNode

/-- The keys of a dictionary ascend. -/
def AscendingNode : BVal → Prop
  | .dict entries => (entries.map Prod.fst).Pairwise fun a b => a.le b = true
  | _ => True

/-- The keys of all dictionaries ascend. -/
def Ascending : BVal → Prop := Everywhere AscendingNode

/-- Python's equality of values with byte keys: dictionaries are equal that have the same entries, in any order. -/
def SameMaps (v w : BVal) : Prop := ordered true v = ordered true w

/-! ### The order of keys -/

section Keys

theorem BKey.le_or_le (a b : BKey) : a.le b = true ∨ b.le a = true := by
  cases a <;> cases b <;> simp [BKey.le, BKey.rank, le_total]

theorem BKey.le_of_le_of_le {a b c : BKey} (hab : a.le b = true) (hbc : b.le c = true) : a.le c = true := by
  cases a <;> cases b <;> cases c <;> simp [BKey.le, BKey.rank] at hab hbc ⊢ <;> exact le_trans hab hbc

variable {β γ : Type}

instance : Std.Total fun a b : BKey × β => a.1.le b.1 = true := ⟨fun a b => BKey.le_or_le a.1 b.1⟩

instance : IsTrans (BKey × β) fun a b => a.1.le b.1 = true := ⟨fun _ _ _ => BKey.le_of_le_of_le⟩

theorem perm_arrange (sorts : Bool) (entries : List (BKey × β)) : (arrange sorts entries).Perm entries := by
  cases sorts with
  | false => exact List.Perm.refl _
  | true => exact List.perm_insertionSort _ _

theorem pairwise_arrange (entries : List (BKey × β)) :
    ((arrange true entries).map Prod.fst).Pairwise fun a b => a.le b = true := by
  rw [List.pairwise_map]
  exact List.pairwise_insertionSort _ _

theorem arrange_of_pairwise {sorts : Bool} {entries : List (BKey × β)}
    (h : (entries.map Prod.fst).Pairwise fun a b => a.le b = true) : arrange sorts entries = entries := by
  cases sorts with
  | false => rfl
  | true =>
    rw [List.pairwise_map] at h
    exact h.insertionSort_eq

theorem forall₂_orderedInsert {R : BKey × β → BKey × γ → Prop} (hR : ∀ a b, R a b → a.1 = b.1) {a : BKey × β}
    {b : BKey × γ} (hab : R a b) {l : List (BKey × β)} {m : List (BKey × γ)} (h : List.Forall₂ R l m) :
    List.Forall₂ R (l.orderedInsert (fun x y => x.1.le y.1 = true) a)
      (m.orderedInsert (fun x y => x.1.le y.1 = true) b) := by
  induction h with
  | nil => exact .cons hab .nil
  | cons hcd hrest ih =>
    rw [List.orderedInsert_cons, List.orderedInsert_cons, hR _ _ hab, hR _ _ hcd]
    split
    · exact .cons hab (.cons hcd hrest)
    · exact .cons hcd ih

theorem forall₂_arrange {R : BKey × β → BKey × γ → Prop} (hR : ∀ a b, R a b → a.1 = b.1) (sorts : Bool)
    {l : List (BKey × β)} {m : List (BKey × γ)} (h : List.Forall₂ R l m) :
    List.Forall₂ R (arrange sorts l) (arrange sorts m) := by
  cases sorts with
  | false => exact h
  | true =>
    rw [arrange, arrange, if_pos rfl, if_pos rfl]
    induction h with
    | nil => exact .nil
    | cons hab hrest ih => exact forall₂_orderedInsert hR hab ih

end Keys

/-! ### Writing -/

section Writing

variable {w : Writer} {sorts : Bool}

theorem keys_orderedEntries (sorts : Bool) : ∀ entries : List (BKey × BVal),
    (orderedEntries sorts entries).map Prod.fst = entries.map Prod.fst
  | [] => by rw [orderedEntries]
  | (k, v) :: rest => by rw [orderedEntries, List.map_cons, List.map_cons, keys_orderedEntries sorts rest]

theorem depth_pos (v : BVal) : 0 < depth v := by
  cases v <;> simp [depth]

/-- An entry and what is written for it. -/
def EntryEncodes (n : Nat) (entry : BKey × BVal) (written : BKey × Bytes) : Prop :=
  entry.1 = written.1 ∧ ∃ b first second, entry.1 = .bytes b ∧ Encodes n (.value (.bytes b)) first ∧
    Encodes n (.value entry.2) second ∧ written.2 = first ++ second

theorem encodes_entries {n : Nat} {entries : List (BKey × BVal)} {written : List (BKey × Bytes)}
    (h : List.Forall₂ (EntryEncodes n) entries written) :
    Encodes n (.entries entries) (written.map Prod.snd).flatten := by
  induction h with
  | nil => exact .noEntries
  | @cons entry part entries written hentry hrest ih =>
    obtain ⟨k, v⟩ := entry
    obtain ⟨-, b, first, second, rfl, hfirst, hsecond, hpart⟩ := hentry
    rw [List.map_cons, List.flatten_cons, hpart, List.append_assoc]
    exact .entry hfirst hsecond ih

theorem encodes_int {i : Int} {text : Bytes} (h : Writer.int i = .ok text) {n : Nat} (hn : 0 < n) :
    Encodes n (.value (.int i)) text := by
  obtain ⟨n, rfl⟩ : ∃ m, n = m + 1 := ⟨n - 1, by omega⟩
  rw [Writer.int] at h
  cases hdigits : intBytes i with
  | none =>
    rw [hdigits] at h
    cases h
  | some digits =>
    rw [hdigits] at h
    cases h
    exact .int (strictInt_of_intBytes hdigits)

theorem encodes_bytes {b text : Bytes} (h : Writer.bytes b = .ok text) {n : Nat} (hn : 0 < n) :
    Encodes n (.value (.bytes b)) text := by
  obtain ⟨n, rfl⟩ : ∃ m, n = m + 1 := ⟨n - 1, by omega⟩
  rw [Writer.bytes] at h
  cases hdigits : natBytes b.length with
  | none =>
    rw [hdigits] at h
    cases h
  | some digits =>
    rw [hdigits] at h
    cases h
    exact .bytes (natBytes_eq_some hdigits).2

mutual

theorem encodes_of_write (w : Writer) : ∀ (v : BVal) (text : Bytes) (n : Nat), Plain v → w.write v = .ok text →
    depth v ≤ n → Encodes n (.value (ordered w.sorts v)) text
  | .none, _, _, hplain, _, _ => hplain.elim
  | .int i, text, n, _, h, hn => encodes_int h hn
  | .bytes b, text, n, _, h, hn => encodes_bytes h hn
  | .list items, text, n, hplain, h, hn => by
    rw [depth] at hn
    obtain ⟨n, rfl⟩ : ∃ m, n = m + 1 := ⟨n - 1, by omega⟩
    rw [Writer.write] at h
    obtain ⟨body, hbody, h⟩ := Raising.bind_eq_ok_iff.1 h
    cases h
    rw [ordered]
    exact .list (encodes_of_writeItems w items body n hplain.2 hbody (by omega))
  | .dict entries, text, n, hplain, h, hn => by
    rw [depth] at hn
    obtain ⟨n, rfl⟩ : ∃ m, n = m + 1 := ⟨n - 1, by omega⟩
    rw [Writer.write] at h
    obtain ⟨-, -, h⟩ := Raising.bind_eq_ok_iff.1 h
    obtain ⟨written, hwritten, h⟩ := Raising.bind_eq_ok_iff.1 h
    cases h
    have hall := forall₂_of_writeEntries w entries written n hplain.2 hplain.1.1 hwritten (by omega)
    rw [ordered]
    refine .dict (encodes_entries (forall₂_arrange (fun a b h => h.1) w.sorts hall)) ?_
    rw [((perm_arrange w.sorts _).map Prod.fst).nodup_iff, keys_orderedEntries]
    exact hplain.1.2

theorem encodes_of_writeItems (w : Writer) : ∀ (items : List BVal) (text : Bytes) (n : Nat),
    EverywhereItems PlainNode items → w.writeItems items = .ok text → depthItems items ≤ n →
    Encodes n (.items (orderedItems w.sorts items)) text
  | [], text, n, _, h, _ => by
    cases h
    exact .noItems
  | v :: rest, text, n, hplain, h, hn => by
    rw [depthItems] at hn
    rw [Writer.writeItems] at h
    obtain ⟨first, hfirst, h⟩ := Raising.bind_eq_ok_iff.1 h
    obtain ⟨more, hmore, h⟩ := Raising.bind_eq_ok_iff.1 h
    cases h
    exact .item (encodes_of_write w v first n hplain.1 hfirst (by omega))
      (encodes_of_writeItems w rest more n hplain.2 hmore (by omega))

theorem forall₂_of_writeEntries (w : Writer) : ∀ (entries : List (BKey × BVal)) (written : List (BKey × Bytes))
    (n : Nat), EverywhereEntries PlainNode entries → (∀ k ∈ entries.map Prod.fst, ∃ b, k = .bytes b) →
    w.writeEntries entries = .ok written → depthEntries entries ≤ n →
    List.Forall₂ (EntryEncodes n) (orderedEntries w.sorts entries) written
  | [], written, n, _, _, h, _ => by
    cases h
    exact .nil
  | (k, v) :: rest, written, n, hplain, hkeys, h, hn => by
    rw [depthEntries] at hn
    have hpos := depth_pos v
    rw [List.map_cons, List.forall_mem_cons] at hkeys
    obtain ⟨⟨b, rfl⟩, hkeys⟩ := hkeys
    rw [Writer.writeEntries] at h
    obtain ⟨first, hfirst, h⟩ := Raising.bind_eq_ok_iff.1 h
    obtain ⟨second, hsecond, h⟩ := Raising.bind_eq_ok_iff.1 h
    obtain ⟨more, hmore, h⟩ := Raising.bind_eq_ok_iff.1 h
    cases h
    refine .cons ⟨rfl, b, first, second, rfl, encodes_bytes hfirst (by omega), ?_, rfl⟩
      (forall₂_of_writeEntries w rest more n hplain.2 hkeys hmore (by omega))
    exact encodes_of_write w v second n hplain.1 hsecond (by omega)

end

theorem int_isOk_iff {i : Int} : (∃ text, Writer.int i = .ok text) ↔ (intBytes i).isSome = true := by
  rw [Writer.int]
  cases intBytes i with
  | none => simp [Writer.text, bind, Except.bind]
  | some digits => simp [Writer.text, bind, Except.bind, pure, Except.pure]

theorem bytes_isOk_iff {b : Bytes} : (∃ text, Writer.bytes b = .ok text) ↔ (natBytes b.length).isSome = true := by
  rw [Writer.bytes]
  cases natBytes b.length with
  | none => simp [Writer.text, bind, Except.bind]
  | some digits => simp [Writer.text, bind, Except.bind, pure, Except.pure]

theorem check_of_forall_bytes {keys : List BKey} (h : ∀ k ∈ keys, ∃ b, k = .bytes b) : w.check keys = .ok () := by
  have hcomparable : comparable keys = true := by
    rw [comparable, List.all_eq_true]
    intro a ha
    rw [List.all_eq_true]
    intro b hb
    obtain ⟨x, rfl⟩ := h a ha
    obtain ⟨y, rfl⟩ := h b hb
    rfl
  rw [Writer.check, hcomparable, Bool.not_true, Bool.and_false]
  rfl

mutual

theorem write_isOk_iff (w : Writer) : ∀ v : BVal, Plain v → ((∃ text, w.write v = .ok text) ↔ Fits v)
  | .none, hplain => hplain.elim
  | .int i, _ => int_isOk_iff
  | .bytes b, _ => bytes_isOk_iff
  | .list items, hplain => by
    have hitems := writeItems_isOk_iff w items hplain.2
    have hfits : Fits (.list items) ↔ EverywhereItems FitsNode items := by simp [Fits, Everywhere, FitsNode]
    rw [hfits, ← hitems, Writer.write]
    simp only [Raising.bind_eq_ok_iff]
    constructor
    · intro ⟨_, body, hbody, _⟩
      exact ⟨body, hbody⟩
    · intro ⟨body, hbody⟩
      exact ⟨_, body, hbody, rfl⟩
  | .dict entries, hplain => by
    have hentries := writeEntries_isOk_iff w entries hplain.2 hplain.1.1
    have hfits : Fits (.dict entries) ↔ FitsNode (.dict entries) ∧ EverywhereEntries FitsNode entries := Iff.rfl
    rw [hfits, ← hentries, Writer.write, check_of_forall_bytes hplain.1.1]
    simp only [Raising.bind_eq_ok_iff]
    constructor
    · intro ⟨_, _, _, written, hwritten, _⟩
      exact ⟨written, hwritten⟩
    · intro ⟨written, hwritten⟩
      exact ⟨_, (), trivial, written, hwritten, rfl⟩

theorem writeItems_isOk_iff (w : Writer) : ∀ items : List BVal, EverywhereItems PlainNode items →
    ((∃ text, w.writeItems items = .ok text) ↔ EverywhereItems FitsNode items)
  | [], _ => by simp [Writer.writeItems, EverywhereItems]
  | v :: rest, hplain => by
    have hv := write_isOk_iff w v hplain.1
    have hrest := writeItems_isOk_iff w rest hplain.2
    rw [Fits] at hv
    rw [EverywhereItems, ← hv, ← hrest, Writer.writeItems]
    simp only [Raising.bind_eq_ok_iff]
    constructor
    · intro ⟨_, first, hfirst, more, hmore, _⟩
      exact ⟨⟨first, hfirst⟩, more, hmore⟩
    · intro ⟨⟨first, hfirst⟩, more, hmore⟩
      exact ⟨_, first, hfirst, more, hmore, rfl⟩

theorem writeEntries_isOk_iff (w : Writer) : ∀ entries : List (BKey × BVal), EverywhereEntries PlainNode entries →
    (∀ k ∈ entries.map Prod.fst, ∃ b, k = .bytes b) →
    ((∃ written, w.writeEntries entries = .ok written) ↔
      FitsNode (.dict entries) ∧ EverywhereEntries FitsNode entries)
  | [], _, _ => by simp [Writer.writeEntries, EverywhereEntries, FitsNode]
  | (k, v) :: rest, hplain, hkeys => by
    rw [List.map_cons, List.forall_mem_cons] at hkeys
    obtain ⟨⟨b, rfl⟩, hkeys⟩ := hkeys
    have hv := write_isOk_iff w v hplain.1
    have hrest := writeEntries_isOk_iff w rest hplain.2 hkeys
    have hb := bytes_isOk_iff (b := b)
    have hnode : FitsNode (.dict ((.bytes b, v) :: rest)) ↔
        (natBytes b.length).isSome = true ∧ FitsNode (.dict rest) := by
      simp only [FitsNode, List.map_cons, List.mem_cons, BKey.bytes.injEq]
      constructor
      · exact fun h => ⟨h b (Or.inl rfl), fun c hc => h c (Or.inr hc)⟩
      · rintro ⟨hone, hmore⟩ c (rfl | hc)
        · exact hone
        · exact hmore c hc
    rw [Fits] at hv
    rw [hnode, EverywhereEntries, and_and_and_comm, ← hrest, ← hb, ← hv, Writer.writeEntries]
    simp only [Raising.bind_eq_ok_iff]
    constructor
    · intro ⟨_, first, hfirst, second, hsecond, more, hmore, _⟩
      exact ⟨⟨⟨first, hfirst⟩, second, hsecond⟩, more, hmore⟩
    · intro ⟨⟨⟨first, hfirst⟩, second, hsecond⟩, more, hmore⟩
      exact ⟨_, first, hfirst, second, hsecond, more, hmore, rfl⟩

end

mutual

theorem ordered_false : ∀ v : BVal, ordered false v = v
  | .none => rfl
  | .int _ => rfl
  | .bytes _ => rfl
  | .list items => by rw [ordered, orderedItems_false items]
  | .dict entries => by
    rw [ordered, orderedEntries_false entries]
    rfl

theorem orderedItems_false : ∀ items : List BVal, orderedItems false items = items
  | [] => rfl
  | v :: rest => by rw [orderedItems, ordered_false v, orderedItems_false rest]

theorem orderedEntries_false : ∀ entries : List (BKey × BVal), orderedEntries false entries = entries
  | [] => rfl
  | (k, v) :: rest => by rw [orderedEntries, ordered_false v, orderedEntries_false rest]

end

mutual

theorem ordered_true_eq_iff : ∀ v : BVal, ordered true v = v ↔ Ascending v
  | .none => by simp [ordered, Ascending, Everywhere, AscendingNode]
  | .int _ => by simp [ordered, Ascending, Everywhere, AscendingNode]
  | .bytes _ => by simp [ordered, Ascending, Everywhere, AscendingNode]
  | .list items => by
    rw [ordered, BVal.list.injEq, orderedItems_true_eq_iff items]
    simp [Ascending, Everywhere, AscendingNode]
  | .dict entries => by
    have hentries := orderedEntries_true_eq_iff entries
    rw [ordered, BVal.dict.injEq]
    constructor
    · intro h
      have hkeys : AscendingNode (.dict entries) := by
        have hsorted := pairwise_arrange (orderedEntries true entries)
        rwa [h] at hsorted
      refine ⟨hkeys, hentries.1 ?_⟩
      rwa [arrange_of_pairwise (by rw [keys_orderedEntries]; exact hkeys)] at h
    · intro h
      rw [hentries.2 h.2]
      exact arrange_of_pairwise h.1

theorem orderedItems_true_eq_iff : ∀ items : List BVal,
    orderedItems true items = items ↔ EverywhereItems AscendingNode items
  | [] => by simp [orderedItems, EverywhereItems]
  | v :: rest => by
    rw [orderedItems, List.cons.injEq, ordered_true_eq_iff v, orderedItems_true_eq_iff rest, EverywhereItems, Ascending]

theorem orderedEntries_true_eq_iff : ∀ entries : List (BKey × BVal),
    orderedEntries true entries = entries ↔ EverywhereEntries AscendingNode entries
  | [] => by simp [orderedEntries, EverywhereEntries]
  | (k, v) :: rest => by
    rw [orderedEntries, List.cons.injEq, Prod.mk.injEq, ordered_true_eq_iff v, orderedEntries_true_eq_iff rest,
      EverywhereEntries, Ascending]
    simp

end

theorem keys_of_writeEntries : ∀ {entries : List (BKey × BVal)} {written : List (BKey × Bytes)},
    w.writeEntries entries = .ok written → written.map Prod.fst = entries.map Prod.fst
  | [], written, h => by
    cases h
    rfl
  | (k, v) :: rest, written, h => by
    rw [Writer.writeEntries] at h
    obtain ⟨first, -, h⟩ := Raising.bind_eq_ok_iff.1 h
    obtain ⟨second, -, h⟩ := Raising.bind_eq_ok_iff.1 h
    obtain ⟨more, hmore, h⟩ := Raising.bind_eq_ok_iff.1 h
    cases h
    rw [List.map_cons, List.map_cons, keys_of_writeEntries hmore]

mutual

theorem write_eq_write (w w' : Writer) : ∀ v : BVal, Plain v → Ascending v → w.write v = w'.write v
  | .none, hplain, _ => hplain.elim
  | .int i, _, _ => rfl
  | .bytes b, _, _ => rfl
  | .list items, hplain, hasc => by
    rw [Writer.write, Writer.write, writeItems_eq_writeItems w w' items hplain.2 hasc.2]
  | .dict entries, hplain, hasc => by
    rw [Writer.write, Writer.write, check_of_forall_bytes hplain.1.1, check_of_forall_bytes hplain.1.1,
      writeEntries_eq_writeEntries w w' entries hplain.2 hplain.1.1 hasc.2]
    cases hwritten : w'.writeEntries entries with
    | error e => rfl
    | ok written =>
      have hkeys : (written.map Prod.fst).Pairwise fun a b => a.le b = true := by
        rw [keys_of_writeEntries hwritten]
        exact hasc.1
      show Except.ok _ = Except.ok _
      rw [arrange_of_pairwise hkeys, arrange_of_pairwise hkeys]

theorem writeItems_eq_writeItems (w w' : Writer) : ∀ items : List BVal, EverywhereItems PlainNode items →
    EverywhereItems AscendingNode items → w.writeItems items = w'.writeItems items
  | [], _, _ => rfl
  | v :: rest, hplain, hasc => by
    rw [Writer.writeItems, Writer.writeItems, write_eq_write w w' v hplain.1 hasc.1,
      writeItems_eq_writeItems w w' rest hplain.2 hasc.2]

theorem writeEntries_eq_writeEntries (w w' : Writer) : ∀ entries : List (BKey × BVal),
    EverywhereEntries PlainNode entries → (∀ k ∈ entries.map Prod.fst, ∃ b, k = .bytes b) →
    EverywhereEntries AscendingNode entries → w.writeEntries entries = w'.writeEntries entries
  | [], _, _, _ => rfl
  | (k, v) :: rest, hplain, hkeys, hasc => by
    rw [List.map_cons, List.forall_mem_cons] at hkeys
    obtain ⟨⟨b, rfl⟩, hkeys⟩ := hkeys
    rw [Writer.writeEntries, Writer.writeEntries, write_eq_write w w' v hplain.1 hasc.1,
      writeEntries_eq_writeEntries w w' rest hplain.2 hkeys hasc.2]
    rfl

end

end Writing

/-! ### The three codecs -/

theorem intOr_follows : (∀ text i, strictInt text = some i → intOr ExcClass.valueError text = .ok i) ∧
    ∀ text n, digitsValue text = some n → (intOr ExcClass.valueError text).map Int.toNat = .ok n := by
  constructor
  · intro text i h
    rw [intOr, intOfBytes_of_strictInt h]
  · intro text n h
    rw [intOr, intOfBytes_of_digitsValue h]
    rfl

theorem bdecodeReader_follows : bdecodeReader.Follows where
  isDigit _ h := h
  int := intOr_follows.1
  length := intOr_follows.2
  key _ := rfl

theorem nodeReader_follows : nodeReader.Follows where
  isDigit _ h := h
  int := intOr_follows.1
  length := intOr_follows.2
  key _ := rfl

theorem fetcherReader_follows : fetcherReader.Follows where
  isDigit x h := by
    show (isAsciiDigit x || x = 0xB2 || x = 0xB3 || x = 0xB9) = true
    rw [h]
    rfl
  int := intOr_follows.1
  length := intOr_follows.2
  key _ := rfl

theorem Encodes.bdecode {n : Nat} {v : BVal} {text : Bytes} (h : Encodes n (.value v) text) (rest : Bytes) :
    bdecode n (text ++ rest) = .ok v := by
  rw [Dht.bdecode, h.reads bdecodeReader_follows rest]
  rfl

theorem Encodes.nodeBdecode {n : Nat} {v : BVal} {text : Bytes} (h : Encodes n (.value v) text) (rest : Bytes) :
    nodeBdecode n (text ++ rest) = v := by
  rw [Dht.nodeBdecode, h.reads nodeReader_follows rest]

theorem Encodes.decodeBencode {n : Nat} {v : BVal} {text : Bytes} (h : Encodes n (.value v) text) (rest : Bytes) :
    decodeBencode n (text ++ rest) = .ok v := by
  rw [Dht.decodeBencode, h.reads fetcherReader_follows rest]
  rfl

/-- A value is encoded by all three codecs to the same bytes, and these are decoded to it. -/
def RoundTrips (v : BVal) : Prop :=
  ∃ text, bencode v = .ok text ∧ nodeBencode v = .ok text ∧ fetcherBencode v = .ok text ∧
    ∀ limit, depth v ≤ limit →
      bdecode limit text = .ok v ∧ nodeBdecode limit text = v ∧ decodeBencode limit text = .ok v

theorem roundTrips_iff_of_plain {v : BVal} (hplain : Plain v) : RoundTrips v ↔ Fits v ∧ Ascending v := by
  constructor
  · intro ⟨text, hbencode, hnode, _, _⟩
    refine ⟨(write_isOk_iff _ v hplain).1 ⟨text, hbencode⟩, ?_⟩
    have hkept := encodes_of_write _ v text (depth v) hplain hbencode (Nat.le_refl _)
    have hsorted := encodes_of_write _ v text (depth v) hplain hnode (Nat.le_refl _)
    have hboth := (hkept.bdecode []).symm.trans (hsorted.bdecode [])
    rw [ordered_false] at hboth
    exact (ordered_true_eq_iff v).1 (Except.ok.inj hboth).symm
  · intro ⟨hfits, hasc⟩
    obtain ⟨text, htext⟩ := (write_isOk_iff ⟨.error .typeError, false⟩ v hplain).2 hfits
    refine ⟨text, htext, ?_, ?_, ?_⟩
    · exact (write_eq_write _ _ v hplain hasc).trans htext
    · exact (write_eq_write _ _ v hplain hasc).trans htext
    · intro limit hlimit
      have henc := encodes_of_write _ v text limit hplain htext hlimit
      rw [ordered_false] at henc
      have hbdecode := henc.bdecode []
      have hnode := henc.nodeBdecode []
      have hfetcher := henc.decodeBencode []
      rw [List.append_nil] at hbdecode hnode hfetcher
      exact ⟨hbdecode, hnode, hfetcher⟩

/-- The codecs agree on two equal values, and these are encoded to the same bytes, if and only if the numbers fit
and all keys ascend. -/
theorem codecs_agree_iff (v w : BVal) (hv : Plain v) (hw : Plain w) (hsame : SameMaps v w) :
    RoundTrips v ∧ RoundTrips w ∧ bencode v = bencode w ↔ Fits v ∧ Ascending v ∧ Ascending w := by
  rw [roundTrips_iff_of_plain hv, roundTrips_iff_of_plain hw]
  constructor
  · intro ⟨hv, hw, _⟩
    exact ⟨hv.1, hv.2, hw.2⟩
  · intro ⟨hfits, hascv, hascw⟩
    have heq : v = w := by
      have hsame : ordered true v = ordered true w := hsame
      rwa [(ordered_true_eq_iff v).2 hascv, (ordered_true_eq_iff w).2 hascw] at hsame
    subst heq
    exact ⟨⟨hfits, hascv⟩, ⟨hfits, hascv⟩, rfl⟩

/-- A dictionary with the keys `a` and `b`, in this order or the other. -/
def twoKeys (ascends : Bool) : BVal :=
  if ascends then .dict [(.bytes [ascii 'a'], .int 1), (.bytes [ascii 'b'], .int 2)]
  else .dict [(.bytes [ascii 'b'], .int 2), (.bytes [ascii 'a'], .int 1)]

theorem plain_twoKeys (ascends : Bool) : Plain (twoKeys ascends) := by
  cases ascends with
  | true => simp [twoKeys, Plain, Everywhere, EverywhereEntries, PlainNode, ascii]
  | false => simp [twoKeys, Plain, Everywhere, EverywhereEntries, PlainNode, ascii]

theorem codecs_agree_iff_twoKeys :
    RoundTrips (twoKeys true) ∧ RoundTrips (twoKeys true) ∧ bencode (twoKeys true) = bencode (twoKeys true) ↔
      Fits (twoKeys true) ∧ Ascending (twoKeys true) ∧ Ascending (twoKeys true) :=
  codecs_agree_iff _ _ (plain_twoKeys true) (plain_twoKeys true) rfl

/-- The two orders are equal as maps and are encoded to different bytes, and the other encoders sort them. -/
theorem not_codecs_agree :
    Plain (twoKeys false) ∧ Plain (twoKeys true) ∧ SameMaps (twoKeys false) (twoKeys true) ∧
      bencode (twoKeys false) ≠ bencode (twoKeys true) ∧ nodeBencode (twoKeys false) ≠ bencode (twoKeys false) :=
  ⟨plain_twoKeys false, plain_twoKeys true, rfl, by decide +kernel, by decide +kernel⟩

end Hledac.Dht
