import Mathlib.Algebra.BigOperators.Group.List.Basic
import Mathlib.Data.List.Induction
import Mathlib.Data.List.Nodup

/-!
# Insertion-ordered dictionaries

A dictionary holds entries with distinct keys. A key that is there keeps its place when it is given a
new value, a new key goes to the end.
-/

namespace Hledac.Lib

universe u v

/-- Entries with distinct keys, in the order in which the keys were first put. -/
@[ext] structure Dict (K : Type u) (V : Type v) where
  entries : List (K × V)
  nodup_keys : (entries.map Prod.fst).Nodup

namespace Dict

variable {K : Type u} {V : Type v}

/-- The keys in their order. -/
def keys (d : Dict K V) : List K := d.entries.map Prod.fst

/-- The number of entries. -/
def size (d : Dict K V) : Nat := d.entries.length

/-- The dictionary without entries. -/
def empty : Dict K V := ⟨[], List.nodup_nil⟩

@[simp] theorem keys_empty : (empty : Dict K V).keys = [] := rfl

@[simp] theorem size_empty : (empty : Dict K V).size = 0 := rfl

theorem nodup (d : Dict K V) : d.keys.Nodup := d.nodup_keys

@[simp] theorem length_keys (d : Dict K V) : d.keys.length = d.size := List.length_map _

theorem nodup_entries (d : Dict K V) : d.entries.Nodup := d.nodup_keys.of_map _

/-- The sum of `f` over the values. -/
def total {M : Type*} [AddCommMonoid M] (f : V → M) (d : Dict K V) : M :=
  (d.entries.map fun e => f e.2).sum

@[simp] theorem total_empty {M : Type*} [AddCommMonoid M] (f : V → M) :
    (empty : Dict K V).total f = 0 := rfl

variable [DecidableEq K]

/-- `d.get(k)`. -/
def get? (d : Dict K V) (k : K) : Option V := (d.entries.find? fun e => decide (e.1 = k)).map Prod.snd

/-- `del d[k]`, without effect where the key is not there. -/
def erase (d : Dict K V) (k : K) : Dict K V where
  entries := d.entries.filter fun e => !decide (e.1 = k)
  nodup_keys := d.nodup_keys.sublist (List.filter_sublist.map Prod.fst)

/-- The entry with another value under its key. -/
def assigned (k : K) (v : V) (e : K × V) : K × V := if e.1 = k then (k, v) else e

@[simp] theorem fst_assigned (k : K) (v : V) (e : K × V) : (assigned k v e).1 = e.1 := by
  rw [assigned]
  split
  · next h => exact h.symm
  · rfl

/-- `d[k] = v`. -/
def insert (d : Dict K V) (k : K) (v : V) : Dict K V where
  entries := if k ∈ d.keys then d.entries.map (assigned k v) else d.entries ++ [(k, v)]
  nodup_keys := by
    split
    · have hfst : Prod.fst ∘ assigned k v = Prod.fst := by
        ext e
        exact fst_assigned k v e
      rw [List.map_map, hfst]
      exact d.nodup_keys
    · next h =>
      rw [List.map_append, List.nodup_append]
      refine ⟨d.nodup_keys, List.nodup_singleton _, ?_⟩
      intro a ha b hb hab
      obtain rfl : b = k := List.mem_singleton.1 hb
      exact h (hab ▸ ha)

variable {d : Dict K V} {j k : K} {v w : V}

theorem get?_eq_some_iff : d.get? k = some v ↔ (k, v) ∈ d.entries := by
  rw [get?, Option.map_eq_some_iff]
  constructor
  · intro h
    obtain ⟨e, he, rfl⟩ := h
    have hk : e.1 = k := of_decide_eq_true (List.find?_some (p := fun e : K × V => decide (e.1 = k)) he)
    rw [← hk]
    exact List.mem_of_find?_eq_some he
  · intro h
    cases he : d.entries.find? fun e => decide (e.1 = k) with
    | none => exact absurd (decide_eq_true rfl) (List.find?_eq_none.1 he _ h)
    | some e =>
      have hk : e.1 = k := of_decide_eq_true (List.find?_some (p := fun e : K × V => decide (e.1 = k)) he)
      have hmem := List.mem_of_find?_eq_some he
      exact ⟨e, rfl, congrArg Prod.snd (List.inj_on_of_nodup_map d.nodup_keys hmem h hk)⟩

theorem mem_keys_iff : k ∈ d.keys ↔ (d.get? k).isSome = true := by
  rw [keys, List.mem_map, Option.isSome_iff_exists]
  constructor
  · intro h
    obtain ⟨e, he, rfl⟩ := h
    exact ⟨e.2, get?_eq_some_iff.2 he⟩
  · intro h
    obtain ⟨v, hv⟩ := h
    exact ⟨(k, v), get?_eq_some_iff.1 hv, rfl⟩

theorem notMem_keys_iff : k ∉ d.keys ↔ d.get? k = none := by
  rw [mem_keys_iff, Bool.not_eq_true, Option.isSome_eq_false_iff, Option.isNone_iff_eq_none]

theorem mem_keys_of_get? (h : d.get? k = some v) : k ∈ d.keys := by
  rw [mem_keys_iff, h]
  rfl

@[simp] theorem get?_empty : (empty : Dict K V).get? k = none := rfl

theorem keys_insert : (d.insert k v).keys = if k ∈ d.keys then d.keys else d.keys ++ [k] := by
  rw [keys, insert]
  split
  · rw [List.map_map]
    apply List.map_congr_left
    intro e _
    exact fst_assigned k v e
  · rw [List.map_append]
    rfl

@[simp] theorem mem_keys_insert : j ∈ (d.insert k v).keys ↔ j = k ∨ j ∈ d.keys := by
  rw [keys_insert]
  split
  · next h =>
    constructor
    · exact .inr
    · intro hj
      cases hj with
      | inl hj => rwa [hj]
      | inr hj => exact hj
  · rw [List.mem_append, List.mem_singleton, or_comm]

theorem get?_insert : (d.insert k v).get? j = if k = j then some v else d.get? j := by
  ext w
  rw [get?_eq_some_iff, insert]
  by_cases hk : k ∈ d.keys
  · simp only [if_pos hk, List.mem_map]
    split
    · next hkj =>
      subst hkj
      obtain ⟨e, he, hek⟩ := List.mem_map.1 hk
      constructor
      · intro h
        obtain ⟨e', _, h'⟩ := h
        have hfst : e'.1 = k := by rw [← fst_assigned k v e', h']
        rw [assigned, if_pos hfst, Prod.mk.injEq] at h'
        rw [h'.2]
      · intro h
        refine ⟨e, he, ?_⟩
        rw [assigned, if_pos hek, Option.some_inj.1 h]
    · next hkj =>
      rw [get?_eq_some_iff]
      constructor
      · intro h
        obtain ⟨e', he', h'⟩ := h
        have hfst : e'.1 = j := by rw [← fst_assigned k v e', h']
        rw [assigned, if_neg fun hc => hkj (hc.symm.trans hfst)] at h'
        rw [← h']
        exact he'
      · intro h
        refine ⟨(j, w), h, ?_⟩
        rw [assigned, if_neg fun hc => hkj hc.symm]
  · simp only [if_neg hk, List.mem_append, List.mem_singleton, Prod.mk.injEq]
    split
    · next hkj =>
      subst hkj
      constructor
      · intro h
        cases h with
        | inl h => exact absurd (List.mem_map_of_mem h) hk
        | inr h => rw [h.2]
      · intro h
        exact .inr ⟨rfl, (Option.some_inj.1 h).symm⟩
    · next hkj =>
      rw [get?_eq_some_iff]
      constructor
      · intro h
        cases h with
        | inl h => exact h
        | inr h => exact absurd h.1.symm hkj
      · exact .inl

@[simp] theorem get?_insert_self : (d.insert k v).get? k = some v := by
  rw [get?_insert, if_pos rfl]

theorem get?_insert_of_ne (h : k ≠ j) : (d.insert k v).get? j = d.get? j := by
  rw [get?_insert, if_neg h]

theorem get?_erase : (d.erase k).get? j = if k = j then none else d.get? j := by
  ext w
  rw [get?_eq_some_iff, erase, List.mem_filter, ← get?_eq_some_iff]
  split
  · next h => simp [h]
  · next h =>
    have hjk : ¬ j = k := fun hc => h hc.symm
    simp [hjk]

@[simp] theorem get?_erase_self : (d.erase k).get? k = none := by
  rw [get?_erase, if_pos rfl]

theorem get?_erase_of_ne (h : k ≠ j) : (d.erase k).get? j = d.get? j := by
  rw [get?_erase, if_neg h]

theorem keys_erase : (d.erase k).keys = d.keys.erase k := by
  rw [d.nodup.erase_eq_filter, keys, erase, keys, List.filter_map]
  rfl

@[simp] theorem mem_keys_erase : j ∈ (d.erase k).keys ↔ j ≠ k ∧ j ∈ d.keys := by
  rw [keys_erase, d.nodup.mem_erase_iff]

theorem size_insert : (d.insert k v).size = if k ∈ d.keys then d.size else d.size + 1 := by
  rw [← length_keys, keys_insert]
  split
  · exact length_keys d
  · rw [List.length_append, length_keys]
    rfl

theorem size_erase (h : k ∈ d.keys) : (d.erase k).size = d.size - 1 := by
  rw [← length_keys, keys_erase, List.length_erase_of_mem h, length_keys]

/-- Nothing to delete. -/
theorem erase_of_notMem (h : k ∉ d.keys) : d.erase k = d := by
  ext1
  rw [erase, List.filter_eq_self]
  intro e he
  have hne : e.1 ≠ k := fun hc => h (hc ▸ List.mem_map_of_mem he)
  simp [hne]

/-- `d.move_to_end(k)`, without effect where the key is not there. -/
def moveToEnd (d : Dict K V) (k : K) : Dict K V :=
  match d.get? k with
  | some v => (d.erase k).insert k v
  | none => d

theorem keys_moveToEnd (h : k ∈ d.keys) : (d.moveToEnd k).keys = d.keys.erase k ++ [k] := by
  obtain ⟨v, hv⟩ := Option.isSome_iff_exists.1 (mem_keys_iff.1 h)
  have hk : k ∉ (d.erase k).keys := fun hmem => (mem_keys_erase.1 hmem).1 rfl
  rw [moveToEnd, hv]
  show ((d.erase k).insert k v).keys = _
  rw [keys_insert, if_neg hk, keys_erase]

theorem get?_moveToEnd : (d.moveToEnd k).get? j = d.get? j := by
  rw [moveToEnd]
  cases hv : d.get? k with
  | none => rfl
  | some v =>
    show ((d.erase k).insert k v).get? j = _
    rw [get?_insert, get?_erase]
    split
    · next hkj => rw [← hkj, hv]
    · rfl

omit [DecidableEq K] in
/-- `d.popitem(last=False)`, on the entries. -/
def popFirst (d : Dict K V) : Dict K V where
  entries := d.entries.tail
  nodup_keys := d.nodup_keys.sublist ((List.tail_sublist _).map Prod.fst)

omit [DecidableEq K] in
theorem keys_popFirst (d : Dict K V) : d.popFirst.keys = d.keys.tail := by
  rw [keys, keys, ← List.map_tail]
  rfl

theorem get?_of_popFirst (h : d.popFirst.get? k = some v) : d.get? k = some v :=
  get?_eq_some_iff.2 (List.mem_of_mem_tail (get?_eq_some_iff.1 h))

omit [DecidableEq K] in
theorem size_eq_length {order : List K} (hnodup : order.Nodup) (h : ∀ k, k ∈ order ↔ k ∈ d.keys) :
    d.size = order.length := by
  rw [← length_keys]
  exact ((List.perm_ext_iff_of_nodup hnodup d.nodup).2 h).length_eq.symm

theorem entries_insert_of_notMem (h : k ∉ d.keys) : (d.insert k v).entries = d.entries ++ [(k, v)] := by
  rw [insert]
  exact if_neg h

/-- The entries put one after the other, the last of a key last. -/
def insertAll (d : Dict K V) (entries : List (K × V)) : Dict K V :=
  entries.foldl (fun d e => d.insert e.1 e.2) d

theorem insertAll_append (d : Dict K V) (entries : List (K × V)) (e : K × V) :
    d.insertAll (entries ++ [e]) = (d.insertAll entries).insert e.1 e.2 := by
  rw [insertAll, List.foldl_append]
  rfl

/-- The last entry of a key is the one that stays. -/
theorem get?_insertAll (d : Dict K V) (entries : List (K × V)) (k : K) :
    (d.insertAll entries).get? k =
      ((entries.reverse.find? fun e => decide (e.1 = k)).map Prod.snd).or (d.get? k) := by
  induction entries using List.reverseRecOn with
  | nil => rfl
  | append_singleton entries e ih =>
    rw [insertAll_append, get?_insert, ih, List.reverse_append, List.reverse_singleton,
      List.singleton_append, List.find?_cons]
    by_cases h : e.1 = k
    · rw [if_pos h, decide_eq_true h]
      rfl
    · rw [if_neg h, decide_eq_false h]

/-- A key has what it had, or what some entry puts. -/
theorem get?_insertAll_cases (d : Dict K V) (entries : List (K × V)) (k : K) :
    (d.insertAll entries).get? k = d.get? k ∨
      ∃ e ∈ entries, e.1 = k ∧ (d.insertAll entries).get? k = some e.2 := by
  rw [get?_insertAll]
  cases hfind : entries.reverse.find? fun e => decide (e.1 = k) with
  | none => exact .inl rfl
  | some e =>
    have hmem := List.mem_reverse.1 (List.mem_of_find?_eq_some hfind)
    have hkey := List.find?_some hfind
    exact .inr ⟨e, hmem, of_decide_eq_true hkey, rfl⟩

theorem mem_keys_insertAll {d : Dict K V} {entries : List (K × V)} {k : K} :
    k ∈ (d.insertAll entries).keys ↔ k ∈ d.keys ∨ k ∈ entries.map Prod.fst := by
  induction entries using List.reverseRecOn with
  | nil => simp [insertAll]
  | append_singleton entries e ih =>
    rw [insertAll_append, mem_keys_insert, ih, List.map_append, List.mem_append, List.map_singleton,
      List.mem_singleton]
    tauto

/-- In every order of the entries the key finds its value. -/
theorem find?_of_perm {l : List (K × V)} (h : l.Perm d.entries) (k : K) :
    (l.find? fun e => decide (e.1 = k)).map Prod.snd = d.get? k := by
  cases hfind : l.find? fun e => decide (e.1 = k) with
  | some e =>
    have hk : e.1 = k := of_decide_eq_true (List.find?_some (p := fun e : K × V => decide (e.1 = k)) hfind)
    have hmem : e ∈ d.entries := h.mem_iff.1 (List.mem_of_find?_eq_some hfind)
    rw [Option.map_some, eq_comm, get?_eq_some_iff, ← hk]
    exact hmem
  | none =>
    rw [Option.map_none, eq_comm, ← notMem_keys_iff, keys, List.mem_map]
    intro hmem
    obtain ⟨e, he, rfl⟩ := hmem
    exact List.find?_eq_none.1 hfind e (h.mem_iff.2 he) (decide_eq_true rfl)

/-- The new entry, and the old ones of the other keys. -/
theorem insert_perm (d : Dict K V) (k : K) (v : V) :
    (d.insert k v).entries.Perm ((k, v) :: (d.erase k).entries) := by
  have hk : (k, v) ∉ (d.erase k).entries := by
    rw [← get?_eq_some_iff, get?_erase_self]
    nofun
  apply (List.perm_ext_iff_of_nodup (nodup_entries _) (List.nodup_cons.2 ⟨hk, nodup_entries _⟩)).2
  intro e
  obtain ⟨j, w⟩ := e
  rw [List.mem_cons, ← get?_eq_some_iff, ← get?_eq_some_iff, get?_insert, get?_erase, Prod.mk.injEq]
  split
  · next h => simp [h, eq_comm]
  · next h =>
    have hne : ¬ j = k := fun hc => h hc.symm
    simp [hne]

/-- The entry of the key, and the others. -/
theorem perm_erase (h : d.get? k = some v) : d.entries.Perm ((k, v) :: (d.erase k).entries) := by
  have hk : (k, v) ∉ (d.erase k).entries := by
    rw [← get?_eq_some_iff, get?_erase_self]
    nofun
  apply (List.perm_ext_iff_of_nodup (nodup_entries _) (List.nodup_cons.2 ⟨hk, nodup_entries _⟩)).2
  intro e
  obtain ⟨j, w⟩ := e
  rw [List.mem_cons, ← get?_eq_some_iff, ← get?_eq_some_iff, get?_erase, Prod.mk.injEq]
  split
  · next hj =>
    rw [← hj, h, Option.some_inj]
    simp [eq_comm]
  · next hj =>
    have hne : ¬ j = k := fun hc => hj hc.symm
    simp [hne]

/-! ### Sums over the values -/

section Total

variable {M : Type*} [AddCommMonoid M]

theorem total_insert (f : V → M) (d : Dict K V) (k : K) (v : V) :
    (d.insert k v).total f = f v + (d.erase k).total f := by
  rw [total, ((insert_perm d k v).map _).sum_eq, List.map_cons, List.sum_cons]
  rfl

theorem total_eq_add_erase (f : V → M) (h : d.get? k = some v) :
    d.total f = f v + (d.erase k).total f := by
  rw [total, ((perm_erase h).map _).sum_eq, List.map_cons, List.sum_cons]
  rfl

theorem total_insert_of_notMem (f : V → M) (h : k ∉ d.keys) (v : V) :
    (d.insert k v).total f = f v + d.total f := by
  rw [total_insert, erase_of_notMem h]

end Total

end Dict

end Hledac.Lib
