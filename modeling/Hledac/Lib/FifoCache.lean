import Mathlib.Data.List.Nodup

/-!
# Bounded caches

A cache holds at most `cap` entries with distinct keys, oldest first. A new key takes the newest
place, and the oldest entry leaves where there is no room; a key that is held moves to the newest
place and keeps its value.
-/

namespace Hledac.Lib

universe u v

/-- At most `cap` entries with distinct keys, oldest first. -/
@[ext] structure FifoCache (K : Type u) (V : Type v) (cap : Nat) where
  entries : List (K × V)
  nodup_keys : (entries.map Prod.fst).Nodup
  length_le : entries.length ≤ cap
  cap_pos : 0 < cap

namespace FifoCache

variable {K : Type u} {V : Type v} {cap : Nat}

/-- The keys, oldest first. -/
def keys (c : FifoCache K V cap) : List K := c.entries.map Prod.fst

/-- The cache without entries. -/
def empty (h : 0 < cap) : FifoCache K V cap where
  entries := []
  nodup_keys := List.nodup_nil
  length_le := Nat.zero_le _
  cap_pos := h

/-- A new key takes the newest place; the oldest entry leaves a full cache. -/
def push (c : FifoCache K V cap) (k : K) (v : V) (h : k ∉ c.keys) : FifoCache K V cap where
  entries := c.entries.drop (c.entries.length + 1 - cap) ++ [(k, v)]
  nodup_keys := by
    rw [List.map_append, List.nodup_append]
    refine ⟨c.nodup_keys.sublist ((List.drop_sublist _ _).map _), List.nodup_singleton _, ?_⟩
    rintro a ha b hb rfl
    obtain rfl : a = k := List.mem_singleton.1 hb
    exact h (((List.drop_sublist _ _).map Prod.fst).subset ha)
  length_le := by
    have h1 := c.length_le
    have h2 := c.cap_pos
    rw [List.length_append, List.length_drop, List.length_singleton]
    omega
  cap_pos := c.cap_pos

@[simp] theorem keys_empty (h : 0 < cap) : (empty h : FifoCache K V cap).keys = [] := rfl

theorem keys_push (c : FifoCache K V cap) (k : K) (v : V) (h : k ∉ c.keys) :
    (c.push k v h).keys = c.keys.drop (c.keys.length + 1 - cap) ++ [k] := by
  rw [keys, push, List.map_append, List.map_drop, keys, List.length_map]
  rfl

/-- The oldest entry leaves. -/
def dropOldest (c : FifoCache K V cap) : FifoCache K V cap where
  entries := c.entries.tail
  nodup_keys := c.nodup_keys.sublist ((List.tail_sublist _).map _)
  length_le := by
    rw [List.length_tail]
    exact Nat.le_trans (Nat.sub_le _ _) c.length_le
  cap_pos := c.cap_pos

/-- The newest entry leaves. -/
def dropNewest (c : FifoCache K V cap) : FifoCache K V cap where
  entries := c.entries.dropLast
  nodup_keys := c.nodup_keys.sublist ((List.dropLast_sublist _).map _)
  length_le := by
    rw [List.length_dropLast]
    exact Nat.le_trans (Nat.sub_le _ _) c.length_le
  cap_pos := c.cap_pos

theorem nodup (c : FifoCache K V cap) : c.keys.Nodup := c.nodup_keys

@[simp] theorem length_keys (c : FifoCache K V cap) : c.keys.length = c.entries.length :=
  List.length_map _

theorem eq_of_mem {c : FifoCache K V cap} {k : K} {v w : V} (hv : (k, v) ∈ c.entries)
    (hw : (k, w) ∈ c.entries) : v = w :=
  congrArg Prod.snd (List.inj_on_of_nodup_map c.nodup_keys hv hw rfl)

theorem mem_dropOldest {c : FifoCache K V cap} {e e' : K × V} (h : c.entries.head? = some e) :
    e' ∈ c.dropOldest.entries ↔ e'.1 ≠ e.1 ∧ e' ∈ c.entries := by
  obtain ⟨rest, hrest⟩ := List.head?_eq_some_iff.1 h
  have hnodup := c.nodup_keys
  show e' ∈ c.entries.tail ↔ _
  rw [hrest, List.map_cons, List.nodup_cons] at hnodup
  rw [hrest, List.tail_cons, List.mem_cons]
  constructor
  · intro h'
    refine ⟨?_, .inr h'⟩
    intro hc
    exact hnodup.1 (hc ▸ List.mem_map_of_mem h')
  · intro h'
    exact h'.2.resolve_left fun hc => h'.1 (hc ▸ rfl)

theorem mem_keys_dropOldest {c : FifoCache K V cap} {e : K × V} {k : K} (h : c.entries.head? = some e) :
    k ∈ c.dropOldest.keys ↔ k ≠ e.1 ∧ k ∈ c.keys := by
  rw [keys, keys, List.mem_map, List.mem_map]
  constructor
  · intro h'
    obtain ⟨e', he', rfl⟩ := h'
    have hmem := (mem_dropOldest h).1 he'
    exact ⟨hmem.1, e', hmem.2, rfl⟩
  · intro h'
    obtain ⟨hne, e', he', rfl⟩ := h'
    exact ⟨e', (mem_dropOldest h).2 ⟨hne, he'⟩, rfl⟩

theorem mem_dropNewest {c : FifoCache K V cap} {e e' : K × V} (h : c.entries.getLast? = some e) :
    e' ∈ c.dropNewest.entries ↔ e'.1 ≠ e.1 ∧ e' ∈ c.entries := by
  obtain ⟨init, hinit⟩ := List.getLast?_eq_some_iff.1 h
  have hnodup := c.nodup_keys
  show e' ∈ c.entries.dropLast ↔ _
  rw [hinit, List.map_append, List.nodup_append] at hnodup
  rw [hinit, List.dropLast_concat, List.mem_append, List.mem_singleton]
  constructor
  · intro h'
    refine ⟨?_, .inl h'⟩
    exact hnodup.2.2 _ (List.mem_map_of_mem h') _ List.mem_cons_self
  · intro h'
    exact h'.2.resolve_right fun hc => h'.1 (hc ▸ rfl)

variable [DecidableEq K]

/-- The value of a key. -/
def lookup (c : FifoCache K V cap) (k : K) : Option V :=
  (c.entries.find? fun e => decide (e.1 = k)).map Prod.snd

/-- A key that is held moves to the newest place. -/
def touch (c : FifoCache K V cap) (k : K) : FifoCache K V cap where
  entries := c.entries.filter (fun e => !decide (e.1 = k)) ++
    c.entries.filter (fun e => !!decide (e.1 = k))
  nodup_keys := ((List.filter_append_perm _ c.entries).map Prod.fst).nodup_iff.2 c.nodup_keys
  length_le := by
    rw [(List.filter_append_perm _ c.entries).length_eq]
    exact c.length_le
  cap_pos := c.cap_pos

/-- The value of a held key is replaced, and the key moves to the newest place; a new key is added. -/
def put (c : FifoCache K V cap) (k : K) (v : V) : FifoCache K V cap :=
  if h : k ∈ c.keys then
    { entries := c.entries.filter (fun e => !decide (e.1 = k)) ++ [(k, v)]
      nodup_keys := by
        rw [List.map_append, List.nodup_append]
        refine ⟨c.nodup_keys.sublist (List.filter_sublist.map _), List.nodup_singleton _, ?_⟩
        intro a ha b hb hab
        obtain rfl : b = k := List.mem_singleton.1 hb
        obtain ⟨e, he, hea⟩ := List.mem_map.1 ha
        have hne := (List.mem_filter.1 he).2
        simp [hea, hab] at hne
      length_le := by
        obtain ⟨e, he, hek⟩ := List.mem_map.1 h
        have hlt : (c.entries.filter fun e => !decide (e.1 = k)).length < c.entries.length :=
          List.length_filter_lt_length_iff_exists.2 ⟨e, he, by simp [hek]⟩
        have hle := c.length_le
        rw [List.length_append, List.length_singleton]
        omega
      cap_pos := c.cap_pos }
  else c.push k v h

/-- The entry of a key leaves. -/
def erase (c : FifoCache K V cap) (k : K) : FifoCache K V cap where
  entries := c.entries.filter fun e => !decide (e.1 = k)
  nodup_keys := c.nodup_keys.sublist (List.filter_sublist.map _)
  length_le := Nat.le_trans (List.length_filter_le _ _) c.length_le
  cap_pos := c.cap_pos

/-- Add an entry. -/
def add (c : FifoCache K V cap) (k : K) (v : V) : FifoCache K V cap :=
  if h : k ∈ c.keys then c.touch k else c.push k v h

theorem lookup_isSome_iff {c : FifoCache K V cap} {k : K} :
    (c.lookup k).isSome = true ↔ k ∈ c.keys := by
  rw [lookup, Option.isSome_map, List.find?_isSome, keys, List.mem_map]
  simp only [decide_eq_true_eq]

theorem lookup_eq_none_iff {c : FifoCache K V cap} {k : K} : c.lookup k = none ↔ k ∉ c.keys := by
  rw [← lookup_isSome_iff, Bool.not_eq_true, Option.isSome_eq_false_iff, Option.isNone_iff_eq_none]

theorem lookup_eq_some_iff {c : FifoCache K V cap} {k : K} {v : V} :
    c.lookup k = some v ↔ (k, v) ∈ c.entries := by
  rw [lookup, Option.map_eq_some_iff]
  constructor
  · intro h
    obtain ⟨e, he, rfl⟩ := h
    obtain rfl : e.1 = k := of_decide_eq_true (List.find?_some (p := fun e : K × V => decide (e.1 = k)) he)
    exact List.mem_of_find?_eq_some he
  · intro h
    cases he : c.entries.find? fun e => decide (e.1 = k) with
    | none => exact absurd (decide_eq_true rfl) (List.find?_eq_none.1 he _ h)
    | some e =>
      obtain rfl : e.1 = k :=
        of_decide_eq_true (List.find?_some (p := fun e : K × V => decide (e.1 = k)) he)
      exact ⟨e, rfl, eq_of_mem (List.mem_of_find?_eq_some he) h⟩

theorem mem_touch {c : FifoCache K V cap} {k : K} {e : K × V} :
    e ∈ (c.touch k).entries ↔ e ∈ c.entries :=
  (List.filter_append_perm _ c.entries).mem_iff

theorem mem_erase {c : FifoCache K V cap} {k : K} {e : K × V} :
    e ∈ (c.erase k).entries ↔ e.1 ≠ k ∧ e ∈ c.entries := by
  rw [erase, List.mem_filter, Bool.not_eq_true', decide_eq_false_iff_not, and_comm]

private theorem map_fst_filter_ne (c : FifoCache K V cap) (k : K) :
    (c.entries.filter fun e => !decide (e.1 = k)).map Prod.fst = c.keys.erase k := by
  rw [c.nodup.erase_eq_filter, keys, List.filter_map]
  rfl

theorem keys_erase (c : FifoCache K V cap) (k : K) : (c.erase k).keys = c.keys.erase k :=
  map_fst_filter_ne c k

theorem keys_touch {c : FifoCache K V cap} {k : K} (h : k ∈ c.keys) :
    (c.touch k).keys = c.keys.erase k ++ [k] := by
  have hself : (c.entries.filter fun e => !!decide (e.1 = k)).map Prod.fst = [k] := by
    have hfilter : (c.entries.filter fun e => !!decide (e.1 = k)).map Prod.fst =
        c.keys.filter (· == k) := by
      rw [keys, List.filter_map]
      congr 1
      apply List.filter_congr
      intro e _
      simp [beq_eq_decide]
    rw [hfilter, List.filter_beq, List.count_eq_one_of_mem c.nodup h, List.replicate_one]
  rw [keys, touch, List.map_append, map_fst_filter_ne, hself]

theorem keys_put (c : FifoCache K V cap) (k : K) (v : V) : (c.put k v).keys =
    if k ∈ c.keys then c.keys.erase k ++ [k] else c.keys.drop (c.keys.length + 1 - cap) ++ [k] := by
  rw [put]
  split
  · rw [keys, List.map_append, map_fst_filter_ne]
    rfl
  · exact keys_push c k v _

theorem entries_put_of_notMem {c : FifoCache K V cap} {k : K} (h : k ∉ c.keys) (v : V) :
    (c.put k v).entries = c.entries.drop (c.entries.length + 1 - cap) ++ [(k, v)] := by
  rw [put, dif_neg h]
  rfl

/-- Where there is room, nothing but the old value of the key leaves. -/
theorem mem_put {c : FifoCache K V cap} {k : K} (h : k ∈ c.keys ∨ c.entries.length < cap) {v : V}
    {e : K × V} : e ∈ (c.put k v).entries ↔ e = (k, v) ∨ e.1 ≠ k ∧ e ∈ c.entries := by
  by_cases hk : k ∈ c.keys
  · rw [put, dif_pos hk, List.mem_append, List.mem_filter, List.mem_singleton, Bool.not_eq_true',
      decide_eq_false_iff_not, and_comm, or_comm]
  · have hlt := h.resolve_left hk
    have hdrop : c.entries.length + 1 - cap = 0 := by omega
    rw [entries_put_of_notMem hk, hdrop, List.drop_zero, List.mem_append, List.mem_singleton, or_comm]
    constructor
    · intro he
      refine he.imp_right fun hmem => ⟨?_, hmem⟩
      intro hek
      exact hk (hek ▸ List.mem_map_of_mem hmem)
    · exact Or.imp_right And.right

/-- Where there is none, the oldest entry makes it. -/
theorem put_dropOldest {c : FifoCache K V cap} {k : K} (hk : k ∉ c.keys) (hfull : c.entries.length = cap)
    (v : V) : (c.dropOldest.put k v).entries = (c.put k v).entries := by
  have hcap := c.cap_pos
  have hk' : k ∉ c.dropOldest.keys := by
    intro h
    obtain ⟨e, he, hek⟩ := List.mem_map.1 h
    exact hk (hek ▸ List.mem_map_of_mem (List.mem_of_mem_tail he))
  have hlength : c.dropOldest.entries.length + 1 - cap = 0 := by
    show c.entries.tail.length + 1 - cap = 0
    rw [List.length_tail]
    omega
  have hone : c.entries.length + 1 - cap = 1 := by omega
  rw [entries_put_of_notMem hk, entries_put_of_notMem hk', hlength, hone, List.drop_zero, List.drop_one]
  rfl

private theorem filter_ne_of_notMem {c : FifoCache K V cap} {k : K} (h : k ∉ c.keys) :
    (c.entries.filter fun e => !decide (e.1 = k)) = c.entries := by
  rw [List.filter_eq_self]
  intro e he
  have hne : e.1 ≠ k := fun hc => h (hc ▸ List.mem_map_of_mem he)
  simp [hne]

theorem erase_of_notMem {c : FifoCache K V cap} {k : K} (h : k ∉ c.keys) : c.erase k = c := by
  ext1
  exact filter_ne_of_notMem h

theorem touch_of_notMem {c : FifoCache K V cap} {k : K} (h : k ∉ c.keys) : c.touch k = c := by
  have hself : (c.entries.filter fun e => !!decide (e.1 = k)) = [] := by
    rw [List.filter_eq_nil_iff]
    intro e he
    have hne : e.1 ≠ k := fun hc => h (hc ▸ List.mem_map_of_mem he)
    simp [hne]
  ext1
  show c.entries.filter _ ++ c.entries.filter _ = c.entries
  rw [filter_ne_of_notMem h, hself, List.append_nil]

theorem mem_keys_touch {c : FifoCache K V cap} {j k : K} : j ∈ (c.touch k).keys ↔ j ∈ c.keys :=
  ((List.filter_append_perm _ c.entries).map Prod.fst).mem_iff

/-- What was added is held. -/
theorem mem_keys_add_self (c : FifoCache K V cap) (k : K) (v : V) : k ∈ (c.add k v).keys := by
  rw [add]
  split
  · next h => exact mem_keys_touch.2 h
  · rw [keys_push]
    exact List.mem_append_right _ List.mem_cons_self

/-- Nothing but what was added is new. -/
theorem mem_keys_of_mem_add {c : FifoCache K V cap} {j k : K} {v : V} (h : j ∈ (c.add k v).keys) :
    j = k ∨ j ∈ c.keys := by
  rw [add] at h
  split at h
  · exact .inr (mem_keys_touch.1 h)
  · rw [keys_push, List.mem_append, List.mem_singleton] at h
    exact h.symm.imp_right List.mem_of_mem_drop

end FifoCache

end Hledac.Lib
