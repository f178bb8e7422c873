import Hledac.Lib.Dict
import Hledac.Lib.FifoCache
import Hledac.Lib.Lockstep

/-!
# The LRU cache

`LRUCache` keeps the values in a dictionary and the order of use in a list beside it;
`utils/cache/_sync.py:51-259`. The reference is one bounded list of pairs, least recently used first.
-/

namespace Hledac.Utils

open Hledac.Lib

/-- `CacheMetrics`; `utils/cache/_base.py:30-68`. -/
structure CacheMetrics where
  hits : Nat := 0
  misses : Nat := 0
  evictions : Nat := 0
  expirations : Nat := 0
  deriving DecidableEq, Repr

/-- What the operations raise. -/
inductive CacheError (K : Type) where
  | keyError (key : K)
  | empty (message : String)
  deriving DecidableEq

/-! ### The order -/

/-- `_OrderTracker`: the keys, least recently used first; `_base.py:108-171`. -/
structure OrderTracker (K : Type) where
  order : List K := []

namespace OrderTracker

variable {K : Type}

/-- `append`; `_base.py:134-136`. -/
def append (o : OrderTracker K) (key : K) : OrderTracker K := ⟨o.order ++ [key]⟩

/-- `pop_lru`; `_base.py:138-140`. -/
def popLru (o : OrderTracker K) : Option (K × OrderTracker K) :=
  match o.order with
  | [] => none
  | key :: rest => some (key, ⟨rest⟩)

/-- `pop_mru`; `_base.py:142-144`. -/
def popMru (o : OrderTracker K) : Option (K × OrderTracker K) :=
  o.order.getLast?.map fun key => (key, ⟨o.order.dropLast⟩)

variable [DecidableEq K]

/-- `touch`, which passes over a key that it does not hold; `_base.py:124-132`. -/
def touch (o : OrderTracker K) (key : K) : OrderTracker K :=
  match o.order.idxOf? key with
  | none => o
  | some idx => if idx < o.order.length - 1 then ⟨o.order.eraseIdx idx ++ [key]⟩ else o

/-- `remove`; `_base.py:146-152`. -/
def remove (o : OrderTracker K) (key : K) : Bool × OrderTracker K :=
  (decide (key ∈ o.order), ⟨o.order.erase key⟩)

theorem touch_of_notMem {o : OrderTracker K} {key : K} (h : key ∉ o.order) : o.touch key = o := by
  rw [touch, List.idxOf?_eq_none_iff.2 h]

theorem order_touch {o : OrderTracker K} {key : K} (h : key ∈ o.order) :
    (o.touch key).order = o.order.erase key ++ [key] := by
  obtain ⟨idx, hidx⟩ := Option.isSome_iff_exists.1 (List.isSome_idxOf?.2 h)
  obtain ⟨hlt, hget, _⟩ := List.idxOf?_eq_some_iff.1 hidx
  have herase : o.order.erase key = o.order.eraseIdx idx := by
    rw [List.erase_eq_eraseIdx, hidx]
  rw [touch, hidx, herase]
  simp only
  split
  · rfl
  · -- the key stands last already
    have hlast : idx = o.order.length - 1 := by omega
    subst hlast
    rw [List.eraseIdx_eq_dropLast (by omega)]
    conv_lhs => rw [← List.dropLast_append_getLast (List.ne_nil_of_mem h)]
    rw [List.getLast_eq_getElem, hget]

end OrderTracker

/-! ### The cache -/

/-- `LRUCache`; `_sync.py:51-86`. -/
structure LRUCache (K V : Type) where
  data : Dict K V := .empty
  order : OrderTracker K := {}
  maxSize : Nat
  metrics : CacheMetrics := {}

/-- The calls of the cache. -/
inductive CacheCall (K V : Type) where
  | get (key : K) (default : Option V)
  | getItem (key : K)
  | put (key : K) (value : V)
  | setItem (key : K) (value : V)
  | contains (key : K)
  | pop (key : K) (default : Option V)
  | popitem (last : Bool)
  | popLru
  | moveToEnd (key : K)
  | clear
  deriving DecidableEq

/-- What a call returns. -/
inductive CacheAnswer (K V : Type) where
  | value (v : Option V)
  | item (key : K) (value : V)
  | holds (b : Bool)
  | done
  deriving DecidableEq

namespace LRUCache

variable {K V : Type}

/-- `keys`; `_sync.py:246-248`. -/
def keys (s : LRUCache K V) : List K := s.order.order

/-- `__len__`. -/
def length (s : LRUCache K V) : Nat := s.data.size

/-- `clear`; `_sync.py:219-229`. -/
def clear (s : LRUCache K V) : LRUCache K V :=
  { s with data := .empty, order := {}, metrics := {} }

variable [DecidableEq K]

/-- `items`; `_sync.py:254-256`. -/
def items (s : LRUCache K V) : List (K × Option V) := s.order.order.map fun k => (k, s.data.get? k)

/-- A hit; the key becomes the most recently used. -/
def hit (s : LRUCache K V) (key : K) : LRUCache K V :=
  { s with order := s.order.touch key, metrics.hits := s.metrics.hits + 1 }

/-- A miss. -/
def miss (s : LRUCache K V) : LRUCache K V :=
  { s with metrics.misses := s.metrics.misses + 1 }

/-- `__getitem__`, `_get`; `_sync.py:88-102`. -/
def getItem (s : LRUCache K V) (key : K) : Except (CacheError K) V × LRUCache K V :=
  match s.data.get? key with
  | some value => (.ok value, s.hit key)
  | none => (.error (.keyError key), s.miss)

/-- `get`, `_get_or_default`; `_sync.py:199-213`. -/
def get (s : LRUCache K V) (key : K) (default : Option V) : Option V × LRUCache K V :=
  match s.data.get? key with
  | some value => (some value, s.hit key)
  | none => (default, s.miss)

/-- `self._data.pop(key)` for the key that has left the order. -/
def evicted (s : LRUCache K V) (key : K) : Except (CacheError K) (K × V) × LRUCache K V :=
  match s.data.get? key with
  | none => (.error (.keyError key), s)
  | some value =>
    (.ok (key, value),
      { s with data := s.data.erase key, metrics.evictions := s.metrics.evictions + 1 })

/-- `pop_lru`, `_pop_lru`; `_sync.py:149-171`. -/
def popLru (s : LRUCache K V) : Except (CacheError K) (K × V) × LRUCache K V :=
  match s.order.popLru with
  | none => (.error (.empty "pop_lru from empty cache"), s)
  | some (key, order) => { s with order := order }.evicted key

/-- `popitem`, `_popitem`; `_sync.py:173-197`. -/
def popitem (s : LRUCache K V) (last : Bool) : Except (CacheError K) (K × V) × LRUCache K V :=
  match if last then s.order.popMru else s.order.popLru with
  | none => (.error (.empty "popitem from empty cache"), s)
  | some (key, order) => { s with order := order }.evicted key

/-- Where the cache is full the least recently used entry makes room. -/
def makeRoom (s : LRUCache K V) : Except (CacheError K) Unit × LRUCache K V :=
  if s.maxSize ≤ s.data.size then s.popLru.map (·.map fun _ => ()) id else (.ok (), s)

/-- `__setitem__`, `_set`; `_sync.py:104-121`. -/
def setItem (s : LRUCache K V) (key : K) (value : V) : Except (CacheError K) Unit × LRUCache K V :=
  if key ∈ s.data.keys then
    (.ok (), { s with data := s.data.insert key value, order := s.order.touch key })
  else
    match s.makeRoom with
    | (.error e, s) => (.error e, s)
    | (.ok _, s) =>
      (.ok (), { s with data := s.data.insert key value, order := s.order.append key })

/-- `put`; `_sync.py:215-217`. -/
def put (s : LRUCache K V) (key : K) (value : V) : Except (CacheError K) Unit × LRUCache K V :=
  s.setItem key value

/-- `pop`, `_pop`; `_sync.py:231-244`. -/
def pop (s : LRUCache K V) (key : K) (default : Option V) : Option V × LRUCache K V :=
  match s.data.get? key with
  | none => (default, s)
  | some value => (some value, { s with data := s.data.erase key, order := (s.order.remove key).2 })

/-- `move_to_end`; `_sync.py:134-147`. -/
def moveToEnd (s : LRUCache K V) (key : K) : LRUCache K V :=
  { s with order := s.order.touch key }

/-- One call, and what it returns or raises. -/
def step (s : LRUCache K V) :
    CacheCall K V → Except (CacheError K) (CacheAnswer K V) × LRUCache K V
  | .get key default => (s.get key default).map (.ok <| .value ·) id
  | .getItem key => (s.getItem key).map (·.map fun v => .value (some v)) id
  | .put key value => (s.put key value).map (·.map fun _ => .done) id
  | .setItem key value => (s.setItem key value).map (·.map fun _ => .done) id
  | .contains key => (.ok <| .holds (key ∈ s.data.keys), s)
  | .pop key default => (s.pop key default).map (.ok <| .value ·) id
  | .popitem last => (s.popitem last).map (·.map fun e => .item e.1 e.2) id
  | .popLru => s.popLru.map (·.map fun e => .item e.1 e.2) id
  | .moveToEnd key => (.ok .done, s.moveToEnd key)
  | .clear => (.ok .done, s.clear)

end LRUCache

/-! ### The reference -/

/-- What the calls are documented to do, on one list of pairs. -/
def recencyStep {K V : Type} [DecidableEq K] {cap : Nat} (c : FifoCache K V cap) :
    CacheCall K V → Except (CacheError K) (CacheAnswer K V) × FifoCache K V cap
  | .get key default => (.ok (.value ((c.lookup key).or default)), c.touch key)
  | .getItem key => match c.lookup key with
    | some v => (.ok (.value (some v)), c.touch key)
    | none => (.error (.keyError key), c)
  | .put key value => (.ok .done, c.put key value)
  | .setItem key value => (.ok .done, c.put key value)
  | .contains key => (.ok (.holds (key ∈ c.keys)), c)
  | .pop key default => (.ok (.value ((c.lookup key).or default)), c.erase key)
  | .popitem true => match c.entries.getLast? with
    | some e => (.ok (.item e.1 e.2), c.dropNewest)
    | none => (.error (.empty "popitem from empty cache"), c)
  | .popitem false => match c.entries.head? with
    | some e => (.ok (.item e.1 e.2), c.dropOldest)
    | none => (.error (.empty "popitem from empty cache"), c)
  | .popLru => match c.entries.head? with
    | some e => (.ok (.item e.1 e.2), c.dropOldest)
    | none => (.error (.empty "pop_lru from empty cache"), c)
  | .moveToEnd key =>
    if key ∈ c.keys then (.ok .done, c.touch key) else (.error (.keyError key), c)
  | .clear => (.ok .done, .empty c.cap_pos)

namespace LRUCache

variable {K V : Type} [DecidableEq K] {cap : Nat}

/-- The cache holds what the list holds, and its order is that of the list. -/
structure Mirrors (s : LRUCache K V) (c : FifoCache K V cap) : Prop where
  order : s.order.order = c.keys
  data : ∀ k v, s.data.get? k = some v ↔ (k, v) ∈ c.entries
  maxSize : s.maxSize = cap

namespace Mirrors

variable {s : LRUCache K V} {c : FifoCache K V cap} {key : K} {value : V}

theorem get?_eq (h : s.Mirrors c) (key : K) : s.data.get? key = c.lookup key := by
  ext v
  rw [h.data, FifoCache.lookup_eq_some_iff]

theorem mem_keys_iff (h : s.Mirrors c) : key ∈ s.data.keys ↔ key ∈ c.keys := by
  rw [Dict.mem_keys_iff, h.get?_eq, FifoCache.lookup_isSome_iff]

theorem nodup (h : s.Mirrors c) : s.order.order.Nodup := by
  rw [h.order]
  exact c.nodup

theorem mem_order_iff (h : s.Mirrors c) : key ∈ s.order.order ↔ key ∈ s.data.keys := by
  rw [h.mem_keys_iff, h.order]

theorem size_eq (h : s.Mirrors c) : s.data.size = c.entries.length := by
  rw [Dict.size_eq_length h.nodup fun _ => h.mem_order_iff, h.order, FifoCache.length_keys]

theorem size_le (h : s.Mirrors c) : s.data.size ≤ s.maxSize := by
  rw [h.size_eq, h.maxSize]
  exact c.length_le

theorem metrics (h : s.Mirrors c) (m : CacheMetrics) : Mirrors { s with metrics := m } c :=
  ⟨h.order, h.data, h.maxSize⟩

theorem touch (h : s.Mirrors c) (hk : key ∈ c.keys) :
    Mirrors { s with order := s.order.touch key } (c.touch key) where
  order := by
    rw [OrderTracker.order_touch (h.order ▸ hk), h.order, FifoCache.keys_touch hk]
  data k v := by
    rw [FifoCache.mem_touch]
    exact h.data k v
  maxSize := h.maxSize

theorem touch_of_notMem (h : s.Mirrors c) (hk : key ∉ c.keys) :
    { s with order := s.order.touch key } = s := by
  rw [OrderTracker.touch_of_notMem (h.order ▸ hk)]

theorem evicted {c' : FifoCache K V cap} (h : s.Mirrors c) (he : (key, value) ∈ c.entries)
    (hc' : ∀ e, e ∈ c'.entries ↔ e.1 ≠ key ∧ e ∈ c.entries) :
    ∃ s' : LRUCache K V, s'.Mirrors c' ∧
      LRUCache.evicted { s with order := ⟨c'.keys⟩ } key = (.ok (key, value), s') := by
  refine ⟨{ s with
    data := s.data.erase key
    order := ⟨c'.keys⟩
    metrics := { s.metrics with evictions := s.metrics.evictions + 1 } }, ⟨rfl, ?_, h.maxSize⟩, ?_⟩
  · intro k v
    rw [hc', ← h.data, Dict.get?_erase]
    split
    · next hk => simp [hk]
    · next hk =>
      have hne : k ≠ key := fun hc => hk hc.symm
      simp [hne]
  · rw [LRUCache.evicted]
    simp only [(h.data key value).2 he]

theorem put (h : s.Mirrors c) (key : K) (value : V)
    (hroom : key ∈ c.keys ∨ c.entries.length < cap) :
    Mirrors { s with
      data := s.data.insert key value
      order := if key ∈ c.keys then s.order.touch key else s.order.append key } (c.put key value) where
  order := by
    rw [FifoCache.keys_put]
    split
    · next hk => rw [OrderTracker.order_touch (h.order ▸ hk), h.order]
    · next hk =>
      have hlt := hroom.resolve_left hk
      have hdrop : c.keys.length + 1 - cap = 0 := by
        rw [FifoCache.length_keys]
        omega
      rw [hdrop, List.drop_zero, OrderTracker.append, h.order]
  data k v := by
    rw [FifoCache.mem_put hroom, Dict.get?_insert, ← h.data, Prod.mk.injEq]
    split
    · next hk => simp [hk, eq_comm]
    · next hk =>
      have hne : k ≠ key := fun hc => hk hc.symm
      simp [hne]
  maxSize := h.maxSize

theorem erase (h : s.Mirrors c) (key : K) :
    Mirrors { s with data := s.data.erase key, order := (s.order.remove key).2 } (c.erase key) where
  order := by
    rw [FifoCache.keys_erase, ← h.order]
    rfl
  data k v := by
    rw [FifoCache.mem_erase, Dict.get?_erase, ← h.data]
    split
    · next hk => simp [hk]
    · next hk =>
      have hne : k ≠ key := fun hc => hk hc.symm
      simp [hne]
  maxSize := h.maxSize

theorem of_entries {c' : FifoCache K V cap} (h : s.Mirrors c) (hc : c.entries = c'.entries) :
    s.Mirrors c' where
  order := by
    rw [h.order, FifoCache.keys, hc, FifoCache.keys]
  data k v := by
    rw [h.data, hc]
  maxSize := h.maxSize

end Mirrors

/-! ### The operations on a cache that mirrors a list -/

section Spec

variable {s : LRUCache K V} {c : FifoCache K V cap}

theorem mirrors_new (h : 0 < cap) : ({ maxSize := cap } : LRUCache K V).Mirrors (.empty h) where
  order := rfl
  data _ _ := by simp [FifoCache.empty]
  maxSize := rfl

theorem hit_or_miss (h : s.Mirrors c) (key : K) :
    (match c.lookup key with
      | some _ => s.hit key
      | none => s.miss).Mirrors (c.touch key) := by
  cases hv : c.lookup key with
  | none =>
    rw [FifoCache.touch_of_notMem (FifoCache.lookup_eq_none_iff.1 hv)]
    exact h.metrics _
  | some v =>
    have hk : key ∈ c.keys := by
      rw [← FifoCache.lookup_isSome_iff, hv]
      rfl
    exact (h.touch hk).metrics _

theorem get_spec (h : s.Mirrors c) (key : K) (default : Option V) :
    (s.get key default).1 = (c.lookup key).or default ∧ (s.get key default).2.Mirrors (c.touch key) := by
  have hread := hit_or_miss h key
  rw [get, h.get?_eq]
  cases hv : c.lookup key with
  | none =>
    rw [hv] at hread
    exact ⟨rfl, hread⟩
  | some v =>
    rw [hv] at hread
    exact ⟨rfl, hread⟩

theorem getItem_spec (h : s.Mirrors c) (key : K) :
    (s.getItem key).1 = (match c.lookup key with
      | some v => .ok v
      | none => .error (.keyError key)) ∧ (s.getItem key).2.Mirrors (c.touch key) := by
  have hread := hit_or_miss h key
  rw [getItem, h.get?_eq]
  cases hv : c.lookup key with
  | none =>
    rw [hv] at hread
    exact ⟨rfl, hread⟩
  | some v =>
    rw [hv] at hread
    exact ⟨rfl, hread⟩

theorem pop_spec (h : s.Mirrors c) (key : K) (default : Option V) :
    (s.pop key default).1 = (c.lookup key).or default ∧ (s.pop key default).2.Mirrors (c.erase key) := by
  rw [pop, h.get?_eq]
  cases hv : c.lookup key with
  | none =>
    rw [FifoCache.erase_of_notMem (FifoCache.lookup_eq_none_iff.1 hv)]
    exact ⟨rfl, h⟩
  | some v =>
    exact ⟨rfl, h.erase key⟩

theorem popOldest_spec (h : s.Mirrors c) :
    match c.entries.head? with
    | none => s.order.popLru = none
    | some e => ∃ order s', s.order.popLru = some (e.1, order) ∧ s'.Mirrors c.dropOldest ∧
        evicted { s with order := order } e.1 = (.ok e, s') := by
  cases he : c.entries.head? with
  | none =>
    have hnil : s.order.order = [] := by
      rw [h.order, FifoCache.keys, List.head?_eq_none_iff.1 he, List.map_nil]
    show s.order.popLru = none
    rw [OrderTracker.popLru, hnil]
  | some e =>
    obtain ⟨rest, hrest⟩ := List.head?_eq_some_iff.1 he
    have hkeys : c.dropOldest.keys = rest.map Prod.fst := by
      show c.entries.tail.map Prod.fst = _
      rw [hrest, List.tail_cons]
    have hmem : (e.1, e.2) ∈ c.entries := by
      rw [hrest]
      exact List.mem_cons_self
    obtain ⟨s', hs', hevicted⟩ := h.evicted hmem fun _ => FifoCache.mem_dropOldest he
    refine ⟨_, s', ?_, hs', hevicted⟩
    rw [OrderTracker.popLru, h.order, hkeys, FifoCache.keys, hrest, List.map_cons]

theorem popNewest_spec (h : s.Mirrors c) :
    match c.entries.getLast? with
    | none => s.order.popMru = none
    | some e => ∃ order s', s.order.popMru = some (e.1, order) ∧ s'.Mirrors c.dropNewest ∧
        evicted { s with order := order } e.1 = (.ok e, s') := by
  cases he : c.entries.getLast? with
  | none =>
    have hnil : s.order.order = [] := by
      rw [h.order, FifoCache.keys, List.getLast?_eq_none_iff.1 he, List.map_nil]
    show s.order.popMru = none
    rw [OrderTracker.popMru, hnil]
    rfl
  | some e =>
    obtain ⟨init, hinit⟩ := List.getLast?_eq_some_iff.1 he
    have hkeys : c.dropNewest.keys = init.map Prod.fst := by
      show c.entries.dropLast.map Prod.fst = _
      rw [hinit, List.dropLast_concat]
    have hmem : (e.1, e.2) ∈ c.entries := by
      rw [hinit]
      exact List.mem_append_right _ List.mem_cons_self
    obtain ⟨s', hs', hevicted⟩ := h.evicted hmem fun _ => FifoCache.mem_dropNewest he
    refine ⟨_, s', ?_, hs', hevicted⟩
    rw [OrderTracker.popMru, h.order, hkeys, FifoCache.keys, hinit, List.map_append, List.map_singleton,
      List.getLast?_concat, List.dropLast_concat]
    rfl

theorem popLru_spec (h : s.Mirrors c) :
    match c.entries.head? with
    | none => s.popLru = (.error (.empty "pop_lru from empty cache"), s)
    | some e => ∃ s', s'.Mirrors c.dropOldest ∧ s.popLru = (.ok e, s') := by
  have hpop := popOldest_spec h
  cases he : c.entries.head? with
  | none =>
    rw [he] at hpop
    simp only at hpop
    rw [popLru, hpop]
  | some e =>
    rw [he] at hpop
    obtain ⟨order, s', horder, hs', hevicted⟩ := hpop
    refine ⟨s', hs', ?_⟩
    rw [popLru, horder]
    exact hevicted

theorem setItem_spec (h : s.Mirrors c) (key : K) (value : V) :
    ∃ s', s'.Mirrors (c.put key value) ∧ s.setItem key value = (.ok (), s') := by
  rw [setItem]
  by_cases hk : key ∈ c.keys
  · have hput := h.put key value (.inl hk)
    rw [if_pos hk] at hput
    exact ⟨_, hput, if_pos (h.mem_keys_iff.2 hk)⟩
  · rw [if_neg fun hc => hk (h.mem_keys_iff.1 hc), makeRoom, h.maxSize, h.size_eq]
    by_cases hfull : cap ≤ c.entries.length
    · have hcap := c.cap_pos
      have hlength : c.entries.length = cap := Nat.le_antisymm c.length_le hfull
      have hpop := popLru_spec h
      obtain ⟨e, he⟩ : ∃ e, c.entries.head? = some e := by
        apply Option.ne_none_iff_exists'.1
        rw [ne_eq, List.head?_eq_none_iff, ← List.length_eq_zero_iff]
        omega
      rw [he] at hpop
      obtain ⟨s', hs', hpopped⟩ := hpop
      have hk' : key ∉ c.dropOldest.keys := by
        intro hc
        obtain ⟨e', he', hek⟩ := List.mem_map.1 hc
        exact hk (hek ▸ List.mem_map_of_mem (List.mem_of_mem_tail he'))
      have hroom : c.dropOldest.entries.length < cap := by
        show c.entries.tail.length < cap
        rw [List.length_tail]
        omega
      have hput := (hs'.put key value (.inr hroom)).of_entries (FifoCache.put_dropOldest hk hlength value)
      rw [if_neg hk'] at hput
      rw [if_pos hfull, hpopped]
      exact ⟨_, hput, rfl⟩
    · have hput := h.put key value (.inr (Nat.lt_of_not_le hfull))
      rw [if_neg hk] at hput
      rw [if_neg hfull]
      exact ⟨_, hput, rfl⟩

theorem data_setItem {key : K} (hroom : key ∈ s.data.keys ∨ s.data.size < s.maxSize) (value : V) :
    (s.setItem key value).2.data = s.data.insert key value := by
  rw [setItem]
  split
  · rfl
  · next hk =>
    rw [makeRoom, if_neg (Nat.not_le_of_lt (hroom.resolve_left hk))]

theorem data_get (s : LRUCache K V) (key : K) (default : Option V) :
    (s.get key default).1 = (s.data.get? key).or default ∧ (s.get key default).2.data = s.data := by
  rw [get]
  cases s.data.get? key with
  | none => exact ⟨rfl, rfl⟩
  | some value => exact ⟨rfl, rfl⟩

theorem get?_evicted {s : LRUCache K V} {key k : K} {v : V}
    (h : (s.evicted key).2.data.get? k = some v) : s.data.get? k = some v := by
  rw [evicted] at h
  split at h
  · exact h
  · rw [Dict.get?_erase] at h
    split at h
    · cases h
    · exact h

theorem get?_popitem (s : LRUCache K V) (last : Bool) {k : K} {v : V}
    (h : (s.popitem last).2.data.get? k = some v) : s.data.get? k = some v := by
  rw [popitem] at h
  split at h
  · exact h
  · have hkept := get?_evicted h
    exact hkept

theorem get?_makeRoom (s : LRUCache K V) {k : K} {v : V} (h : s.makeRoom.2.data.get? k = some v) :
    s.data.get? k = some v := by
  rw [makeRoom] at h
  split at h
  · rw [Prod.map_snd, id_eq, popLru] at h
    split at h
    · exact h
    · have hkept := get?_evicted h
      exact hkept
  · exact h

theorem get?_setItem (s : LRUCache K V) {key k : K} {value v : V}
    (h : (s.setItem key value).2.data.get? k = some v) :
    key = k ∧ value = v ∨ s.data.get? k = some v := by
  have hinsert {t : LRUCache K V} (ht : (t.data.insert key value).get? k = some v) :
      key = k ∧ value = v ∨ t.data.get? k = some v := by
    rw [Dict.get?_insert] at ht
    split at ht
    · next hk => exact .inl ⟨hk, Option.some_inj.1 ht⟩
    · exact .inr ht
  rw [setItem] at h
  split at h
  · exact hinsert h
  · have hroom := get?_makeRoom s (k := k) (v := v)
    cases hmake : s.makeRoom with
    | mk result s' =>
      rw [hmake] at h hroom
      cases result with
      | error e => exact .inr (hroom h)
      | ok _ => exact (hinsert (t := s') h).imp_right hroom

theorem get?_of_setItem_error {s s' : LRUCache K V} {key k : K} {value v : V} {e : CacheError K}
    (h : s.setItem key value = (.error e, s')) (hk : s'.data.get? k = some v) :
    s.data.get? k = some v := by
  have hroom := get?_makeRoom s (k := k) (v := v)
  rw [setItem] at h
  split at h
  · cases h
  · cases hmake : s.makeRoom with
    | mk result s'' =>
      rw [hmake] at h hroom
      cases result with
      | error e' =>
        cases h
        exact hroom hk
      | ok _ => cases h

theorem popitem_of_empty (h : s.order.order = []) (last : Bool) : (s.popitem last).2 = s := by
  cases last with
  | true => rw [popitem, if_pos rfl, OrderTracker.popMru, h]; rfl
  | false => rw [popitem, if_neg Bool.false_ne_true, OrderTracker.popLru, h]

theorem popLru_of_empty (h : s.order.order = []) : s.popLru.2 = s := by
  rw [popLru, OrderTracker.popLru, h]

theorem popitem_spec (h : s.Mirrors c) (last : Bool) :
    (s.popitem last).2.Mirrors (recencyStep c (.popitem last)).2 ∧
      (s.popitem last).1.map (fun e => CacheAnswer.item e.1 e.2) =
        (recencyStep c (.popitem last)).1 := by
  cases last with
  | true =>
    have hpop := popNewest_spec h
    rw [popitem, recencyStep]
    cases he : c.entries.getLast? with
    | none =>
      rw [he] at hpop
      simp only at hpop
      rw [if_pos rfl, hpop]
      exact ⟨h, rfl⟩
    | some e =>
      rw [he] at hpop
      obtain ⟨order, s', horder, hs', hevicted⟩ := hpop
      rw [if_pos rfl, horder]
      simp only [hevicted]
      exact ⟨hs', rfl⟩
  | false =>
    have hpop := popOldest_spec h
    rw [popitem, recencyStep]
    cases he : c.entries.head? with
    | none =>
      rw [he] at hpop
      simp only at hpop
      rw [if_neg Bool.false_ne_true, hpop]
      exact ⟨h, rfl⟩
    | some e =>
      rw [he] at hpop
      obtain ⟨order, s', horder, hs', hevicted⟩ := hpop
      rw [if_neg Bool.false_ne_true, horder]
      simp only [hevicted]
      exact ⟨hs', rfl⟩

theorem mirrors_moveToEnd (h : s.Mirrors c) (key : K) : (s.moveToEnd key).Mirrors (c.touch key) := by
  by_cases hk : key ∈ c.keys
  · exact h.touch hk
  · rw [moveToEnd, h.touch_of_notMem hk, FifoCache.touch_of_notMem hk]
    exact h

theorem Mirrors.step (h : s.Mirrors c) (call : CacheCall K V) :
    (s.step call).2.Mirrors (recencyStep c call).2 := by
  cases call with
  | get key default => exact (get_spec h key default).2
  | getItem key =>
    have hread := (getItem_spec h key).2
    rw [recencyStep]
    cases hv : c.lookup key with
    | none =>
      rw [FifoCache.touch_of_notMem (FifoCache.lookup_eq_none_iff.1 hv)] at hread
      exact hread
    | some v => exact hread
  | put key value =>
    obtain ⟨s', hs', hput⟩ := setItem_spec h key value
    rw [LRUCache.step, LRUCache.put, hput]
    exact hs'
  | setItem key value =>
    obtain ⟨s', hs', hput⟩ := setItem_spec h key value
    rw [LRUCache.step, hput]
    exact hs'
  | contains key => exact h
  | pop key default => exact (pop_spec h key default).2
  | popitem last => exact (popitem_spec h last).1
  | popLru =>
    have hpop := popLru_spec h
    rw [recencyStep]
    cases he : c.entries.head? with
    | none =>
      rw [he] at hpop
      rw [LRUCache.step, hpop]
      exact h
    | some e =>
      rw [he] at hpop
      obtain ⟨s', hs', hpopped⟩ := hpop
      rw [LRUCache.step, hpopped]
      exact hs'
  | moveToEnd key =>
    have hmove := mirrors_moveToEnd h key
    rw [recencyStep]
    split
    · exact hmove
    · next hk =>
      rw [FifoCache.touch_of_notMem hk] at hmove
      exact hmove
  | clear => exact ⟨rfl, fun k v => by simp [LRUCache.step, LRUCache.clear, recencyStep, FifoCache.empty], h.maxSize⟩

/-- A key that is moved to the end is there. -/
def MovesHeld (s : LRUCache K V) : CacheCall K V → Prop
  | .moveToEnd key => key ∈ s.data.keys
  | _ => True

theorem answer_eq_iff (h : s.Mirrors c) (call : CacheCall K V) :
    (s.step call).1 = (recencyStep c call).1 ↔ s.MovesHeld call := by
  cases call with
  | get key default =>
    refine iff_of_true ?_ trivial
    rw [recencyStep, ← (get_spec h key default).1]
    rfl
  | getItem key =>
    refine iff_of_true ?_ trivial
    show (s.getItem key).1.map _ = _
    rw [(getItem_spec h key).1, recencyStep]
    cases c.lookup key <;> rfl
  | put key value =>
    obtain ⟨s', _, hput⟩ := setItem_spec h key value
    rw [step, put, hput]
    exact iff_of_true rfl trivial
  | setItem key value =>
    obtain ⟨s', _, hput⟩ := setItem_spec h key value
    rw [step, hput]
    exact iff_of_true rfl trivial
  | contains key =>
    refine iff_of_true ?_ trivial
    rw [step, recencyStep, decide_eq_decide.2 h.mem_keys_iff]
  | pop key default =>
    refine iff_of_true ?_ trivial
    rw [recencyStep, ← (pop_spec h key default).1]
    rfl
  | popitem last => exact iff_of_true (popitem_spec h last).2 trivial
  | popLru =>
    have hpop := popLru_spec h
    refine iff_of_true ?_ trivial
    rw [recencyStep]
    cases he : c.entries.head? with
    | none =>
      rw [he] at hpop
      rw [step, hpop]
      rfl
    | some e =>
      rw [he] at hpop
      obtain ⟨s', _, hpopped⟩ := hpop
      rw [step, hpopped]
      rfl
  | moveToEnd key =>
    rw [MovesHeld, h.mem_keys_iff, recencyStep, step]
    split
    · next hk => exact iff_of_true rfl hk
    · next hk => exact iff_of_false nofun hk
  | clear => exact iff_of_true rfl trivial

end Spec

end LRUCache

/-! ### Runs -/

section Runs

variable {K V : Type} [DecidableEq K] {cap : Nat}

/-- The cache before call number `i` of the run from an empty cache. -/
def cacheBefore (maxSize : Nat) (calls : List (CacheCall K V)) (i : Nat) : LRUCache K V :=
  stateBefore LRUCache.step { maxSize := maxSize } calls i

/-- The reference before the call. -/
def recencyBefore (h : 0 < cap) (calls : List (CacheCall K V)) (i : Nat) : FifoCache K V cap :=
  stateBefore recencyStep (.empty h) calls i

/-- The run answers as the reference does, and throughout it the cache lists the keys of the reference,
its two structures hold the same keys, and it is within its bound. -/
structure RefinesRecency (h : 0 < cap) (calls : List (CacheCall K V)) : Prop where
  answers : (runEach LRUCache.step { maxSize := cap } calls).1 =
    (runEach recencyStep (.empty h) calls).1
  keys : ∀ i, (cacheBefore cap calls i).keys = (recencyBefore h calls i).keys
  nodup : ∀ i, (cacheBefore cap calls i).order.order.Nodup
  inStep : ∀ i key, key ∈ (cacheBefore cap calls i).order.order ↔
    key ∈ (cacheBefore cap calls i).data.keys
  length_le : ∀ i, (cacheBefore cap calls i).length ≤ cap

private theorem mirrors_before (h : 0 < cap) (calls : List (CacheCall K V)) (i : Nat) :
    (cacheBefore cap calls i).Mirrors (recencyBefore h calls i) :=
  stateBefore_related (C := fun _ _ _ => True) (fun _ _ call hs _ => hs.step call)
    (LRUCache.mirrors_new h) (fun _ _ _ => trivial) i

/-- The cache is the documented one exactly as long as no absent key is moved to the end. -/
theorem refinesRecency_iff_movesHeld (h : 0 < cap) (calls : List (CacheCall K V)) :
    RefinesRecency h calls ↔
      ∀ i call, calls[i]? = some call → (cacheBefore cap calls i).MovesHeld call := by
  have hanswers : (runEach LRUCache.step _ calls).1.map id = (runEach recencyStep _ calls).1.map id ↔ _ :=
    runEach_agree_iff (R := fun (s : LRUCache K V) (c : FifoCache K V cap) => s.Mirrors c)
      (C := fun s _ call => s.MovesHeld call)
      (fun s c call hs => LRUCache.answer_eq_iff hs call) (fun s c call hs _ => hs.step call)
      (LRUCache.mirrors_new h) calls
  rw [List.map_id, List.map_id] at hanswers
  constructor
  · intro hr
    exact hanswers.1 hr.answers
  · intro hmoves
    refine ⟨hanswers.2 hmoves, fun i => (mirrors_before h calls i).order,
      fun i => (mirrors_before h calls i).nodup, fun i _ => (mirrors_before h calls i).mem_order_iff, ?_⟩
    intro i
    have hi := mirrors_before h calls i
    rw [LRUCache.length, hi.size_eq]
    exact FifoCache.length_le _

theorem refinesRecency_put_get :
    0 < 1 ∧ RefinesRecency (by decide : 0 < 1) [CacheCall.put "a" 1, .get "a" none, .moveToEnd "a"] :=
  ⟨by decide, (refinesRecency_iff_movesHeld _ _).2 fun i call hcall => by
    match i with
    | 0 =>
      cases hcall
      trivial
    | 1 =>
      cases hcall
      trivial
    | 2 =>
      cases hcall
      show "a" ∈ (cacheBefore 1 [CacheCall.put "a" 1, .get "a" none, .moveToEnd "a"] 2).data.keys
      decide
    | n + 3 => cases hcall⟩

/-- An empty cache raises nothing where a key is moved to the end. -/
theorem not_refinesRecency_absent :
    ¬ ∀ calls : List (CacheCall String Nat), RefinesRecency (by decide : 0 < 1) calls := by
  intro h
  have hanswers := (h [.moveToEnd "a"]).answers
  revert hanswers
  decide

end Runs

end Hledac.Utils
