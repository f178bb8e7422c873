import Mathlib.Algebra.Order.Ring.Rat
import Mathlib.Data.List.Nodup

/-!
# A bounded dictionary with time to live

`PyCacheDict`; `utils/cache.py:33-310`. Entries stand in recency order, oldest first. Each
operation takes the reading of `time.monotonic()` it makes; the hit and miss counters are left
out. Its documented invariants, distinct keys and at most `maxsize` entries, are fields.
-/

namespace Hledac.Utils

/-- `PyCacheDict`; `cache.py:33-65`. An entry is its key, its value and the time it was set. -/
structure PyCacheDict (K V : Type) where
  maxsize : Nat
  ttlS : ℚ
  data : List (K × V × ℚ)
  one_le_maxsize : 1 ≤ maxsize
  ttlS_nonneg : 0 ≤ ttlS
  nodup_keys : (data.map Prod.fst).Nodup
  length_le_maxsize : data.length ≤ maxsize

namespace PyCacheDict

variable {K V : Type}

/-- `__init__`, which clamps the bound and the time to live; `cache.py:57-65`. -/
def new (maxsize : Nat) (ttlS : ℚ) : PyCacheDict K V where
  maxsize := max 1 maxsize
  ttlS := max 0 ttlS
  data := []
  one_le_maxsize := Nat.le_max_left 1 maxsize
  ttlS_nonneg := le_max_left 0 ttlS
  nodup_keys := List.nodup_nil
  length_le_maxsize := Nat.zero_le _

/-- The entry was set longer ago than the time to live. -/
def Expired (c : PyCacheDict K V) (now : ℚ) (e : K × V × ℚ) : Prop :=
  now - e.2.2 > c.ttlS

instance (c : PyCacheDict K V) (now : ℚ) (e : K × V × ℚ) : Decidable (c.Expired now e) :=
  inferInstanceAs (Decidable (_ > _))

/-- Some of the entries, in their order. -/
def restrict (c : PyCacheDict K V) (p : K × V × ℚ → Bool) : PyCacheDict K V :=
  { c with
    data := c.data.filter p
    nodup_keys := c.nodup_keys.sublist (List.filter_sublist.map Prod.fst)
    length_le_maxsize := (List.length_filter_le p c.data).trans c.length_le_maxsize }

/-- `clear`; `cache.py:213-224`. -/
def clear (c : PyCacheDict K V) : PyCacheDict K V :=
  { c with data := [], nodup_keys := List.nodup_nil, length_le_maxsize := Nat.zero_le _ }

/-- `items`: the entries that have not expired. Expired ones are deleted;
`cache.py:243-264`. -/
def items (c : PyCacheDict K V) (now : ℚ) : List (K × V) × PyCacheDict K V :=
  let c' := c.restrict fun e => !decide (c.Expired now e)
  (c'.data.map fun e => (e.1, e.2.1), c')

/-- `keys`; `cache.py:266-268`. -/
def keys (c : PyCacheDict K V) (now : ℚ) : List K × PyCacheDict K V :=
  ((c.items now).1.map Prod.fst, (c.items now).2)

/-- `values`; `cache.py:270-272`. -/
def values (c : PyCacheDict K V) (now : ℚ) : List V × PyCacheDict K V :=
  ((c.items now).1.map Prod.snd, (c.items now).2)

/-- The oldest entries leave until there is room for one more; `cache.py:148-150`. -/
def evict (c : PyCacheDict K V) : PyCacheDict K V :=
  { c with
    data := c.data.drop (c.data.length + 1 - c.maxsize)
    nodup_keys := c.nodup_keys.sublist ((List.drop_sublist _ _).map Prod.fst)
    length_le_maxsize := by
      rw [List.length_drop]
      exact (Nat.sub_le _ _).trans c.length_le_maxsize }

theorem length_evict_lt (c : PyCacheDict K V) : c.evict.data.length < c.maxsize := by
  have h := c.one_le_maxsize
  show (c.data.drop _).length < c.maxsize
  rw [List.length_drop]
  omega

variable [DecidableEq K]

/-- `self._data.get(key)`. -/
def entry? (c : PyCacheDict K V) (key : K) : Option (K × V × ℚ) :=
  c.data.find? fun e => decide (e.1 = key)

/-- `del self._data[key]`. -/
def erase (c : PyCacheDict K V) (key : K) : PyCacheDict K V :=
  c.restrict fun e => !decide (e.1 = key)

theorem notMem_keys_erase (c : PyCacheDict K V) (key : K) :
    key ∉ (c.erase key).data.map Prod.fst := by
  intro h
  obtain ⟨e, he, hk⟩ := List.mem_map.1 h
  have := (List.mem_filter.1 he).2
  simp [hk] at this

/-- `self._data[key] = …` for a new key, where there is room. -/
def push (c : PyCacheDict K V) (e : K × V × ℚ) (hk : e.1 ∉ c.data.map Prod.fst)
    (hl : c.data.length < c.maxsize) : PyCacheDict K V :=
  { c with
    data := c.data ++ [e]
    nodup_keys := by
      rw [List.map_append]
      exact List.nodup_append.2 ⟨c.nodup_keys, List.nodup_singleton _, by
        rintro a ha b hb rfl
        simp only [List.map_cons, List.map_nil, List.mem_singleton] at hb
        exact hk (hb ▸ ha)⟩
    length_le_maxsize := by
      rw [List.length_append]
      exact hl }

theorem length_erase_lt {c : PyCacheDict K V} {key : K} (h : key ∈ c.data.map Prod.fst) :
    (c.erase key).data.length < c.maxsize := by
  obtain ⟨e, he, hk⟩ := List.mem_map.1 h
  have hlt : (c.erase key).data.length < c.data.length := by
    apply List.length_filter_lt_length_iff_exists.2
    exact ⟨e, he, by simp [hk]⟩
  exact hlt.trans_le c.length_le_maxsize

/-- `set`: a known key is updated and becomes the youngest entry; for a new one the oldest entries
make room; `cache.py:133-155`. -/
def set (c : PyCacheDict K V) (now : ℚ) (key : K) (value : V) : PyCacheDict K V :=
  if h : key ∈ c.data.map Prod.fst then
    (c.erase key).push (key, value, now) (c.notMem_keys_erase key) (length_erase_lt h)
  else
    c.evict.push (key, value, now)
      (fun hm => h (((List.drop_sublist _ _).map Prod.fst).subset hm)) c.length_evict_lt

/-- `self._data.move_to_end(key)`. -/
def moveToEnd (c : PyCacheDict K V) (e : K × V × ℚ) (h : e ∈ c.data) : PyCacheDict K V :=
  (c.erase e.1).push e (c.notMem_keys_erase e.1)
    (length_erase_lt (List.mem_map_of_mem h))

/-- `get`, and `__getitem__`, which raises where this gives `none`. A hit becomes the youngest entry
but keeps its time; an expired entry is deleted; `cache.py:69-113`. -/
def get (c : PyCacheDict K V) (now : ℚ) (key : K) : Option V × PyCacheDict K V :=
  match h : c.entry? key with
  | none => (none, c)
  | some e =>
    if c.Expired now e then (none, c.erase key)
    else (some e.2.1, c.moveToEnd e (List.mem_of_find?_eq_some h))

/-- `__contains__`; `cache.py:115-129`. -/
def contains (c : PyCacheDict K V) (now : ℚ) (key : K) : Bool × PyCacheDict K V :=
  match c.entry? key with
  | none => (false, c)
  | some e => if c.Expired now e then (false, c.erase key) else (true, c)

/-! ### What the cache operations keep -/

variable {c : PyCacheDict K V} {now : ℚ} {key : K}

theorem mem_of_mem_erase {e : K × V × ℚ} (h : e ∈ (c.erase key).data) : e ∈ c.data :=
  List.mem_of_mem_filter h

theorem mem_of_mem_contains {e : K × V × ℚ} (h : e ∈ (c.contains now key).2.data) :
    e ∈ c.data := by
  unfold contains at h
  split at h
  · exact h
  · split at h
    · exact mem_of_mem_erase h
    · exact h

theorem get_cases (c : PyCacheDict K V) (now : ℚ) (key : K) :
    (∀ e ∈ (c.get now key).2.data, e ∈ c.data) ∧
      match (c.get now key).1 with
      | some v => ∃ t, (key, v, t) ∈ c.data
      | none => key ∉ (c.get now key).2.data.map Prod.fst := by
  unfold get
  split
  · next h =>
    refine ⟨fun e he => he, ?_⟩
    intro hk
    obtain ⟨e, he, hek⟩ := List.mem_map.1 hk
    have := List.find?_eq_none.1 h e he
    simp [hek] at this
  · next e h =>
    have he := List.mem_of_find?_eq_some h
    have hk : e.1 = key := by simpa using List.find?_some h
    split
    · exact ⟨fun e he => mem_of_mem_erase he, c.notMem_keys_erase key⟩
    · constructor
      · intro e' he'
        rcases List.mem_append.1 he' with h' | h'
        · exact mem_of_mem_erase h'
        · rw [List.mem_singleton.1 h']
          exact he
      · exact ⟨e.2.2, by rw [← hk]; exact he⟩

theorem mem_of_mem_set {v : V} {e : K × V × ℚ} (h : e ∈ (c.set now key v).data) :
    e = (key, v, now) ∨ e ∈ c.data := by
  unfold set at h
  split at h
  · rcases List.mem_append.1 h with h' | h'
    · exact .inr (mem_of_mem_erase h')
    · exact .inl (List.mem_singleton.1 h')
  · rcases List.mem_append.1 h with h' | h'
    · exact .inr (List.mem_of_mem_drop h')
    · exact .inl (List.mem_singleton.1 h')

end PyCacheDict

end Hledac.Utils
