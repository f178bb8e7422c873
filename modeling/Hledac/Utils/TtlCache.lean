import Mathlib.Algebra.Order.Ring.Rat
import Hledac.Lib.Machine
import Hledac.Utils.LruCache

/-!
# The cache with time to live

`TTLCache` adds a table of times to `LRUCache`; `utils/cache/_sync.py:277-343`. It overrides what stores
and what reads; what removes entries is inherited.
-/

namespace Hledac.Utils

open Hledac.Lib

/-- `TTLCache`; `_sync.py:277-300`. -/
structure TTLCache (K V : Type) extends LRUCache K V where
  ttl : ℚ
  timestamps : Dict K ℚ := .empty

namespace TTLCache

variable {K V : Type} [DecidableEq K]

/-- `_set`, at the time `now`; `_sync.py:307-310`. -/
def setItem (s : TTLCache K V) (now : ℚ) (key : K) (value : V) :
    Except (CacheError K) Unit × TTLCache K V :=
  match s.toLRUCache.setItem key value with
  | (.error e, c) => (.error e, { s with toLRUCache := c })
  | (.ok _, c) =>
    (.ok (), { s with toLRUCache := c, timestamps := s.timestamps.insert key now })

/-- The keys whose time is too long ago. -/
def expired (s : TTLCache K V) (now : ℚ) : List K :=
  (s.timestamps.entries.filter fun e => decide (now - e.2 > s.ttl)).map Prod.fst

/-- An expired key that is there leaves all three structures. -/
def evictKey (s : TTLCache K V) (key : K) : TTLCache K V :=
  if key ∈ s.data.keys then
    { s with
      data := s.data.erase key
      order := (s.order.remove key).2
      timestamps := s.timestamps.erase key
      metrics.evictions := s.metrics.evictions + 1
      metrics.expirations := s.metrics.expirations + 1 }
  else s

/-- `_evict_expired`; `_sync.py:312-327`. The count is not used. -/
def evictExpired (s : TTLCache K V) (now : ℚ) : TTLCache K V :=
  if s.ttl ≤ 0 then s else (s.expired now).foldl evictKey s

/-- `get`; `_sync.py:329-332`. -/
def get (s : TTLCache K V) (now : ℚ) (key : K) (default : Option V) : Option V × TTLCache K V :=
  let s := s.evictExpired now
  let r := s.toLRUCache.get key default
  (r.1, { s with toLRUCache := r.2 })

/-- `__getitem__`, which also gives the key a new time; `_sync.py:334-343`. -/
def getItem (s : TTLCache K V) (now : ℚ) (key : K) : Except (CacheError K) V × TTLCache K V :=
  let s := s.evictExpired now
  match s.data.get? key with
  | some value => (.ok value,
      { s with toLRUCache := s.toLRUCache.hit key, timestamps := s.timestamps.insert key now })
  | none => (.error (.keyError key), { s with toLRUCache := s.toLRUCache.miss })

/-- One call at a time of the clock. -/
def step (s : TTLCache K V) (call : CacheCall K V × ℚ) :
    Except (CacheError K) (CacheAnswer K V) × TTLCache K V :=
  match call with
  | (.get key default, now) => (s.get now key default).map (.ok <| .value ·) id
  | (.getItem key, now) => (s.getItem now key).map (·.map fun v => .value (some v)) id
  | (.put key value, now) => (s.setItem now key value).map (·.map fun _ => .done) id
  | (.setItem key value, now) => (s.setItem now key value).map (·.map fun _ => .done) id
  | (inherited, _) =>
    let r := s.toLRUCache.step inherited
    (r.1, { s with toLRUCache := r.2 })

/-- The cache after a run of calls. -/
def run (s : TTLCache K V) (calls : List (CacheCall K V × ℚ)) : TTLCache K V :=
  calls.foldl (fun s call => (s.step call).2) s

/-! ### What it is for -/

/-- What a call stores under a key. -/
def storedBy (key : K) : CacheCall K V × ℚ → Option (V × ℚ)
  | (.put k v, now) => if k = key then some (v, now) else none
  | (.setItem k v, now) => if k = key then some (v, now) else none
  | _ => none

/-- The value that was stored last under a key, and when. -/
def lastStored (calls : List (CacheCall K V × ℚ)) (key : K) : Option (V × ℚ) :=
  calls.reverse.findSome? (storedBy key)

/-- The answer of a read, after the calls before it: the default, an error, or the value that was last
stored under the key, no longer ago than the time to live. -/
def ReadsLive (ttl : ℚ) (before : List (CacheCall K V × ℚ)) (call : CacheCall K V × ℚ)
    (answer : Except (CacheError K) (CacheAnswer K V)) : Prop :=
  match call with
  | (.get key default, now) => answer = .ok (.value default) ∨
      ∃ v t, answer = .ok (.value (some v)) ∧ lastStored before key = some (v, t) ∧ now - t ≤ ttl
  | (.getItem key, now) => answer = .error (.keyError key) ∨
      ∃ v t, answer = .ok (.value (some v)) ∧ lastStored before key = some (v, t) ∧ now - t ≤ ttl
  | _ => True

/-- The table of times has the keys of the data, and is within the bound. -/
structure Timed (s : TTLCache K V) : Prop where
  keys : ∀ key, key ∈ s.timestamps.keys ↔ key ∈ s.data.keys
  size_le : s.timestamps.size ≤ s.maxSize

/-- Throughout the run the table of times is that of the data, and what is read is live. -/
structure HoldsOnlyLive (s : TTLCache K V) (calls : List (CacheCall K V × ℚ)) : Prop where
  timed : ∀ pre, pre <+: calls → (s.run pre).Timed
  reads : ∀ pre call, pre ++ [call] <+: calls →
    ReadsLive s.ttl pre call ((s.run pre).step call).1

/-- The call takes away no entry but an expired one, and gives no entry a new time that it was not
stored at. -/
def LeavesTimes (s : TTLCache K V) : CacheCall K V × ℚ → Prop
  | (.put key _, _) => key ∈ s.data.keys ∨ s.data.size < s.maxSize
  | (.setItem key _, _) => key ∈ s.data.keys ∨ s.data.size < s.maxSize
  | (.pop key _, _) => key ∉ s.data.keys
  | (.popitem _, _) => s.data.size = 0
  | (.popLru, _) => s.data.size = 0
  | (.clear, _) => s.data.size = 0
  | (.getItem key, now) => ∀ t, s.timestamps.get? key = some t → t = now ∨ now - t > s.ttl
  | _ => True

/-! ### Expiry -/

/-- What the run so far has left: a cache in step, a time for each key, and under each key what was
stored there last. -/
structure Kept (cap : Nat) (ttl : ℚ) (before : List (CacheCall K V × ℚ)) (s : TTLCache K V) : Prop where
  mirrors : ∃ c : FifoCache K V cap, s.toLRUCache.Mirrors c
  ttl : s.ttl = ttl
  keys : ∀ key, key ∈ s.timestamps.keys ↔ key ∈ s.data.keys
  stored : ∀ key v t, s.data.get? key = some v → s.timestamps.get? key = some t →
    lastStored before key = some (v, t)

section Spec

variable {cap : Nat} {ttl now : ℚ} {before : List (CacheCall K V × ℚ)} {s : TTLCache K V} {key : K}

theorem Kept.timed (h : Kept cap ttl before s) : s.Timed where
  keys := h.keys
  size_le := by
    obtain ⟨c, hc⟩ := h.mirrors
    have hkeys : ∀ k, k ∈ s.order.order ↔ k ∈ s.timestamps.keys := by
      intro k
      rw [h.keys, hc.mem_order_iff]
    rw [Dict.size_eq_length hc.nodup hkeys, ← Dict.size_eq_length hc.nodup fun _ => hc.mem_order_iff]
    exact hc.size_le

theorem kept_new (h : 0 < cap) : Kept cap ttl [] ({ maxSize := cap, ttl := ttl } : TTLCache K V) where
  mirrors := ⟨_, LRUCache.mirrors_new h⟩
  ttl := rfl
  keys _ := Iff.rfl
  stored _ _ _ hv := by cases hv

theorem Kept.evictKey (h : Kept cap ttl before s) (key : K) : Kept cap ttl before (s.evictKey key) := by
  rw [TTLCache.evictKey]
  split
  · obtain ⟨c, hc⟩ := h.mirrors
    refine ⟨⟨_, (hc.erase key).metrics _⟩, h.ttl, ?_, ?_⟩
    · intro k
      show k ∈ (s.timestamps.erase key).keys ↔ k ∈ (s.data.erase key).keys
      rw [Dict.mem_keys_erase, Dict.mem_keys_erase, h.keys]
    · intro k v t hv ht
      rw [Dict.get?_erase] at hv ht
      split at hv
      · cases hv
      · next hne =>
        rw [if_neg hne] at ht
        exact h.stored k v t hv ht
  · exact h

theorem get?_timestamps_evictKey {k : K} {t : ℚ} (h : (s.evictKey key).timestamps.get? k = some t) :
    s.timestamps.get? k = some t := by
  rw [evictKey] at h
  split at h
  · rw [Dict.get?_erase] at h
    split at h
    · cases h
    · exact h
  · exact h

theorem mem_keys_evictKey {k : K} (h : k ∈ (s.evictKey key).data.keys) : k ≠ key ∧ k ∈ s.data.keys := by
  rw [evictKey] at h
  split at h
  · exact Dict.mem_keys_erase.1 h
  · next hkey =>
    refine ⟨?_, h⟩
    intro hk
    exact hkey (hk ▸ h)

theorem evictKeys_spec (h : Kept cap ttl before s) (keys : List K) :
    Kept cap ttl before (keys.foldl TTLCache.evictKey s) ∧
      (∀ k ∈ (keys.foldl TTLCache.evictKey s).data.keys, k ∉ keys) ∧
      ∀ k t, (keys.foldl TTLCache.evictKey s).timestamps.get? k = some t →
        s.timestamps.get? k = some t := by
  induction keys generalizing s with
  | nil => exact ⟨h, fun _ _ => List.not_mem_nil, fun _ _ ht => ht⟩
  | cons key keys ih =>
    obtain ⟨hkept, hout, htimes⟩ := ih (h.evictKey key)
    refine ⟨hkept, ?_, fun k t ht => get?_timestamps_evictKey (htimes k t ht)⟩
    intro k hk hmem
    cases List.mem_cons.1 hmem with
    | inl heq =>
      -- what is there after the other keys was there before them
      subst heq
      obtain ⟨t, ht⟩ := Option.isSome_iff_exists.1 (Dict.mem_keys_iff.1 ((hkept.keys k).2 hk))
      have hthere := Dict.mem_keys_of_get? (htimes k t ht)
      exact (mem_keys_evictKey (((h.evictKey k).keys k).1 hthere)).1 rfl
    | inr hrest => exact hout k hk hrest

theorem evictExpired_spec (hpos : 0 < ttl) (h : Kept cap ttl before s) (now : ℚ) :
    Kept cap ttl before (s.evictExpired now) ∧
      ∀ k t, (s.evictExpired now).timestamps.get? k = some t →
        now - t ≤ ttl ∧ s.timestamps.get? k = some t := by
  rw [evictExpired, if_neg (by rw [h.ttl]; exact not_le_of_gt hpos)]
  obtain ⟨hkept, hout, htimes⟩ := evictKeys_spec h (s.expired now)
  refine ⟨hkept, ?_⟩
  intro k t ht
  have hold := htimes k t ht
  refine ⟨?_, hold⟩
  by_contra hlate
  apply hout k ((hkept.keys k).1 (Dict.mem_keys_of_get? ht))
  rw [expired, List.mem_map]
  refine ⟨(k, t), List.mem_filter.2 ⟨Dict.get?_eq_some_iff.1 hold, ?_⟩, rfl⟩
  rw [h.ttl]
  exact decide_eq_true (lt_of_not_ge hlate)

/-! ### One call -/

theorem lastStored_concat (call : CacheCall K V × ℚ) (key : K) :
    lastStored (before ++ [call]) key = (storedBy key call).or (lastStored before key) := by
  rw [lastStored, List.reverse_append, List.reverse_singleton, List.singleton_append,
    List.findSome?_cons]
  cases storedBy key call <;> rfl

theorem Kept.silent (h : Kept cap ttl before s) {call : CacheCall K V × ℚ}
    (hcall : ∀ key, storedBy key call = none) : Kept cap ttl (before ++ [call]) s where
  mirrors := h.mirrors
  ttl := h.ttl
  keys := h.keys
  stored key v t hv ht := by
    rw [lastStored_concat, hcall, Option.none_or]
    exact h.stored key v t hv ht

theorem Kept.of_data (h : Kept cap ttl before s) {lru : LRUCache K V} {c : FifoCache K V cap}
    (hc : lru.Mirrors c) (hdata : lru.data = s.data) :
    Kept cap ttl before { s with toLRUCache := lru } where
  mirrors := ⟨c, hc⟩
  ttl := h.ttl
  keys key := by
    show _ ↔ key ∈ lru.data.keys
    rw [hdata]
    exact h.keys key
  stored key v t hv := by
    rw [show lru.data.get? key = s.data.get? key by rw [hdata]] at hv
    exact h.stored key v t hv

theorem kept_setItem (h : Kept cap ttl before s) {value : V}
    (hroom : key ∈ s.data.keys ∨ s.data.size < s.maxSize) {call : CacheCall K V × ℚ}
    (hcall : ∀ k, storedBy k call = if key = k then some (value, now) else none) :
    Kept cap ttl (before ++ [call]) (s.setItem now key value).2 := by
  obtain ⟨c, hc⟩ := h.mirrors
  obtain ⟨lru, hlru, hset⟩ := LRUCache.setItem_spec hc key value
  have hdata := LRUCache.data_setItem hroom value
  rw [hset] at hdata
  rw [setItem, hset]
  refine ⟨⟨_, hlru⟩, h.ttl, ?_, ?_⟩
  · intro k
    show k ∈ (s.timestamps.insert key now).keys ↔ k ∈ lru.data.keys
    rw [show lru.data = s.data.insert key value from hdata, Dict.mem_keys_insert, Dict.mem_keys_insert,
      h.keys]
  · intro k v t hv ht
    rw [lastStored_concat, hcall]
    rw [show lru.data = s.data.insert key value from hdata, Dict.get?_insert] at hv
    rw [Dict.get?_insert] at ht
    split
    · next hk =>
      rw [if_pos hk] at hv ht
      cases hv
      cases ht
      rfl
    · next hk =>
      rw [if_neg hk] at hv ht
      exact h.stored k v t hv ht

theorem readsLive_get (hpos : 0 < ttl) (h : Kept cap ttl before s) (key : K) (default : Option V) :
    ReadsLive ttl before (.get key default, now) (s.step (.get key default, now)).1 := by
  obtain ⟨hkept, hlive⟩ := evictExpired_spec hpos h now
  have hanswer : (s.step (.get key default, now)).1 =
      .ok (.value ((s.evictExpired now).toLRUCache.get key default).1) := rfl
  rw [LRUCache.get] at hanswer
  cases hv : (s.evictExpired now).data.get? key with
  | none =>
    rw [hv] at hanswer
    exact .inl hanswer
  | some v =>
    rw [hv] at hanswer
    have hkey := (hkept.keys key).2 (Dict.mem_keys_of_get? hv)
    obtain ⟨t, ht⟩ := Option.isSome_iff_exists.1 (Dict.mem_keys_iff.1 hkey)
    exact .inr ⟨v, t, hanswer, hkept.stored key v t hv ht, (hlive key t ht).1⟩

theorem readsLive_getItem (hpos : 0 < ttl) (h : Kept cap ttl before s) (key : K) :
    ReadsLive ttl before (.getItem key, now) (s.step (.getItem key, now)).1 := by
  obtain ⟨hkept, hlive⟩ := evictExpired_spec hpos h now
  have hanswer : (s.step (.getItem key, now)).1 =
      (s.getItem now key).1.map fun v => .value (some v) := rfl
  rw [getItem] at hanswer
  cases hv : (s.evictExpired now).data.get? key with
  | none =>
    rw [hv] at hanswer
    exact .inl hanswer
  | some v =>
    rw [hv] at hanswer
    have hkey := (hkept.keys key).2 (Dict.mem_keys_of_get? hv)
    obtain ⟨t, ht⟩ := Option.isSome_iff_exists.1 (Dict.mem_keys_iff.1 hkey)
    exact .inr ⟨v, t, hanswer, hkept.stored key v t hv ht, (hlive key t ht).1⟩

theorem Kept.step (hpos : 0 < ttl) (h : Kept cap ttl before s) {call : CacheCall K V × ℚ}
    (hcall : s.LeavesTimes call) : Kept cap ttl (before ++ [call]) (s.step call).2 := by
  obtain ⟨call, now⟩ := call
  obtain ⟨c, hc⟩ := h.mirrors
  have hempty (hsize : s.data.size = 0) : s.order.order = [] := by
    rw [← List.length_eq_zero_iff, ← Dict.size_eq_length hc.nodup fun _ => hc.mem_order_iff]
    exact hsize
  cases call with
  | get key default =>
    obtain ⟨hkept, _⟩ := evictExpired_spec hpos h now
    obtain ⟨c', hc'⟩ := hkept.mirrors
    have hdata : ((s.evictExpired now).toLRUCache.get key default).2.data =
        (s.evictExpired now).data := by
      rw [LRUCache.get]
      split <;> rfl
    exact (hkept.of_data (LRUCache.get_spec hc' key default).2 hdata).silent fun _ => rfl
  | getItem key =>
    obtain ⟨hkept, hlive⟩ := evictExpired_spec hpos h now
    obtain ⟨c', hc'⟩ := hkept.mirrors
    have hread := LRUCache.hit_or_miss hc' key
    show Kept cap ttl (before ++ [(.getItem key, now)]) (s.getItem now key).2
    rw [getItem]
    rw [← hc'.get?_eq] at hread
    cases hv : (s.evictExpired now).data.get? key with
    | none =>
      rw [hv] at hread
      exact (hkept.of_data hread rfl).silent fun _ => rfl
    | some v =>
      rw [hv] at hread
      have hkey := (hkept.keys key).2 (Dict.mem_keys_of_get? hv)
      obtain ⟨t, ht⟩ := Option.isSome_iff_exists.1 (Dict.mem_keys_iff.1 hkey)
      obtain ⟨hage, hold⟩ := hlive key t ht
      -- the time is not a new one
      obtain rfl : now = t := by
        symm
        apply (hcall t hold).resolve_right
        rw [h.ttl]
        exact not_lt_of_ge hage
      have hkept' : Kept cap ttl (before ++ [(.getItem key, now)]) _ :=
        (hkept.of_data hread rfl).silent fun _ => rfl
      refine ⟨hkept'.mirrors, hkept'.ttl, ?_, ?_⟩
      · intro k
        show k ∈ ((s.evictExpired now).timestamps.insert key now).keys ↔ _
        rw [Dict.mem_keys_insert, ← hkept'.keys]
        constructor
        · intro hk
          cases hk with
          | inl hk => rwa [hk]
          | inr hk => exact hk
        · exact .inr
      · intro k w u hw hu
        apply hkept'.stored k w u hw
        rw [Dict.get?_insert] at hu
        split at hu
        · next hk =>
          rw [← hk, ← Option.some_inj.1 hu]
          exact ht
        · exact hu
  | put key value => exact kept_setItem h hcall fun _ => rfl
  | setItem key value => exact kept_setItem h hcall fun _ => rfl
  | contains key => exact h.silent fun _ => rfl
  | pop key default =>
    have hpop : s.toLRUCache.pop key default = (default, s.toLRUCache) := by
      rw [LRUCache.pop, Dict.notMem_keys_iff.1 hcall]
    show Kept cap ttl (before ++ [(.pop key default, now)])
      { s with toLRUCache := (s.toLRUCache.pop key default).2 }
    rw [hpop]
    exact h.silent fun _ => rfl
  | popitem last =>
    show Kept cap ttl (before ++ [(.popitem last, now)])
      { s with toLRUCache := (s.toLRUCache.popitem last).2 }
    rw [LRUCache.popitem_of_empty (hempty hcall) last]
    exact h.silent fun _ => rfl
  | popLru =>
    show Kept cap ttl (before ++ [(.popLru, now)]) { s with toLRUCache := s.toLRUCache.popLru.2 }
    rw [LRUCache.popLru_of_empty (hempty hcall)]
    exact h.silent fun _ => rfl
  | moveToEnd key =>
    exact (h.of_data (LRUCache.mirrors_moveToEnd hc key) rfl).silent fun _ => rfl
  | clear =>
    have hkeys : s.data.keys = [] := by
      rw [← List.length_eq_zero_iff, Dict.length_keys]
      exact hcall
    refine (Kept.silent ?_ fun _ => rfl : Kept cap ttl (before ++ [(.clear, now)]) _)
    refine ⟨⟨_, hc.step .clear⟩, h.ttl, ?_, fun _ _ _ hv => by cases hv⟩
    intro k
    show k ∈ s.timestamps.keys ↔ k ∈ (Dict.empty : Dict K V).keys
    rw [h.keys, hkeys, Dict.keys_empty]

end Spec

/-! ### Runs -/

section Runs

variable {cap : Nat} {ttl : ℚ} {calls : List (CacheCall K V × ℚ)}

private theorem kept_run (hcap : 0 < cap) (hpos : 0 < ttl)
    (h : StepsMeet (fun (s : TTLCache K V) call => (s.step call).2) LeavesTimes
      { maxSize := cap, ttl := ttl } calls) :
    Kept cap ttl calls (run { maxSize := cap, ttl := ttl } calls) := by
  induction calls using List.reverseRecOn with
  | nil => exact kept_new hcap
  | append_singleton calls call ih =>
    obtain ⟨hcalls, hcall⟩ := stepsMeet_concat.1 h
    rw [run, List.foldl_append]
    exact (ih hcalls).step hpos hcall

/-- In a run that takes away no live entry and refreshes none, the table of times follows the data and
nothing is read too late. -/
theorem holdsOnlyLive_of_leavesTimes (hcap : 0 < cap) (hpos : 0 < ttl)
    (h : StepsMeet (fun (s : TTLCache K V) call => (s.step call).2) LeavesTimes
      { maxSize := cap, ttl := ttl } calls) :
    HoldsOnlyLive { maxSize := cap, ttl := ttl } calls := by
  have hpre {pre : List (CacheCall K V × ℚ)} (hp : pre <+: calls) :
      Kept cap ttl pre (run { maxSize := cap, ttl := ttl } pre) := by
    obtain ⟨rest, rfl⟩ := hp
    exact kept_run hcap hpos (stepsMeet_append.1 h).1
  constructor
  · intro pre hp
    exact (hpre hp).timed
  · intro pre call hp
    have hkept := hpre ((List.prefix_append pre [call]).trans hp)
    obtain ⟨call, now⟩ := call
    cases call with
    | get key default => exact readsLive_get hpos hkept key default
    | getItem key => exact readsLive_getItem hpos hkept key
    | _ => trivial

theorem holdsOnlyLive_put_get : HoldsOnlyLive ({ maxSize := 1, ttl := 1 } : TTLCache String Nat)
    [(.put "a" 1, 0), (.get "a" none, 1), (.pop "b" none, 2)] := by
  apply holdsOnlyLive_of_leavesTimes (by decide) (by decide)
  refine ⟨.inr (by decide), trivial, ?_, trivial⟩
  show "b" ∉ _
  decide +kernel

/-- A key that is popped leaves its time behind. -/
theorem not_holdsOnlyLive_popped :
    ¬ ∀ calls : List (CacheCall String Nat × ℚ), HoldsOnlyLive { maxSize := 1, ttl := 1 } calls := by
  intro h
  have hkeys := ((h [(.put "a" 1, 0), (.pop "a" none, 1)]).timed _ (List.prefix_refl _)).keys "a"
  revert hkeys
  decide

end Runs

end TTLCache

end Hledac.Utils
