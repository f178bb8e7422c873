import Mathlib.Algebra.Order.Ring.Rat
import Hledac.Lib.Machine
import Hledac.Utils.ArcCache

/-!
# The adaptive cache

`IntelligentCache` keeps its entries in a dictionary, their order of use in an LRU cache, and the victims
of an eviction in the lists of `_ARC`; `utils/cache/_adaptive.py:241-509`. The operations run under one
lock and do not pause under it.
-/

namespace Hledac.Utils

open Hledac.Lib

/-- `CacheConfig`; lines 83-95. -/
structure CacheConfig where
  maxSizeBytes : ℤ := 100 * 1024 * 1024
  maxEntries : Nat := 10000
  defaultTtl : ℤ := 3600

/-- `CacheEntry`; lines 98-108. -/
structure CacheEntry (V : Type) where
  value : V
  sizeBytes : ℤ
  createdAt : ℚ
  expiresAt : ℚ
  accessCount : Nat := 0
  lastAccessed : ℚ

/-- `IntelligentCache` with its `CacheStats`; lines 276-302. -/
structure IntelligentCache (V : Type) where
  config : CacheConfig := {}
  cache : Dict String (CacheEntry V) := .empty
  accessOrder : LRUCache String Unit := { maxSize := config.maxEntries }
  arc : ARC := { maxEntries := config.maxEntries, maxSizeBytes := config.maxSizeBytes }
  initialized : Bool := false
  totalSizeBytes : ℤ := 0
  entryCount : Nat := 0
  hits : Nat := 0
  misses : Nat := 0
  evictions : Nat := 0

/-- The operations, with what they read from the clock. -/
inductive AdaptiveOp (V : Type) where
  | set (key : String) (value : V) (ttl sizeBytes : Option ℤ) (estimate : ℤ) (now : ℚ)
  | get (key : String) (now accessed : ℚ)
  | delete (key : String)
  | clear
  | cleanup (now : ℚ)
  deriving DecidableEq

namespace IntelligentCache

variable {V : Type}

/-- `_remove_entry`; lines 442-450. -/
def removeEntry (s : IntelligentCache V) (key : String) : IntelligentCache V :=
  match s.cache.get? key with
  | none => s
  | some entry => { s with
      totalSizeBytes := s.totalSizeBytes - entry.sizeBytes
      cache := s.cache.erase key
      accessOrder := (s.accessOrder.pop key none).2 }

/-! ### Eviction -/

/-- The condition of the loop of `_evict_if_needed`. -/
def NeedsRoom (s : IntelligentCache V) (required : ℤ) : Prop :=
  (s.config.maxSizeBytes < s.totalSizeBytes + required ∨ s.config.maxEntries ≤ s.cache.size) ∧
    s.cache.size ≠ 0

instance (s : IntelligentCache V) (required : ℤ) : Decidable (s.NeedsRoom required) :=
  inferInstanceAs (Decidable (_ ∧ _))

/-- `self._arc.evict_one()` for a key that is not cached. -/
def evictAgain (s : IntelligentCache V) :
    Option (Except (CacheError String) Unit) × IntelligentCache V :=
  match s.arc.evictOne with
  | (.error e, arc) => (some (.error e), { s with arc := arc })
  | (.ok _, arc) => (none, { s with arc := arc })

/-- One round of the loop of `_evict_if_needed`, with how it leaves the loop if it does;
lines 460-469. -/
def evictStep (s : IntelligentCache V) :
    Option (Except (CacheError String) Unit) × IntelligentCache V :=
  match s.arc.evictOne with
  | (.error e, arc) => (some (.error e), { s with arc := arc })
  | (.ok none, arc) =>
    if s.accessOrder.length = 0 then (some (.ok ()), { s with arc := arc })
    else
      match s.accessOrder.popLru with
      | (.error e, order) => (some (.error e), { s with arc := arc, accessOrder := order })
      -- `pop_lru` answers with a pair, which is no key of the cache
      | (.ok _, order) => { s with arc := arc, accessOrder := order }.evictAgain
  | (.ok (some key), arc) =>
    let s := { s with arc := arc }
    if key ≠ "" ∧ key ∈ s.cache.keys then
      (none, { s.removeEntry key with evictions := s.evictions + 1 })
    else if key ≠ "" then s.evictAgain
    else (none, s)

/-- At most `n` rounds of the loop; nothing where it has not come to its end by then. -/
def evictLoop (required : ℤ) :
    Nat → IntelligentCache V → Option (Except (CacheError String) Unit × IntelligentCache V)
  | 0, _ => none
  | n + 1, s =>
    if s.NeedsRoom required then
      match s.evictStep with
      | (some result, s) => some (result, s)
      | (none, s) => evictLoop required n s
    else some (.ok (), s)

/-- The keys along the orders of the cache and of its lists. -/
def pending (s : IntelligentCache V) : Nat := s.arc.orderLength + s.accessOrder.order.order.length

theorem pending_evictAgain {s s' : IntelligentCache V} (h : s.evictAgain = (none, s')) :
    s'.pending ≤ s.pending := by
  rw [evictAgain] at h
  rcases s.arc.evictOne_cases with ⟨e, he⟩ | he | ⟨key, he, hlength⟩
  · rw [he] at h
    cases h
  · rw [he] at h
    cases h
    exact Nat.le_refl _
  · rw [he] at h
    cases h
    show s.arc.evictOne.2.orderLength + s.accessOrder.order.order.length ≤ s.pending
    rw [pending]
    omega

theorem pending_removeEntry (s : IntelligentCache V) (key : String) :
    (s.removeEntry key).pending ≤ s.pending := by
  rw [removeEntry]
  split
  · exact Nat.le_refl _
  · have hpop : (s.accessOrder.pop key none).2.order.order.length ≤
        s.accessOrder.order.order.length := by
      rw [LRUCache.pop]
      split
      · exact Nat.le_refl _
      · exact List.erase_sublist.length_le
    exact Nat.add_le_add_left hpop _

theorem pending_evictStep {s s' : IntelligentCache V} (h : s.evictStep = (none, s')) :
    s'.pending < s.pending := by
  rw [evictStep] at h
  rcases s.arc.evictOne_cases with ⟨e, he⟩ | he | ⟨key, he, hlength⟩
  · rw [he] at h
    cases h
  · rw [he] at h
    simp only at h
    split at h
    · cases h
    · cases hpop : s.accessOrder.popLru with
      | mk result order =>
        rw [hpop] at h
        cases result with
        | error e => cases h
        | ok entry =>
          have horder := LRUCache.length_order_popLru hpop
          have hle := pending_evictAgain h
          have hless : ({ s with accessOrder := order } : IntelligentCache V).pending < s.pending := by
            show s.arc.orderLength + order.order.order.length < s.arc.orderLength + _
            omega
          exact Nat.lt_of_le_of_lt hle hless
  · rw [he] at h
    simp only at h
    have hless : ({ s with arc := s.arc.evictOne.2 } : IntelligentCache V).pending < s.pending := by
      show s.arc.evictOne.2.orderLength + s.accessOrder.order.order.length < s.pending
      rw [pending]
      omega
    split at h
    · cases h
      exact Nat.lt_of_le_of_lt (pending_removeEntry _ key) hless
    · split at h
      · exact Nat.lt_of_le_of_lt (pending_evictAgain h) hless
      · cases h
        exact hless

theorem evictLoop_isSome (required : ℤ) {n : Nat} {s : IntelligentCache V} (h : s.pending < n) :
    (evictLoop required n s).isSome = true := by
  induction n generalizing s with
  | zero => cases h
  | succ n ih =>
    rw [evictLoop]
    split
    · cases hstep : s.evictStep with
      | mk result s' =>
        cases result with
        | some r => rfl
        | none =>
          have hless := pending_evictStep hstep
          exact ih (by omega)
    · rfl

/-- `_evict_if_needed`; lines 452-469. -/
def evictIfNeeded (s : IntelligentCache V) (required : ℤ) :
    Except (CacheError String) Unit × IntelligentCache V :=
  (evictLoop required (s.pending + 1) s).get (evictLoop_isSome required (Nat.lt_succ_self _))

/-! ### The operations -/

/-- `set` from the new entry on; lines 401-417. -/
def putEntry (s : IntelligentCache V) (key : String) (value : V) (ttl : Option ℤ) (sizeBytes : ℤ)
    (now : ℚ) : Except (CacheError String) Bool × IntelligentCache V :=
  let lifetime := match ttl with
    | none => s.config.defaultTtl
    | some t => if t = 0 then s.config.defaultTtl else t
  let entry : CacheEntry V :=
    { value := value
      sizeBytes := sizeBytes
      createdAt := now
      expiresAt := now + lifetime
      lastAccessed := now }
  let s := { s with cache := s.cache.insert key entry }
  match s.accessOrder.setItem key () with
  | (.error e, order) => (.error e, { s with accessOrder := order })
  | (.ok _, order) =>
    match s.arc.onSet key sizeBytes with
    | (.error e, arc) => (.error e, { s with accessOrder := order, arc := arc })
    | (.ok _, arc) => (.ok true, { s with
        accessOrder := order
        arc := arc
        totalSizeBytes := s.totalSizeBytes + sizeBytes
        entryCount := s.cache.size })

/-- The value is more than a tenth of the cache. -/
def TooLarge (s : IntelligentCache V) (sizeBytes : ℤ) : Prop := s.config.maxSizeBytes < 10 * sizeBytes

instance (s : IntelligentCache V) (sizeBytes : ℤ) : Decidable (s.TooLarge sizeBytes) :=
  inferInstanceAs (Decidable (_ < _))

/-- `set`; lines 378-417. -/
def set (s : IntelligentCache V) (key : String) (value : V) (ttl sizeBytes : Option ℤ) (estimate : ℤ)
    (now : ℚ) : Except (CacheError String) Bool × IntelligentCache V :=
  if s.initialized = false then (.ok false, s)
  else if s.TooLarge (sizeBytes.getD estimate) then (.ok false, s)
  else
    match s.evictIfNeeded (sizeBytes.getD estimate) with
    | (.error e, s) => (.error e, s)
    | (.ok _, s) => s.putEntry key value ttl (sizeBytes.getD estimate) now

/-- `get`; lines 347-376. -/
def get (s : IntelligentCache V) (key : String) (now accessed : ℚ) :
    Except (CacheError String) (Option V) × IntelligentCache V :=
  if s.initialized = false then (.ok none, s)
  else
    match s.cache.get? key with
    | none => (.ok none, { s with misses := s.misses + 1 })
    | some entry =>
      if entry.expiresAt < now then
        (.ok none, { s.removeEntry key with misses := s.misses + 1 })
      else
        let s := { s with
          cache := s.cache.insert key
            { entry with accessCount := entry.accessCount + 1, lastAccessed := accessed }
          accessOrder := if key ∈ s.accessOrder.data.keys then s.accessOrder.moveToEnd key
            else s.accessOrder }
        match s.arc.onAccess key entry.sizeBytes with
        | (.error e, arc) => (.error e, { s with arc := arc })
        | (.ok _, arc) => (.ok (some entry.value), { s with arc := arc, hits := s.hits + 1 })

/-- `delete`; lines 419-425. -/
def delete (s : IntelligentCache V) (key : String) : Bool × IntelligentCache V :=
  if key ∈ s.cache.keys then (true, s.removeEntry key) else (false, s)

/-- `clear`; lines 427-436. -/
def clear (s : IntelligentCache V) : IntelligentCache V :=
  { s with
    cache := .empty
    accessOrder := s.accessOrder.clear
    arc := s.arc.clear
    totalSizeBytes := 0
    entryCount := 0 }

/-- `_cleanup_expired`; lines 502-509. -/
def cleanupExpired (s : IntelligentCache V) (now : ℚ) : IntelligentCache V :=
  let expired := (s.cache.entries.filter fun e => decide (e.2.expiresAt < now)).map Prod.fst
  expired.foldl removeEntry s

def step (s : IntelligentCache V) : AdaptiveOp V → IntelligentCache V
  | .set key value ttl sizeBytes estimate now => (s.set key value ttl sizeBytes estimate now).2
  | .get key now accessed => (s.get key now accessed).2
  | .delete key => (s.delete key).2
  | .clear => s.clear
  | .cleanup now => s.cleanupExpired now

/-- A cache that has been initialized, or has not, after the operations. -/
def run (config : CacheConfig) (initialized : Bool) (ops : List (AdaptiveOp V)) : IntelligentCache V :=
  ops.foldl step { config := config, initialized := initialized }

/-! ### What it is for -/

/-- The counts are those of the entries and within their bounds, the lists hold the cached keys, and
making room comes to an end. -/
structure Accounted (s : IntelligentCache V) : Prop where
  total : s.totalSizeBytes = s.cache.total CacheEntry.sizeBytes
  le_max : s.totalSizeBytes ≤ s.config.maxSizeBytes
  size_le : s.cache.size ≤ s.config.maxEntries
  listed : ∀ key, s.arc.Holds key ↔ key ∈ s.cache.keys
  bytes : s.arc.currentBytes = s.cache.total CacheEntry.sizeBytes
  terminates : ∀ required, ∃ n, (evictLoop required n s).isSome = true

/-- Along the loop the lists never select the empty key. -/
def PicksNamed (required : ℤ) : Nat → IntelligentCache V → Prop
  | 0, _ => True
  | n + 1, s =>
    s.NeedsRoom required → s.arc.evictOne.1 ≠ .ok (some "") ∧ PicksNamed required n s.evictStep.2

instance decidablePicksNamed (required : ℤ) :
    ∀ (n : Nat) (s : IntelligentCache V), Decidable (PicksNamed required n s)
  | 0, _ => .isTrue trivial
  | n + 1, s =>
    have := decidablePicksNamed required n s.evictStep.2
    inferInstanceAs (Decidable (s.NeedsRoom required → _ ∧ PicksNamed required n s.evictStep.2))

/-- Where the value is kept, room is made without the empty key, and the key is not cached then, or both
its old and its new value count nothing. -/
def KeepsCounts (s : IntelligentCache V) : AdaptiveOp V → Prop
  | .set key _ _ sizeBytes estimate _ =>
    s.initialized = false ∨ s.TooLarge (sizeBytes.getD estimate) ∨
      PicksNamed (sizeBytes.getD estimate) (s.pending + 1) s ∧
        ∀ old ∈ (s.evictIfNeeded (sizeBytes.getD estimate)).2.cache.get? key,
          old.sizeBytes = 0 ∧ sizeBytes.getD estimate = 0
  -- what has expired is not read and not swept, and nothing is deleted
  | .get key now _ => s.initialized = false ∨ ∀ entry ∈ s.cache.get? key, now ≤ entry.expiresAt
  | .delete key => key ∉ s.cache.keys
  | .clear => True
  | .cleanup now => ∀ e ∈ s.cache.entries, now ≤ e.2.expiresAt

instance (s : IntelligentCache V) : ∀ op, Decidable (s.KeepsCounts op)
  | .set _ _ _ _ _ _ => inferInstanceAs (Decidable (_ ∨ _ ∨ _ ∧ _))
  | .get _ _ _ => inferInstanceAs (Decidable (_ ∨ _))
  | .delete _ => inferInstanceAs (Decidable (¬ _))
  | .clear => .isTrue trivial
  | .cleanup _ => inferInstanceAs (Decidable (∀ e ∈ _, _))

/-! ### The counts -/

/-- The counts are those of the entries, and every structure holds the cached keys. -/
structure Balanced (s : IntelligentCache V) : Prop where
  total : s.totalSizeBytes = s.cache.total CacheEntry.sizeBytes
  bytes : s.arc.currentBytes = s.cache.total CacheEntry.sizeBytes
  size_le : s.cache.size ≤ s.config.maxEntries
  listed : ∀ key, s.arc.Holds key ↔ key ∈ s.cache.keys
  sizes : ∀ key entry, s.cache.get? key = some entry →
    s.arc.keyToSize.get? key = some entry.sizeBytes
  arc : s.arc.Valid s.config.maxEntries
  order : s.accessOrder.Valid s.config.maxEntries

section Balanced

variable {s : IntelligentCache V} {key : String} {required : ℤ}

theorem balanced_new {config : CacheConfig} (h : 1 ≤ config.maxEntries) (initialized : Bool) :
    ({ config := config, initialized := initialized } : IntelligentCache V).Balanced where
  total := rfl
  bytes := rfl
  size_le := Nat.zero_le _
  listed key := iff_of_false (not_or.2 ⟨List.not_mem_nil, List.not_mem_nil⟩) List.not_mem_nil
  sizes _ _ h := by cases h
  arc := ARC.valid_new h _
  order := LRUCache.valid_new h

theorem Balanced.evictStep (h : s.Balanced) (hne : s.cache.size ≠ 0)
    (hnamed : s.arc.evictOne.1 ≠ .ok (some "")) :
    ∃ s', s.evictStep = (none, s') ∧ s'.Balanced ∧ s'.config = s.config := by
  have hheld : ∃ key, s.arc.Holds key := by
    rw [← Dict.length_keys] at hne
    obtain ⟨key, hkey⟩ := List.exists_mem_of_length_pos (Nat.pos_of_ne_zero hne)
    exact ⟨key, (h.listed key).2 hkey⟩
  obtain ⟨key, arc, hevict, hvalid, hkey, hholds, hsizes, hbytes⟩ := h.arc.evictOne hheld
  have hcached := (h.listed key).1 hkey
  obtain ⟨entry, hentry⟩ := Option.isSome_iff_exists.1 (Dict.mem_keys_iff.1 hcached)
  have hname : key ≠ "" := by
    rintro rfl
    exact hnamed (by rw [hevict])
  have htotal := Dict.total_eq_add_erase CacheEntry.sizeBytes hentry
  rw [h.sizes key entry hentry, Option.getD_some] at hbytes
  rw [IntelligentCache.evictStep, hevict]
  simp only
  rw [if_pos ⟨hname, hcached⟩, removeEntry]
  simp only [hentry]
  refine ⟨_, rfl, ⟨?_, ?_, ?_, ?_, ?_, hvalid, (h.order.pop key).1⟩, rfl⟩
  · have hbefore := h.total
    show s.totalSizeBytes - entry.sizeBytes = (s.cache.erase key).total CacheEntry.sizeBytes
    omega
  · have hbefore := h.bytes
    show arc.currentBytes = (s.cache.erase key).total CacheEntry.sizeBytes
    omega
  · have hbefore := h.size_le
    show (s.cache.erase key).size ≤ s.config.maxEntries
    rw [Dict.size_erase hcached]
    omega
  · intro k
    show arc.Holds k ↔ k ∈ (s.cache.erase key).keys
    rw [hholds, Dict.mem_keys_erase, h.listed]
  · intro k e he
    have he' : (s.cache.erase key).get? k = some e := he
    show arc.keyToSize.get? k = some e.sizeBytes
    rw [Dict.get?_erase] at he'
    rw [hsizes, Dict.get?_erase]
    split
    · next hk =>
      rw [if_pos hk] at he'
      cases he'
    · next hk =>
      rw [if_neg hk] at he'
      exact h.sizes k e he'

theorem Balanced.evictLoop (h : s.Balanced) {n : Nat} (hnamed : PicksNamed required n s)
    {result : Except (CacheError String) Unit} {s' : IntelligentCache V}
    (hloop : evictLoop required n s = some (result, s')) :
    result = .ok () ∧ s'.Balanced ∧ s'.config = s.config ∧ ¬ s'.NeedsRoom required := by
  induction n generalizing s with
  | zero => cases hloop
  | succ n ih =>
    rw [IntelligentCache.evictLoop] at hloop
    split at hloop
    · next hneeds =>
      obtain ⟨hname, hrest⟩ := hnamed hneeds
      obtain ⟨t, hstep, ht, hconfig⟩ := h.evictStep hneeds.2 hname
      rw [hstep] at hloop hrest
      obtain ⟨hok, hbalanced, hconfig', hroom⟩ := ih ht hrest hloop
      exact ⟨hok, hbalanced, hconfig'.trans hconfig, hroom⟩
    · next hroom =>
      cases hloop
      exact ⟨rfl, h, rfl, hroom⟩

theorem Balanced.evictIfNeeded (h : s.Balanced) (hnamed : PicksNamed required (s.pending + 1) s) :
    ∃ s', s.evictIfNeeded required = (.ok (), s') ∧ s'.Balanced ∧ s'.config = s.config ∧
      ¬ s'.NeedsRoom required := by
  cases hloop : s.evictIfNeeded required with
  | mk result s' =>
    have hsome : IntelligentCache.evictLoop required (s.pending + 1) s = some (result, s') := by
      rw [← hloop, IntelligentCache.evictIfNeeded, Option.some_get]
    obtain ⟨hok, hbalanced, hconfig, hroom⟩ := h.evictLoop hnamed hsome
    exact ⟨s', by rw [hok], hbalanced, hconfig, hroom⟩

theorem Balanced.room (h : s.Balanced) (hmax : 0 ≤ s.config.maxSizeBytes)
    (hsmall : ¬ s.TooLarge required) (hroom : ¬ s.NeedsRoom required) :
    s.totalSizeBytes + required ≤ s.config.maxSizeBytes ∧ s.cache.size < s.config.maxEntries := by
  rw [TooLarge] at hsmall
  by_cases hempty : s.cache.size = 0
  · have htotal : s.totalSizeBytes = 0 := by
      rw [h.total, Dict.total, List.length_eq_zero_iff.1 hempty]
      rfl
    obtain ⟨c, _⟩ := h.order
    have hcap := c.cap_pos
    omega
  · rw [NeedsRoom, not_and', not_or] at hroom
    have hboth := hroom hempty
    omega

theorem Balanced.putEntry_new (h : s.Balanced) (hlt : s.cache.size < s.config.maxEntries)
    (hnew : key ∉ s.cache.keys) (value : V) (ttl : Option ℤ) (sizeBytes : ℤ) (now : ℚ) :
    ∃ s', s.putEntry key value ttl sizeBytes now = (.ok true, s') ∧ s'.Balanced ∧
      s'.config = s.config ∧ s'.totalSizeBytes = s.totalSizeBytes + sizeBytes := by
  have hroom := h.arc.size_eq h.listed
  obtain ⟨order, horder, hvalid⟩ := h.order.setItem key ()
  obtain ⟨arc, hset, harc, hholds, hsizes, hbytes⟩ :=
    h.arc.onSet (fun hc => hnew ((h.listed key).1 hc)) (by omega) sizeBytes
  rw [putEntry.eq_def]
  simp only
  rw [horder, hset]
  refine ⟨_, rfl, ⟨?_, ?_, ?_, ?_, ?_, harc, hvalid⟩, rfl, rfl⟩
  · show s.totalSizeBytes + sizeBytes = Dict.total CacheEntry.sizeBytes (s.cache.insert key _)
    rw [Dict.total_insert_of_notMem _ hnew, h.total, Int.add_comm]
  · show arc.currentBytes = Dict.total CacheEntry.sizeBytes (s.cache.insert key _)
    rw [Dict.total_insert_of_notMem _ hnew, hbytes, h.bytes, Int.add_comm]
  · show (s.cache.insert key _).size ≤ s.config.maxEntries
    rw [Dict.size_insert, if_neg hnew]
    exact hlt
  · intro k
    show arc.Holds k ↔ k ∈ (s.cache.insert key _).keys
    rw [hholds, Dict.mem_keys_insert, h.listed]
  · intro k e he
    have he' : (s.cache.insert key _).get? k = some e := he
    show arc.keyToSize.get? k = some e.sizeBytes
    rw [Dict.get?_insert] at he'
    rw [hsizes, Dict.get?_insert]
    split
    · next hk =>
      rw [if_pos hk] at he'
      rw [← Option.some_inj.1 he']
    · next hk =>
      rw [if_neg hk] at he'
      exact h.sizes k e he'

/-- A value without size in the place of one without size. -/
theorem Balanced.putEntry_zero (h : s.Balanced) {old : CacheEntry V}
    (hold : s.cache.get? key = some old) (hzero : old.sizeBytes = 0) (value : V) (ttl : Option ℤ)
    (now : ℚ) :
    ∃ s', s.putEntry key value ttl 0 now = (.ok true, s') ∧ s'.Balanced ∧ s'.config = s.config ∧
      s'.totalSizeBytes = s.totalSizeBytes + 0 := by
  have hcached := Dict.mem_keys_of_get? hold
  have htotal := Dict.total_eq_add_erase CacheEntry.sizeBytes hold
  obtain ⟨order, horder, hvalid⟩ := h.order.setItem key ()
  have hset := ARC.onSet_of_holds ((h.listed key).2 hcached) 0
  rw [putEntry.eq_def]
  simp only
  rw [horder, hset]
  refine ⟨_, rfl, ⟨?_, ?_, ?_, ?_, ?_, h.arc, hvalid⟩, rfl, rfl⟩
  · have hbefore := h.total
    show s.totalSizeBytes + 0 = Dict.total CacheEntry.sizeBytes (s.cache.insert key _)
    rw [Dict.total_insert]
    simp only
    omega
  · have hbefore := h.bytes
    show s.arc.currentBytes = Dict.total CacheEntry.sizeBytes (s.cache.insert key _)
    rw [Dict.total_insert]
    simp only
    omega
  · show (s.cache.insert key _).size ≤ s.config.maxEntries
    rw [Dict.size_insert, if_pos hcached]
    exact h.size_le
  · intro k
    show s.arc.Holds k ↔ k ∈ (s.cache.insert key _).keys
    rw [Dict.mem_keys_insert, h.listed]
    constructor
    · exact .inr
    · intro hk
      cases hk with
      | inl hk => rw [hk]; exact hcached
      | inr hk => exact hk
  · intro k e he
    have he' : (s.cache.insert key _).get? k = some e := he
    rw [Dict.get?_insert] at he'
    split at he'
    · next hk =>
      rw [← Option.some_inj.1 he', ← hk]
      exact (h.sizes key old hold).trans (congrArg some hzero)
    · exact h.sizes k e he'

/-! ### One operation -/

/-- The counts are right and within the bounds. -/
structure Sound (s : IntelligentCache V) : Prop extends Balanced s where
  max_nonneg : 0 ≤ s.config.maxSizeBytes
  le_max : s.totalSizeBytes ≤ s.config.maxSizeBytes

theorem Sound.set (h : s.Sound) (value : V) (ttl sizeBytes : Option ℤ) (estimate : ℤ) (now : ℚ)
    (hkeeps : s.KeepsCounts (.set key value ttl sizeBytes estimate now)) :
    (s.set key value ttl sizeBytes estimate now).2.Sound := by
  rw [IntelligentCache.set]
  split
  · exact h
  · next hready =>
    split
    · exact h
    · next hsmall =>
      obtain ⟨hnamed, hold⟩ := (hkeeps.resolve_left hready).resolve_left hsmall
      obtain ⟨t, hevict, ht, hconfig, hroom⟩ := h.toBalanced.evictIfNeeded hnamed
      have hmax : 0 ≤ t.config.maxSizeBytes := hconfig ▸ h.max_nonneg
      have hsmall' : ¬ t.TooLarge (sizeBytes.getD estimate) := by
        rw [TooLarge, hconfig]
        exact hsmall
      obtain ⟨hbytes, hlt⟩ := ht.room hmax hsmall' hroom
      rw [hevict] at hold ⊢
      have hput : ∃ s', t.putEntry key value ttl (sizeBytes.getD estimate) now = (.ok true, s') ∧
          s'.Balanced ∧ s'.config = t.config ∧
            s'.totalSizeBytes = t.totalSizeBytes + sizeBytes.getD estimate := by
        cases hget : t.cache.get? key with
        | none => exact ht.putEntry_new hlt (Dict.notMem_keys_iff.2 hget) value ttl _ now
        | some old =>
          obtain ⟨hzero, hsize⟩ := hold old hget
          rw [hsize]
          exact ht.putEntry_zero hget hzero value ttl now
      obtain ⟨s', hput, hbalanced, hconfig', htotal⟩ := hput
      simp only [hput]
      refine ⟨hbalanced, ?_, ?_⟩
      · rw [hconfig']
        exact hmax
      · rw [hconfig', htotal]
        exact hbytes

theorem Sound.get (h : s.Sound) (now accessed : ℚ) (hkeeps : s.KeepsCounts (.get key now accessed)) :
    (s.get key now accessed).2.Sound := by
  rw [IntelligentCache.get]
  split
  · exact h
  · next hready =>
    cases hget : s.cache.get? key with
    | none => exact ⟨⟨h.total, h.bytes, h.size_le, h.listed, h.sizes, h.arc, h.order⟩, h.max_nonneg, h.le_max⟩
    | some entry =>
      have hlive := hkeeps.resolve_left hready entry hget
      have hcached := Dict.mem_keys_of_get? hget
      have hroom := h.arc.size_eq h.listed
      have hsize := h.size_le
      have htotal := Dict.total_eq_add_erase CacheEntry.sizeBytes hget
      obtain ⟨arc, haccess, harc, hholds, hsizes, hbytes⟩ :=
        h.arc.onAccess ((h.listed key).2 hcached) (by omega) entry.sizeBytes
      simp only
      rw [if_neg (not_lt.2 hlive), haccess]
      have hsame : Dict.total CacheEntry.sizeBytes (s.cache.insert key
          { entry with accessCount := entry.accessCount + 1, lastAccessed := accessed }) =
            s.cache.total CacheEntry.sizeBytes := by
        rw [Dict.total_insert, htotal]
      refine ⟨⟨h.total.trans hsame.symm, hbytes.trans (h.bytes.trans hsame.symm), ?_, ?_, ?_, harc, ?_⟩,
        h.max_nonneg, h.le_max⟩
      · show (s.cache.insert key _).size ≤ s.config.maxEntries
        rw [Dict.size_insert, if_pos hcached]
        exact hsize
      · intro k
        show arc.Holds k ↔ k ∈ (s.cache.insert key _).keys
        rw [hholds, h.listed, Dict.keys_insert, if_pos hcached]
      · intro k e he
        have he' : (s.cache.insert key _).get? k = some e := he
        show arc.keyToSize.get? k = some e.sizeBytes
        rw [Dict.get?_insert] at he'
        have hbefore : s.arc.keyToSize.get? k = some e.sizeBytes := by
          split at he'
          · next hk =>
            rw [← Option.some_inj.1 he', ← hk]
            exact h.sizes key entry hget
          · exact h.sizes k e he'
        cases hsizes k with
        | inl hold => rw [hold, hbefore]
        | inr hnew =>
          rw [hnew.2, ← hbefore, ← hnew.1, h.sizes key entry hget]
      · show LRUCache.Valid (if key ∈ s.accessOrder.data.keys then s.accessOrder.moveToEnd key
          else s.accessOrder) s.config.maxEntries
        split
        · exact h.order.moveToEnd key
        · exact h.order

theorem Sound.clear (h : s.Sound) : s.clear.Sound where
  total := rfl
  bytes := rfl
  size_le := Nat.zero_le _
  listed key := iff_of_false (ARC.not_holds_clear s.arc key) List.not_mem_nil
  sizes _ _ he := by cases he
  arc := h.arc.clear
  order := h.order.clear
  max_nonneg := h.max_nonneg
  le_max := h.max_nonneg

theorem Sound.step (h : s.Sound) {op : AdaptiveOp V} (hkeeps : s.KeepsCounts op) : (s.step op).Sound := by
  cases op with
  | set key value ttl sizeBytes estimate now => exact h.set value ttl sizeBytes estimate now hkeeps
  | get key now accessed => exact h.get now accessed hkeeps
  | delete key =>
    rw [IntelligentCache.step, delete, if_neg hkeeps]
    exact h
  | clear => exact h.clear
  | cleanup now =>
    have hnone : (s.cache.entries.filter fun e => decide (e.2.expiresAt < now)) = [] := by
      rw [List.filter_eq_nil_iff]
      intro e he hc
      exact absurd (of_decide_eq_true hc) (not_lt.2 (hkeeps e he))
    rw [IntelligentCache.step, cleanupExpired, hnone]
    exact h

theorem Sound.accounted (h : s.Sound) : s.Accounted where
  total := h.total
  le_max := h.le_max
  size_le := h.size_le
  listed := h.listed
  bytes := h.bytes
  terminates required := ⟨_, evictLoop_isSome required (Nat.lt_succ_self _)⟩

end Balanced

/-- Throughout a run whose operations all keep the counts, the cache is accounted for. -/
theorem accounted_of_keepsCounts {config : CacheConfig} (hentries : 1 ≤ config.maxEntries)
    (hmax : 0 ≤ config.maxSizeBytes) {initialized : Bool} {ops : List (AdaptiveOp V)}
    (h : StepsMeet step KeepsCounts { config := config, initialized := initialized } ops) :
    ∀ pre, pre <+: ops → (run config initialized pre).Accounted := by
  intro pre hpre
  obtain ⟨rest, rfl⟩ := hpre
  have hsound : (run config initialized pre).Sound :=
    (stepsMeet_append.1 h).1.invariant (fun _ _ hs hk => hs.step hk)
      ⟨balanced_new hentries initialized, hmax, hmax⟩
  exact hsound.accounted

/-- Two entries, the second of which takes the place of the first, and a hit. -/
theorem accounted_two_keys :
    (run { maxSizeBytes := 1000, maxEntries := 1 } true
      [.set "a" "x" none (some 10) 0 0, .set "b" "y" none (some 10) 0 1, .get "b" 2 2]).Accounted :=
  accounted_of_keepsCounts (by decide) (by decide) (by decide +kernel) _ (List.prefix_refl _)

/-- A key that is set twice counts twice. -/
theorem not_accounted_overwritten :
    ¬ ∀ (config : CacheConfig) (initialized : Bool) (ops : List (AdaptiveOp String)),
      1 ≤ config.maxEntries → (run config initialized ops).Accounted := by
  intro h
  have htotal := (h { maxSizeBytes := 1000, maxEntries := 4 } true
    [.set "a" "x" none (some 10) 0 0, .set "a" "y" none (some 10) 0 1] (by decide)).total
  revert htotal
  decide +kernel

end IntelligentCache

end Hledac.Utils
