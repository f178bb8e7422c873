import Mathlib.Data.Rat.Floor
import Hledac.Utils.IntelligentCache

/-!
# Persistence of the adaptive cache

`close` writes the entries of an `IntelligentCache` to a file and `initialize` of a new one puts them back with `set`;
`utils/cache/_adaptive.py:320-356`, `511-546`. The file holds what was written, since JSON keeps JSON values. The tasks
that `initialize` starts are left out.
-/

namespace Hledac.Utils

open Hledac.Lib

variable {V : Type}

/-- What is written of an entry. -/
structure PersistedItem (V : Type) where
  value : V
  expiresAt : ℚ
  accessCount : Nat

/-- What `cache_data.json` holds, by keys. -/
abbrev CacheFile (V : Type) := List (String × PersistedItem V)

namespace CachePersistence

/-- `_persist`; every entry is looked at at a time of its own; lines 511-526. -/
def persist (clock : String → ℚ) (s : IntelligentCache V) : CacheFile V :=
  (s.cache.entries.filter fun e => decide (clock e.1 < e.2.expiresAt)).map fun e =>
    (e.1, { value := e.2.value, expiresAt := e.2.expiresAt, accessCount := e.2.accessCount })

/-- `close`, with what it leaves in the file; lines 339-356. -/
def close (clock : String → ℚ) (s : IntelligentCache V) : CacheFile V × IntelligentCache V :=
  (persist clock s, { s with
    cache := .empty
    accessOrder := s.accessOrder.clear
    arc := s.arc.clear
    initialized := false })

/-- The loop of `_load_persisted`, which an exception ends; lines 536-546. -/
def loadItems (estimate : V → ℤ) (clock : String → ℚ) (now : ℚ) :
    CacheFile V → IntelligentCache V → IntelligentCache V
  | [], s => s
  | (key, item) :: rest, s =>
    if now < item.expiresAt then
      match s.set key item.value (some ⌊item.expiresAt - now⌋) none (estimate item.value) (clock key) with
      | (.ok _, s) => loadItems estimate clock now rest s
      | (.error _, s) => s
    else loadItems estimate clock now rest s

/-- `_warm_cache`, with what the loader has loaded; lines 548-554. -/
def warmCache (estimate : V → ℤ) (clock : String → ℚ) : List (String × V) → IntelligentCache V →
    Except (CacheError String) Unit × IntelligentCache V
  | [], s => (.ok (), s)
  | (key, value) :: rest, s =>
    match s.set key value none none (estimate value) (clock key) with
    | (.ok _, s) => warmCache estimate clock rest s
    | (.error e, s) => (.error e, s)

/-- `initialize`; lines 320-337. -/
def initializeCache (estimate : V → ℤ) (clock : String → ℚ) (now : ℚ) (file : Option (CacheFile V))
    (warm : List (String × V)) (s : IntelligentCache V) : Except (CacheError String) Bool × IntelligentCache V :=
  if s.initialized then (.ok true, s)
  else
    match warmCache estimate clock warm (loadItems estimate clock now (file.getD []) s) with
    | (.error e, s) => (.error e, s)
    | (.ok _, s) => (.ok true, { s with initialized := true })

/-- The times of a round trip: when each entry is looked at for the file, when the file is loaded, what `set` reads
then, and when a value is read. -/
structure Times where
  persisted : String → ℚ
  loaded : ℚ
  stored : String → ℚ
  read : ℚ
  accessed : ℚ

/-- A new cache of the same configuration, initialized from the file that `close` has left. -/
def reopened (estimate : V → ℤ) (times : Times) (warm : List (String × V)) (s : IntelligentCache V) :
    IntelligentCache V :=
  (initializeCache estimate times.stored times.loaded (some (close times.persisted s).1) warm { config := s.config }).2

/-! ### What should hold -/

/-- The entries that have not expired throughout the round trip. -/
def live (times : Times) (s : IntelligentCache V) : List (String × CacheEntry V) :=
  s.cache.entries.filter fun e => decide (times.persisted e.1 < e.2.expiresAt) &&
    decide (times.loaded < e.2.expiresAt) && decide (times.read < e.2.expiresAt)

/-- The values that have not expired are within the limits. -/
structure Fits (estimate : V → ℤ) (times : Times) (s : IntelligentCache V) : Prop where
  entries : (live times s).length ≤ s.config.maxEntries
  bytes : ((live times s).map fun e => estimate e.2.value).sum ≤ s.config.maxSizeBytes
  each : ∀ e ∈ live times s, ¬ s.TooLarge (estimate e.2.value)

/-- What `get` returns, where a missing value is the null value. -/
def answer (null : V) (times : Times) (s : IntelligentCache V) (key : String) : Except (CacheError String) V :=
  match (s.get key times.read times.accessed).1 with
  | .ok value => .ok (value.getD null)
  | .error e => .error e

/-- What has not expired and fits comes through with its value, nothing lasts longer than before, and what has expired
is gone. -/
structure RoundTrips (null : V) (estimate : V → ℤ) (times : Times) (warm : List (String × V))
    (s : IntelligentCache V) : Prop where
  values : Fits estimate times s → ∀ e ∈ live times s,
    answer null times (reopened estimate times warm s) e.1 = .ok e.2.value
  expiry : ∀ key entry, (reopened estimate times warm s).cache.get? key = some entry →
    ∀ old, s.cache.get? key = some old → entry.expiresAt ≤ old.expiresAt
  expired : ∀ e ∈ s.cache.entries, e.2.expiresAt < times.loaded →
    answer null times (reopened estimate times warm s) e.1 = .ok null

/-! ### What is put back -/

theorem set_of_not_initialized {s : IntelligentCache V} (h : s.initialized = false) (key : String) (value : V)
    (ttl sizeBytes : Option ℤ) (estimate : ℤ) (now : ℚ) :
    s.set key value ttl sizeBytes estimate now = (.ok false, s) := by
  rw [IntelligentCache.set]
  exact if_pos h

theorem loadItems_of_not_initialized {s : IntelligentCache V} (h : s.initialized = false) (estimate : V → ℤ)
    (clock : String → ℚ) (now : ℚ) (file : CacheFile V) : loadItems estimate clock now file s = s := by
  induction file with
  | nil => rfl
  | cons e rest ih =>
    rw [loadItems]
    split
    · rw [set_of_not_initialized h]
      exact ih
    · exact ih

theorem warmCache_of_not_initialized {s : IntelligentCache V} (h : s.initialized = false) (estimate : V → ℤ)
    (clock : String → ℚ) (warm : List (String × V)) : warmCache estimate clock warm s = (.ok (), s) := by
  induction warm with
  | nil => rfl
  | cons e rest ih =>
    rw [warmCache, set_of_not_initialized h]
    exact ih

theorem reopened_eq (estimate : V → ℤ) (times : Times) (warm : List (String × V)) (s : IntelligentCache V) :
    reopened estimate times warm s = { config := s.config, initialized := true } := by
  rw [reopened, initializeCache, if_neg Bool.false_ne_true, loadItems_of_not_initialized rfl,
    warmCache_of_not_initialized rfl]

theorem answer_reopened (null : V) (estimate : V → ℤ) (times : Times) (warm : List (String × V))
    (s : IntelligentCache V) (key : String) : answer null times (reopened estimate times warm s) key = .ok null := by
  rw [reopened_eq]
  rfl

/-- The cache comes through when and only when no entry that has not expired, where these fit the limits, holds
anything but the null value. -/
theorem roundTrips_iff (null : V) (estimate : V → ℤ) (times : Times) (warm : List (String × V))
    (s : IntelligentCache V) :
    RoundTrips null estimate times warm s ↔ (Fits estimate times s → ∀ e ∈ live times s, e.2.value = null) := by
  constructor
  · intro h hfits e he
    have hvalue := h.values hfits e he
    rw [answer_reopened] at hvalue
    exact (Except.ok.inj hvalue).symm
  · intro h
    constructor
    · intro hfits e he
      rw [answer_reopened, h hfits e he]
    · intro key entry hentry
      rw [reopened_eq] at hentry
      cases hentry
    · intro e _ _
      exact answer_reopened null estimate times warm s e.1

deriving instance DecidableEq for CacheEntry

/-- A cache with one value, which expires in an hour. -/
def oneValue : IntelligentCache (Option Nat) :=
  (({ initialized := true } : IntelligentCache (Option Nat)).set "key" (some 1) (some 3600) none 28 0).2

/-- The value is not there any more three seconds later. -/
theorem not_roundTrips : ¬ ∀ (null : Option Nat) (estimate : Option Nat → ℤ) (times : Times)
    (warm : List (String × Option Nat)) (s : IntelligentCache (Option Nat)),
    RoundTrips null estimate times warm s := by
  intro h
  have hlive : live ⟨fun _ => 1, 2, fun _ => 2, 3, 3⟩ oneValue = [("key", ⟨some 1, 28, 0, 3600, 0, 0⟩)] := by
    decide +kernel
  have hvalues := (h none (fun _ => 28) ⟨fun _ => 1, 2, fun _ => 2, 3, 3⟩ [] oneValue).values
    ⟨by decide +kernel, by decide +kernel, by decide +kernel⟩
  rw [hlive] at hvalues
  have hvalue := hvalues _ (List.mem_singleton_self _)
  rw [answer_reopened] at hvalue
  cases hvalue

end CachePersistence

end Hledac.Utils
