import Mathlib.Tactic.Linarith
import Hledac.Lib.Dict
import Hledac.Lib.Recency
import Hledac.Py.Url

/-!
# The cache of confirmed entities and the pre-fetch filter

`KnownGoodCache` keeps entries by their keys in an ordered dictionary, the next to leave first, and forgets
an entry some time after it was stored. `pre_fetch_filter` looks a URL up by its domain and by itself.
Times are rational numbers; the counters are left out.
-/

namespace Hledac.Knowledge

open Hledac.Lib Hledac.Py

/-- The dictionary that is given to `set` and to `bulk_load`. -/
structure CacheValue where
  entityValue : Option String := none
  iocType : Option String := none
  confirmationCount : Option Int := none
  lastConfirmedSprint : Option (List String) := none
  firstSeenSprint : Option String := none
  sha256ContentHash : Option String := none
  lastConfirmedTs : Option ℚ := none
  avgConfidence : Option ℚ := none
  deriving DecidableEq

/-- An entry with the time it was stored. -/
structure CacheEntry extends CacheValue where
  cachedAtS : ℚ
  deriving DecidableEq

/-- The time of the last confirmation, as the filter gives it out. -/
def CacheEntry.confirmedAt (e : CacheEntry) : ℚ := e.lastConfirmedTs.getD 0

/-- `_KNOWN_GOOD_CACHE_MAX_SIZE`; `knowledge/sprint_delta_index.py:57`. -/
def knownGoodCacheMaxSize : Nat := 4096

/-- `_CACHE_ENTRY_TTL_S`; line 60. -/
def cacheEntryTtlS : ℚ := 90 * 24 * 3600

/-- `KnownGoodCache`; lines 104-121. -/
structure KnownGoodCache where
  data : Dict String CacheEntry := .empty

namespace KnownGoodCache

/-- `__init__`, which does not use its argument. -/
def new (_maxsize : Nat) : KnownGoodCache := {}

/-- `get`; lines 123-136. -/
def get (key : String) (now : ℚ) (s : KnownGoodCache) : Option CacheEntry × KnownGoodCache :=
  match s.data.get? key with
  | none => (none, s)
  | some entry =>
    if now - entry.cachedAtS > cacheEntryTtlS then (none, { s with data := s.data.erase key })
    else (some entry, { s with data := s.data.moveToEnd key })

/-- The first entry leaves a full cache that does not have the key. -/
def makeRoom (key : String) (data : Dict String CacheEntry) : Option String × Dict String CacheEntry :=
  if key ∉ data.keys ∧ knownGoodCacheMaxSize ≤ data.size then (data.keys.head?, data.popFirst)
  else (none, data)

/-- `set`; lines 138-146. It gives the key that leaves. -/
def set (key : String) (value : CacheValue) (now : ℚ) (s : KnownGoodCache) :
    Option String × KnownGoodCache :=
  let (evicted, data) := if key ∈ s.data.keys then (none, s.data.moveToEnd key) else makeRoom key s.data
  (evicted, { s with data := data.insert key { value with cachedAtS := now } })

/-- The key of a value that is loaded; `none` where it has no entity. -/
def loadKey (value : CacheValue) : Option String :=
  if value.entityValue.getD "" = "" then none
  else some (value.iocType.getD "" ++ ":" ++ value.entityValue.getD "")

/-- The entry that `bulk_load` makes of a value. -/
def loadedEntry (value : CacheValue) (now : ℚ) : CacheEntry where
  entityValue := some (value.entityValue.getD "")
  iocType := some (value.iocType.getD "")
  confirmationCount := some (value.confirmationCount.getD 1)
  lastConfirmedSprint := some (value.lastConfirmedSprint.getD [])
  firstSeenSprint := some (value.firstSeenSprint.getD "")
  sha256ContentHash := value.sha256ContentHash
  lastConfirmedTs := some (value.lastConfirmedTs.getD now)
  avgConfidence := some (value.avgConfidence.getD 0)
  cachedAtS := now

/-- One pass of the loop of `bulk_load`; lines 152-172. -/
def loadEntry (value : CacheValue) (now : ℚ) (s : KnownGoodCache) : Option String × KnownGoodCache :=
  match loadKey value with
  | none => (none, s)
  | some key =>
    let (evicted, data) := makeRoom key s.data
    (evicted, { s with data := data.insert key (loadedEntry value now) })

/-- `bulk_load`; lines 148-179. -/
def bulkLoad (entries : List CacheValue) (now : ℚ) (s : KnownGoodCache) : Nat × KnownGoodCache :=
  ((entries.filterMap loadKey).length, entries.foldl (fun s value => (loadEntry value now s).2) s)

end KnownGoodCache

/-! ### The filter -/

/-- What `pre_fetch_filter` returns where it hits. -/
structure FilterResult where
  source : String := "cross_sprint_delta"
  matchedKey : String
  matchType : String
  url : String
  entityValue : String
  iocType : String
  confirmationCount : Int
  lastConfirmedSprint : List String
  avgConfidence : ℚ
  sha256ContentHash : Option String
  lastConfirmedTs : ℚ
  skipFetch : Bool := true

namespace DeltaSyncEngine

/-- `_extract_domain`; lines 496-507. -/
def extractDomain (parser : UrlParser) (url : String) : Option String :=
  match parser.netloc url.toList with
  | none => none
  | some location =>
    if location = [] then none else some (String.ofList (parser.lower (location.takeWhile (· ≠ ':'))))

/-- `_make_result`; lines 509-529. It raises `KeyError` for an entry without value or
type. -/
def makeResult (entry : CacheEntry) (url matchType : String) : Except String FilterResult :=
  match entry.iocType, entry.entityValue with
  | none, _ => .error "ioc_type"
  | some _, none => .error "entity_value"
  | some iocType, some entityValue =>
    .ok
      { matchedKey := iocType ++ ":" ++ entityValue, matchType, url, entityValue, iocType
        confirmationCount := entry.confirmationCount.getD 1
        lastConfirmedSprint := entry.lastConfirmedSprint.getD []
        avgConfidence := entry.avgConfidence.getD 0
        sha256ContentHash := entry.sha256ContentHash
        lastConfirmedTs := entry.confirmedAt }

/-- The check of the URL itself. -/
def filterByUrl (url : String) (now : ℚ) (s : KnownGoodCache) :
    Except String (Option FilterResult) × KnownGoodCache :=
  match s.get ("url:" ++ url) now with
  | (some entry, s) => ((makeResult entry url "url").map some, s)
  | (none, s) => (.ok none, s)

/-- `pre_fetch_filter`; lines 343-372. The clock is read before each of the two checks. -/
def preFetchFilter (parser : UrlParser) (initialized : Bool) (url : String) (first second : ℚ)
    (s : KnownGoodCache) : Except String (Option FilterResult) × KnownGoodCache :=
  if !initialized then (.ok none, s)
  else
    match (extractDomain parser url).filter (· ≠ "") with
    | none => filterByUrl url second s
    | some domain =>
      match s.get ("domain:" ++ domain) first with
      | (some entry, s) => ((makeResult entry url "domain").map some, s)
      | (none, s) => filterByUrl url second s

end DeltaSyncEngine

end Hledac.Knowledge
