import Hledac.Lib.Dict
import Hledac.Lib.Machine
import Hledac.Knowledge.WalStore

/-!
# The persistent fingerprints

`DedupManager` keeps the finding of a fingerprint in an LMDB environment, behind a Bloom filter of two
generations. Its sub-stores are opened when they are first used. An attribute can be assigned only if the
class has a slot for it, which `_bloom_previous` does not. LMDB keeps what it is given.
-/

namespace Hledac.Knowledge.PersistentDedup

open Hledac.Lib Raising

/-! ### LMDB -/

/-- A BLAKE2b fingerprint: 32 hexadecimal digits. -/
structure Fingerprint where
  text : String
  size : text.utf8ByteSize = 32
  deriving DecidableEq

/-- What an LMDB environment holds, keys and values decoded. -/
abbrev LmdbEnv := Dict String String

/-- `max_key_size` of LMDB. -/
def maxKeySize : Nat := 511

/-- `txn.put`. -/
def LmdbEnv.put (env : LmdbEnv) (pair : String × String) : Except StoreError LmdbEnv :=
  if pair.1.utf8ByteSize = 0 ∨ maxKeySize < pair.1.utf8ByteSize then .error (.other "MDB_BAD_VALSIZE")
  else .ok (env.insert pair.1 pair.2)

/-- One transaction that puts some pairs, without effect where a put raises. -/
def LmdbEnv.putAll (env : LmdbEnv) (pairs : List (String × String)) : LmdbEnv :=
  match pairs.foldlM put env with
  | .ok env => env
  | .error _ => env

/-- `UnifiedLMDBStore`; `knowledge/lmdb_subdb.py:62-118`. -/
structure UnifiedLMDBStore where
  file : LmdbEnv := .empty
  closed : Bool := false

namespace UnifiedLMDBStore

/-- A key under its namespace. -/
def prefixed (space key : String) : String := space ++ ":" ++ key

/-- `get_raw`; `lmdb_subdb.py:342-370`. -/
def getRaw (u : UnifiedLMDBStore) (space key : String) : Option String :=
  if u.closed then none else u.file.get? (prefixed space key)

/-- `putmulti_raw`, of fewer pairs than a chunk has, and `putmulti_cursor_raw`; `lmdb_subdb.py:372-419`.
What a transaction raises is only logged. -/
def putmultiRaw (u : UnifiedLMDBStore) (space : String) (pairs : List (String × String)) :
    UnifiedLMDBStore :=
  if u.closed then u
  else { u with file := LmdbEnv.putAll u.file (pairs.map fun p => (prefixed space p.1, p.2)) }

end UnifiedLMDBStore

/-! ### The manager -/

/-- `str(e)`. -/
def errorText : StoreError → String
  | .attributeError name => "'DedupManager' object has no attribute '" ++ name ++ "'"
  | .nameError name => "name '" ++ name ++ "' is not defined"
  | .valueError text | .typeError text | .indexError text | .assertionError text | .other text => text

/-- The methods that a Bloom filter object has. -/
structure BloomMethods (B : Type) where
  contains : Option (B → String → Except StoreError Bool)
  add : B → String → Except StoreError B
  addBatch : Option (B → List String → Except StoreError B)
  sync : Option (B → Except StoreError B)

/-- How `_init_mmap_ioc_dedup_store` goes. -/
inductive IocOutcome where
  | noPath (text : String)
  | noClass
  | raised (text : String)
  | opened

/-- What a step finds outside the manager: the Bloom filter class, if importing the backend does not raise,
as a constructor of a file name and `force_new`; whether its directory exists; and how the other sub-stores
open. -/
structure Host (B : Type) where
  bloomClass : Except StoreError (Option (String → Bool → Except StoreError B))
  bloomDirExists : Bool := true
  lmdbOpens : Bool := true
  iocStore : IocOutcome := .noClass
  semanticCache : Except String Unit := .ok ()

/-- `DedupManager`, and the file of its own LMDB; `knowledge/dedup.py:353-440`. `_bloom_previous` is an
attribute only once it has been assigned. -/
structure DedupManager (B : Type) where
  useUnified : Bool
  unifiedStore : UnifiedLMDBStore := {}
  ownFile : LmdbEnv := .empty
  bloomFilter : Option B := none
  bloomPrevious : Option (Option B) := none
  bloomFilterError : Option String := none
  dedupLmdb : Bool := false
  dedupLmdbBootError : Option String := none
  dedupLmdbLastError : Option String := none
  iocDedupStore : Bool := false
  iocDedupStoreError : Option String := none
  semanticDedupCache : Bool := false
  semanticDedupBootError : Option String := none
  initialized : Bool := false

/-- `__slots__`; `dedup.py:377-397`. -/
def slots : List String :=
  ["_bloom_filter", "_bloom_filter_error", "_dedup_hot_cache", "_dedup_hot_cache_order", "_dedup_lmdb",
    "_dedup_lmdb_boot_error", "_dedup_lmdb_last_error", "_dedup_lmdb_path_str", "_initialized",
    "_ioc_dedup_store", "_ioc_dedup_store_error", "_map_size", "_max_keys", "_semantic_dedup_boot_error",
    "_semantic_dedup_cache", "_semantic_lmdb_path", "_unified_store", "_use_unified", "__weakref__"]

namespace DedupManager

variable {B : Type}

/-- Methods of the manager. -/
abbrev DedupM (B : Type) := Raising StoreError (DedupManager B)

/-- An assignment to an attribute. -/
def assign (name : String) (f : DedupManager B → DedupManager B) : DedupM B Unit :=
  if name ∈ slots then modify f else throw (.attributeError name)

/-- `_init_persistent_dedup_lmdb`; `dedup.py:509-533`. -/
def initPersistentDedupLmdb (host : Host B) : DedupM B Unit :=
  match LMDBKVStore.init host.lmdbOpens with
  | .ok _ => do
    assign "_dedup_lmdb" fun m => { m with dedupLmdb := true }
    assign "_dedup_lmdb_last_error" fun m => { m with dedupLmdbLastError := none }
    assign "_dedup_lmdb_boot_error" fun m => { m with dedupLmdbBootError := none }
  | .error e => do
    assign "_dedup_lmdb" fun m => { m with dedupLmdb := false }
    assign "_dedup_lmdb_boot_error" fun m => { m with dedupLmdbBootError := some (errorText e) }
    assign "_dedup_lmdb_last_error" fun m => { m with dedupLmdbLastError := some (errorText e) }

/-- The two generations of the filter are opened and assigned; `dedup.py:545-571`. -/
def openBloomFilters (host : Host B) : DedupM B Unit := do
  match ← Raising.ofExcept host.bloomClass with
  | none => assign "_bloom_filter_error" fun m =>
      { m with bloomFilterError := some "Rust MmapBloomFilter not available" }
  | some bloomFilter => do
    let active ← Raising.ofExcept (bloomFilter "dedup_bloom_active.mmap" false)
    assign "_bloom_filter" fun m => { m with bloomFilter := some active }
    let previous ← Raising.ofExcept (bloomFilter "dedup_bloom_previous.mmap" !host.bloomDirExists)
    assign "_bloom_previous" fun m => { m with bloomPrevious := some (some previous) }
    assign "_bloom_filter_error" fun m => { m with bloomFilterError := none }

/-- `_init_bloom_filter_precheck`; `dedup.py:535-575`. -/
def initBloomFilterPrecheck (host : Host B) : DedupM B Unit :=
  tryCatch (openBloomFilters host) fun e => do
    assign "_bloom_filter" fun m => { m with bloomFilter := none }
    assign "_bloom_previous" fun m => { m with bloomPrevious := some none }
    assign "_bloom_filter_error" fun m => { m with bloomFilterError := some (errorText e) }

/-- `_init_mmap_ioc_dedup_store`; `dedup.py:577-627`. -/
def initMmapIocDedupStore (host : Host B) : DedupM B Unit :=
  match host.iocStore with
  | .noPath text => do
    assign "_ioc_dedup_store" fun m => { m with iocDedupStore := false }
    assign "_ioc_dedup_store_error" fun m =>
      { m with iocDedupStoreError := some ("path resolution failed: " ++ text) }
  | .noClass => assign "_ioc_dedup_store_error" fun m =>
      { m with iocDedupStoreError := some "Rust MmapIocDedupStore not available" }
  | .raised text => do
    assign "_ioc_dedup_store" fun m => { m with iocDedupStore := false }
    assign "_ioc_dedup_store_error" fun m => { m with iocDedupStoreError := some text }
  | .opened => do
    assign "_ioc_dedup_store" fun m => { m with iocDedupStore := true }
    assign "_ioc_dedup_store_error" fun m => { m with iocDedupStoreError := none }

/-- `_init_semantic_dedup_cache`; `dedup.py:888-916`. -/
def initSemanticDedupCache (host : Host B) : DedupM B Unit :=
  match host.semanticCache with
  | .ok _ => do
    assign "_semantic_dedup_cache" fun m => { m with semanticDedupCache := true }
    assign "_semantic_dedup_boot_error" fun m => { m with semanticDedupBootError := none }
  | .error text => do
    assign "_semantic_dedup_cache" fun m => { m with semanticDedupCache := false }
    assign "_semantic_dedup_boot_error" fun m => { m with semanticDedupBootError := some text }

/-- `if self._bloom_filter is None`. -/
def ensureBloomFilter (host : Host B) : DedupM B Unit := do
  if (← get).bloomFilter.isNone then initBloomFilterPrecheck host

/-- `if self._dedup_lmdb is None`. -/
def ensureDedupLmdb (host : Host B) : DedupM B Unit := do
  if (← get).dedupLmdb = false then initPersistentDedupLmdb host

/-- `if self._ioc_dedup_store is None`. -/
def ensureIocDedupStore (host : Host B) : DedupM B Unit := do
  if (← get).iocDedupStore = false then initMmapIocDedupStore host

/-- `ainitialize`; `dedup.py:450-473`. -/
def ainitializeManager (host : Host B) : DedupM B Unit := do
  if (← get).initialized then return
  initPersistentDedupLmdb host
  initBloomFilterPrecheck host
  initMmapIocDedupStore host
  initSemanticDedupCache host
  assign "_initialized" fun m => { m with initialized := true }

/-- `initialize`; `dedup.py:441-448`. -/
def initializeManager : DedupM B Unit := do
  if (← get).initialized then return
  assign "_initialized" fun m => { m with initialized := true }

/-- `close`; `dedup.py:475-507`. What a sub-store raises when it is closed is swallowed. -/
def close : DedupM B Unit := do
  assign "_bloom_filter" fun m => { m with bloomFilter := none }
  assign "_bloom_previous" fun m => { m with bloomPrevious := some none }
  assign "_bloom_filter_error" fun m => { m with bloomFilterError := none }
  assign "_ioc_dedup_store" fun m => { m with iocDedupStore := false }
  assign "_ioc_dedup_store_error" fun m => { m with iocDedupStoreError := none }
  assign "_dedup_lmdb" fun m => { m with dedupLmdb := false }
  assign "_dedup_lmdb_last_error" fun m => { m with dedupLmdbLastError := none }
  assign "_dedup_lmdb_boot_error" fun m => { m with dedupLmdbBootError := none }

/-- `_dedup_key_from_fingerprint`; `dedup.py:629-631`. -/
def dedupKeyFromFingerprint (fp : Fingerprint) : String := "dedup:" ++ fp.text

variable (bloom : BloomMethods B)

/-- The Bloom pre-check: whether the item may be there. A filter that raises is no obstacle. -/
def mayContain (m : DedupManager B) (fp : Fingerprint) : Bool :=
  match m.bloomFilter with
  | none => true
  | some active =>
    let answers : Except StoreError Bool := do
      let inActive ← match bloom.contains with
        | some contains => contains active fp.text
        | none => .ok false
      let inPrevious ← match m.bloomPrevious.join, bloom.contains with
        | some previous, some contains => contains previous fp.text
        | _, _ => .ok false
      return inActive || inPrevious
    match answers with
    | .ok answer => answer
    | .error _ => true

/-- What a lookup reads once the sub-stores have been opened; `dedup.py:661-696`. -/
def lookupOpened (m : DedupManager B) (fp : Fingerprint) : Option String :=
  if m.mayContain bloom fp = false then none
  else if m.useUnified then m.unifiedStore.getRaw "dedup" (dedupKeyFromFingerprint fp)
  else if m.dedupLmdb then m.ownFile.get? (dedupKeyFromFingerprint fp)
  else none

/-- `lookup_persistent_dedup`; `dedup.py:636-696`. -/
def lookupPersistentDedup (host : Host B) (fp : Fingerprint) : DedupM B (Option String) := do
  ensureBloomFilter host
  ensureDedupLmdb host
  ensureIocDedupStore host
  return (← get).lookupOpened bloom fp

/-- The filter with some items added, and without the one whose add raises. -/
def addBloom (items : List Fingerprint) (filter : B) : B :=
  match bloom.addBatch with
  | some addBatch => match addBatch filter (items.map Fingerprint.text) with
    | .ok filter => filter
    | .error _ => filter
  | none => items.foldl (fun filter fp => match bloom.add filter fp.text with
      | .ok filter => filter
      | .error _ => filter) filter

/-- The pairs go to the store in use. -/
def putPairs (pairs : List (String × String)) (m : DedupManager B) : DedupManager B :=
  if m.useUnified then { m with unifiedStore := m.unifiedStore.putmultiRaw "dedup" pairs }
  else if m.dedupLmdb then { m with ownFile := LmdbEnv.putAll m.ownFile pairs }
  else m

/-- `store_persistent_dedup`; `dedup.py:698-732`. -/
def storePersistentDedup (host : Host B) (fp : Fingerprint) (findingId : String) : DedupM B Unit := do
  ensureBloomFilter host
  ensureDedupLmdb host
  modify fun m => { m with bloomFilter := m.bloomFilter.map (addBloom { bloom with addBatch := none } [fp]) }
  modify (putPairs [(dedupKeyFromFingerprint fp, findingId)])

/-- `store_persistent_dedup_batch`; `dedup.py:734-775`. -/
def storePersistentDedupBatch (host : Host B) (items : List (Fingerprint × String)) : DedupM B Unit := do
  if items.isEmpty then return
  ensureBloomFilter host
  ensureDedupLmdb host
  modify fun m => { m with bloomFilter := m.bloomFilter.map (addBloom bloom (items.map Prod.fst)) }
  modify (putPairs (items.map fun p => (dedupKeyFromFingerprint p.1, p.2)))

end DedupManager

end Hledac.Knowledge.PersistentDedup
