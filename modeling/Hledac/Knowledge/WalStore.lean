import Std.Data.ExtTreeMap
import Hledac.Lib.Chunks
import Hledac.Lib.Crash
import Hledac.Knowledge.Finding

/-!
# The write-ahead log

Two LMDB environments may hold the log: `shadow_wal.lmdb`, which `LMDBKVStore` bounds, and the
namespace `wal` of `sprint_unified.lmdb`. The store of findings reaches the log through its WAL manager,
which writes to one of them, and through `_wal_lmdb`, which is always `shadow_wal.lmdb`.
-/

namespace Hledac.Knowledge

open Hledac.Lib

/-! ### Records -/

/-- The families of keys of the log. -/
inductive WalKind where
  | finding
  | pendingSync
  | deadletter
  | prewrite
  | checkpoint
  deriving DecidableEq, Repr

/-- What the keys of the family begin with; the finding id follows. -/
def WalKind.head : WalKind → String
  | finding => "finding:"
  | pendingSync => "pending_duckdb_sync:"
  | deadletter => "deadletter_duckdb_sync:"
  | prewrite => "prewrite:"
  | checkpoint => "checkpoint:"

/-- The value of a record. Every value also carries the id of its key. -/
structure WalRecord where
  query : Option String := none
  sourceType : Option String := none
  confidence : Option ℚ := none
  ts : ℚ
  provenance : Option (List String) := none
  payloadText : Option String := none
  retryCount : Option Nat := none
  error : Option String := none
  deriving DecidableEq

/-- The records of an environment by family and finding id. -/
structure WalEnv where
  records : WalKind → Std.ExtTreeMap String WalRecord := fun _ => ∅

namespace WalEnv

/-- `txn.get`. -/
def get (e : WalEnv) (k : WalKind) (id : String) : Option WalRecord := (e.records k)[id]?

/-- `txn.put`. -/
def put (e : WalEnv) (k : WalKind) (id : String) (r : WalRecord) : WalEnv where
  records := Function.update e.records k ((e.records k).insert id r)

/-- `txn.delete`. -/
def erase (e : WalEnv) (k : WalKind) (id : String) : WalEnv where
  records := Function.update e.records k ((e.records k).erase id)

/-- `txn.stat()["entries"]`. -/
def entries (e : WalEnv) : Nat :=
  ([.finding, .pendingSync, .deadletter, .prewrite, .checkpoint].map fun k => (e.records k).size).sum

/-- A cursor over the keys of the family, in their order. -/
def scan (e : WalEnv) (k : WalKind) : List (String × WalRecord) := (e.records k).toList

/-- `cursor.putmulti`, for finding records. -/
def putFindings (e : WalEnv) (items : List (String × WalRecord)) : WalEnv :=
  items.foldl (fun e p => e.put .finding p.1 p.2) e

variable {e : WalEnv} {k k' : WalKind} {id id' : String} {r r' : WalRecord}

@[simp] theorem get_empty : ({} : WalEnv).get k id = none := Std.ExtTreeMap.getElem?_empty

theorem get_put : (e.put k id r).get k' id' =
    if k' = k ∧ id = id' then some r else e.get k' id' := by
  show (Function.update e.records k ((e.records k).insert id r) k')[id']? = _
  by_cases hk : k' = k
  · subst hk
    rw [Function.update_self, Std.ExtTreeMap.getElem?_insert]
    simp only [true_and, Std.compare_eq_iff_eq]
    rfl
  · rw [Function.update_of_ne hk, if_neg fun h => hk h.1]
    rfl

@[simp] theorem get_put_self : (e.put k id r).get k id = some r := by
  rw [get_put, if_pos ⟨rfl, rfl⟩]

theorem get_put_of_kind_ne (h : k' ≠ k) : (e.put k id r).get k' id' = e.get k' id' := by
  rw [get_put, if_neg fun hc => h hc.1]

theorem get_put_of_id_ne (h : id ≠ id') : (e.put k id r).get k' id' = e.get k' id' := by
  rw [get_put, if_neg fun hc => h hc.2]

theorem get_erase : (e.erase k id).get k' id' =
    if k' = k ∧ id = id' then none else e.get k' id' := by
  show (Function.update e.records k ((e.records k).erase id) k')[id']? = _
  by_cases hk : k' = k
  · subst hk
    rw [Function.update_self, Std.ExtTreeMap.getElem?_erase]
    simp only [true_and, Std.compare_eq_iff_eq]
    rfl
  · rw [Function.update_of_ne hk, if_neg fun h => hk h.1]
    rfl

@[simp] theorem get_erase_self : (e.erase k id).get k id = none := by
  rw [get_erase, if_pos ⟨rfl, rfl⟩]

theorem get_erase_of_kind_ne (h : k' ≠ k) : (e.erase k id).get k' id' = e.get k' id' := by
  rw [get_erase, if_neg fun hc => h hc.1]

theorem get_erase_of_id_ne (h : id ≠ id') : (e.erase k id).get k' id' = e.get k' id' := by
  rw [get_erase, if_neg fun hc => h hc.2]

theorem isSome_get_put (h : (e.get k' id').isSome = true) :
    ((e.put k id r).get k' id').isSome = true := by
  rw [get_put]
  split
  · rfl
  · exact h

theorem entries_put_of_isSome (h : (e.get k id).isSome = true) : (e.put k id r).entries = e.entries := by
  have hsize : (fun k' => ((e.put k id r).records k').size) = fun k' => (e.records k').size := by
    ext k'
    show (Function.update e.records k ((e.records k).insert id r) k').size = _
    by_cases hk : k' = k
    · subst hk
      have hmem : (e.records k')[id]?.isSome = true := h
      rw [Function.update_self, Std.ExtTreeMap.size_insert,
        Std.ExtTreeMap.contains_eq_isSome_getElem?, if_pos hmem]
    · rw [Function.update_of_ne hk]
  rw [entries, hsize, entries]

theorem mem_scan : (id, r) ∈ e.scan k ↔ e.get k id = some r :=
  Std.ExtTreeMap.mem_toList_iff_getElem?_eq_some

theorem scan_put_of_kind_ne (h : k' ≠ k) : (e.put k id r).scan k' = e.scan k' := by
  show (Function.update e.records k _ k').toList = _
  rw [Function.update_of_ne h]
  rfl

theorem length_scan_erase : ((e.erase k id).scan k).length =
    if (e.get k id).isSome = true then (e.scan k).length - 1 else (e.scan k).length := by
  show (Function.update e.records k ((e.records k).erase id) k).toList.length =
    if (e.records k)[id]?.isSome = true then (e.records k).toList.length - 1
      else (e.records k).toList.length
  rw [Function.update_self, Std.ExtTreeMap.length_toList, Std.ExtTreeMap.size_erase,
    Std.ExtTreeMap.contains_eq_isSome_getElem?, Std.ExtTreeMap.length_toList]

theorem get_putFindings_of_ne (h : k' ≠ .finding) (items : List (String × WalRecord)) :
    (e.putFindings items).get k' id' = e.get k' id' := by
  rw [putFindings]
  induction items generalizing e with
  | nil => rfl
  | cons p items ih =>
    rw [List.foldl_cons, ih, get_put_of_kind_ne h]

theorem isSome_get_putFindings (h : (e.get k' id').isSome = true) (items : List (String × WalRecord)) :
    ((e.putFindings items).get k' id').isSome = true := by
  rw [putFindings]
  induction items generalizing e with
  | nil => exact h
  | cons p items ih => exact ih (isSome_get_put h)

theorem isSome_get_putFindings_of_mem {items : List (String × WalRecord)} (h : (id, r) ∈ items) :
    ((e.putFindings items).get .finding id).isSome = true := by
  induction items generalizing e with
  | nil => cases h
  | cons p items ih =>
    rcases List.mem_cons.1 h with rfl | h
    · apply isSome_get_putFindings (e := e.put .finding id r)
      rw [get_put_self]
      rfl
    · exact ih (e := e.put .finding p.1 p.2) h

end WalEnv

/-! ### Bulk writes -/

/-- The findings are put chunk by chunk, one transaction each; `accept` says which transactions go
through. Each finding has its own answer. -/
def putChunks (accept : Nat → List (String × WalRecord) → WalEnv → Bool) :
    Nat → List (List (String × WalRecord)) → WalEnv → List Bool × WalEnv
  | _, [], e => ([], e)
  | i, chunk :: rest, e =>
    let stored := accept i chunk e
    let r := putChunks accept (i + 1) rest (if stored then e.putFindings chunk else e)
    (chunk.map (fun _ => stored) ++ r.1, r.2)

section PutChunks

variable {accept : Nat → List (String × WalRecord) → WalEnv → Bool}

theorem get_putChunks_of_ne {k : WalKind} (h : k ≠ .finding) {id : String} (i : Nat)
    (chunks : List (List (String × WalRecord))) (e : WalEnv) :
    (putChunks accept i chunks e).2.get k id = e.get k id := by
  induction chunks generalizing i e with
  | nil => rfl
  | cons chunk rest ih =>
    rw [putChunks, ih]
    split
    · exact WalEnv.get_putFindings_of_ne h chunk
    · rfl

theorem isSome_get_putChunks {k : WalKind} {id : String} (i : Nat)
    (chunks : List (List (String × WalRecord))) {e : WalEnv} (h : (e.get k id).isSome = true) :
    ((putChunks accept i chunks e).2.get k id).isSome = true := by
  induction chunks generalizing i e with
  | nil => exact h
  | cons chunk rest ih =>
    rw [putChunks]
    apply ih
    split
    · exact WalEnv.isSome_get_putFindings h chunk
    · exact h

theorem isSome_get_of_putChunks_all (i : Nat) {chunks : List (List (String × WalRecord))} {e : WalEnv}
    (hall : (putChunks accept i chunks e).1.all id = true) {p : String × WalRecord}
    (hp : p ∈ chunks.flatten) :
    ((putChunks accept i chunks e).2.get .finding p.1).isSome = true := by
  induction chunks generalizing i e with
  | nil => cases hp
  | cons chunk rest ih =>
    rw [putChunks] at hall ⊢
    rw [List.all_append, Bool.and_eq_true] at hall
    rw [List.flatten_cons] at hp
    rcases List.mem_append.1 hp with h | h
    · have hstored : accept i chunk e = true := List.all_eq_true.1 hall.1 _ (List.mem_map.2 ⟨p, h, rfl⟩)
      rw [hstored]
      exact isSome_get_putChunks _ _ (WalEnv.isSome_get_putFindings_of_mem (r := p.2) h)
    · exact ih _ hall.2 h

end PutChunks

/-! ### The two environments -/

/-- How the transactions of a chunk come out: whether the first one begins and puts, and whether the
fallback does. -/
structure ChunkOutcome where
  begins : Bool := true
  puts : Bool := true
  fallback : Bool := true

namespace LMDBKVStore

/-- `MAX_KEYS`; `tools/lmdb_kv.py:49`. -/
def maxKeys : Nat := 10000

/-- `LMDB_WRITE_BATCH_SIZE`; `lmdb_kv.py:50`. -/
def writeBatchSize : Nat := 2500

/-- `__init__`. Once the environment is open it registers a finalizer; the class has slots and none for
weak references, so that this raises; `lmdb_kv.py:71-117`. -/
def init (opens : Bool) : Except StoreError Unit :=
  if opens then .error (.typeError "cannot create weak reference to 'LMDBKVStore' object")
  else .error (.other "lmdb.Error")

/-- `put`; `lmdb_kv.py:152-173`. -/
def put (ok : Bool) (k : WalKind) (id : String) (r : WalRecord) (e : WalEnv) : Bool × WalEnv :=
  if maxKeys ≤ e.entries then (false, e)
  else if ok then (true, e.put k id r)
  else (false, e)

/-- `delete`; `lmdb_kv.py:230-245`. -/
def delete (ok : Bool) (k : WalKind) (id : String) (e : WalEnv) : Bool × WalEnv :=
  if ok then ((e.get k id).isSome, e.erase k id) else (false, e)

/-- Whether a chunk is stored: the fallback does not look at the bound. -/
def accepts (out : Nat → ChunkOutcome) (i : Nat) (chunk : List (String × WalRecord)) (e : WalEnv) :
    Bool :=
  if (out i).begins then
    if maxKeys < e.entries + chunk.length then false else (out i).puts || (out i).fallback
  else (out i).fallback

/-- `put_many`; `lmdb_kv.py:175-228`. -/
def putMany (out : Nat → ChunkOutcome) (items : List (String × WalRecord)) (e : WalEnv) :
    List Bool × WalEnv :=
  putChunks (accepts out) 0 (chunks writeBatchSize items) e

end LMDBKVStore

namespace UnifiedLMDBStore

/-- `DEFAULT_BULK_BATCH`; `utils/lmdb_bulk.py:54`. -/
def bulkBatch : Nat := 2500

/-- `put_str`; `knowledge/lmdb_subdb.py:213-226`. -/
def putStr (ok : Bool) (k : WalKind) (id : String) (r : WalRecord) (e : WalEnv) : Bool × WalEnv :=
  if ok then (true, e.put k id r) else (false, e)

/-- `delete`; `lmdb_subdb.py:200-211`. It says nothing about whether the key was there. -/
def delete (ok : Bool) (k : WalKind) (id : String) (e : WalEnv) : Bool × WalEnv :=
  if ok then (true, e.erase k id) else (false, e)

/-- A chunk is written when it and all chunks before it are; `lmdb_bulk.py:151-164`. -/
def accepts (out : Nat → ChunkOutcome) (i : Nat) (_ : List (String × WalRecord)) (_ : WalEnv) : Bool :=
  (List.range (i + 1)).all fun j => (out j).puts

/-- `putmany_str`; `lmdb_subdb.py:248-260`. -/
def putmanyStr (out : Nat → ChunkOutcome) (items : List (String × WalRecord)) (e : WalEnv) :
    List Bool × WalEnv :=
  putChunks (accepts out) 0 (chunks bulkBatch items) e

/-- The id whose checkpoint is looked up for a prewrite record: the scan gives the key without its
family, and a family name that the id itself begins with is taken off again; `wal.py:415-432`. -/
def checkpointId (id : String) : String :=
  if startsWith WalKind.prewrite.head id then dropStr WalKind.prewrite.head.length id else id

end UnifiedLMDBStore

/-- The environment that a WAL manager writes to. -/
inductive Backend where
  | shadow
  | unified
  deriving DecidableEq, Repr

namespace Backend

def put : Backend → Bool → WalKind → String → WalRecord → WalEnv → Bool × WalEnv
  | shadow => LMDBKVStore.put
  | unified => UnifiedLMDBStore.putStr

def delete : Backend → Bool → WalKind → String → WalEnv → Bool × WalEnv
  | shadow => LMDBKVStore.delete
  | unified => UnifiedLMDBStore.delete

def putMany : Backend → (Nat → ChunkOutcome) → List (String × WalRecord) → WalEnv →
    List Bool × WalEnv
  | shadow => LMDBKVStore.putMany
  | unified => UnifiedLMDBStore.putmanyStr

/-- `wal_scan_prewrites_without_checkpoint`; `knowledge/wal.py:403-480`. -/
def orphans (b : Backend) (e : WalEnv) : List (String × WalRecord) :=
  (e.scan .prewrite).filter fun p => match b with
    | shadow => (e.get .checkpoint p.1).isNone
    | unified => (e.get .checkpoint (UnifiedLMDBStore.checkpointId p.1)).isNone

/-- Whether the put is accepted: the environment takes it, and the bounded one has room. -/
def accepts (b : Backend) (ok : Bool) (e : WalEnv) : Bool :=
  match b with
  | shadow => ok && !(LMDBKVStore.maxKeys ≤ e.entries)
  | unified => ok

theorem put_eq (b : Backend) (ok : Bool) (k : WalKind) (id : String) (r : WalRecord) (e : WalEnv) :
    b.put ok k id r e = if b.accepts ok e then (true, e.put k id r) else (false, e) := by
  cases b with
  | unified => rfl
  | shadow =>
    show LMDBKVStore.put ok k id r e = _
    rw [LMDBKVStore.put]
    by_cases hfull : LMDBKVStore.maxKeys ≤ e.entries
    · simp [accepts, hfull]
    · simp [accepts, hfull]

theorem snd_delete (b : Backend) (ok : Bool) (k : WalKind) (id : String) (e : WalEnv) :
    (b.delete ok k id e).2 = if ok then e.erase k id else e := by
  cases b <;> cases ok <;> rfl

theorem get_putMany_of_ne {k : WalKind} (h : k ≠ .finding) (b : Backend) (out : Nat → ChunkOutcome)
    (items : List (String × WalRecord)) (e : WalEnv) (id : String) :
    (b.putMany out items e).2.get k id = e.get k id := by
  cases b <;> exact get_putChunks_of_ne h _ _ _

theorem isSome_get_of_putMany_all (b : Backend) {out : Nat → ChunkOutcome}
    {items : List (String × WalRecord)} {e : WalEnv} (h : (b.putMany out items e).1.all id = true)
    {p : String × WalRecord} (hp : p ∈ items) :
    ((b.putMany out items e).2.get .finding p.1).isSome = true := by
  cases b with
  | shadow =>
    apply isSome_get_of_putChunks_all _ h
    rw [flatten_chunks (by decide)]
    exact hp
  | unified =>
    apply isSome_get_of_putChunks_all _ h
    rw [flatten_chunks (by decide)]
    exact hp

end Backend

end Hledac.Knowledge
