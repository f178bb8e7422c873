import Hledac.Lib.Dict
import Hledac.Lib.Wire
import Hledac.Py.Text

/-!
# The conditional cache

`src/transport/conditional_cache.py`. The three compressors, the digest and whether a call of diskcache raises are
inputs. A process keeps one zstd module and one backend; what diskcache holds outlives it, the memory map does not. A
blob is kept with what it was written of, which no function reads.
-/

namespace Hledac.Transport

open Hledac.Lib Hledac.Py

/-! ### Compression -/

/-- A compressor; `none` where it raises. -/
structure Compressor where
  compress : Bytes → Option Bytes
  decompress : Bytes → Option Bytes

/-- What it compresses it gets back. -/
def Compressor.Inverts (c : Compressor) : Prop :=
  ∀ body packed, c.compress body = some packed → c.decompress packed = some body

/-- What `_probe_zstd` finds. -/
inductive ZstdModule where
  | rust
  | python
  | unavailable
  deriving DecidableEq

/-- The compressors, and `hashlib.sha256(body).hexdigest()`. -/
structure ConditionalEnv where
  rust : Compressor
  python : Compressor
  zlib : Compressor
  sha256 : Bytes → String

/-- What is documented of the compressors. -/
structure ConditionalEnv.Lawful (env : ConditionalEnv) : Prop where
  rust : env.rust.Inverts
  python : env.python.Inverts
  zlib : env.zlib.Inverts

/-- The compressed body behind its marker, where that is shorter, else the body behind the marker for a passthrough. -/
def marked (marker : UInt8) (body packed : Bytes) : Bytes :=
  if packed.length < body.length then marker :: packed else 0 :: body

/-- The last fallback of `_compress`. -/
def compressZlib (env : ConditionalEnv) (body : Bytes) : Bytes :=
  match env.zlib.compress body with
  | some packed => marked 2 body packed
  | none => 0 :: body

/-- `_compress`; line 137. -/
def compressBody (env : ConditionalEnv) (zstd : ZstdModule) (body : Bytes) : Bytes :=
  if body = [] then [0]
  else
    match zstd with
    | .rust =>
      match env.rust.compress body with
      | some packed => marked 1 body packed
      | none => compressZlib env body
    | .python =>
      match env.python.compress body with
      | some packed => marked 1 body packed
      | none => compressZlib env body
    | .unavailable => compressZlib env body

/-- `_decompress`; line 184. Without a zstd module the payload of a zstd body is returned as it is. -/
def decompressBody (env : ConditionalEnv) (zstd : ZstdModule) (blob : Bytes) : Bytes :=
  match blob with
  | [] => []
  | marker :: payload =>
    if marker = 1 ∧ zstd = .rust then (env.rust.decompress payload).getD []
    else if marker = 1 ∧ zstd = .python then (env.python.decompress payload).getD []
    else if marker = 2 then (env.zlib.decompress payload).getD []
    else payload

/-! ### Entries -/

/-- `CacheEntry`. -/
structure CacheEntry where
  url : String
  etag : String
  lastModified : String
  body : Bytes
  sha256 : String
  fetchedAt : ℚ
  statusCode : Int
  contentType : String
  deriving DecidableEq

/-- `int` of a float. -/
def truncate (q : ℚ) : Int := if 0 ≤ q then q.floor else q.ceil

/-- A text behind its length. -/
def lengthPrefixed (data : Bytes) : Bytes := Wire.putLe 4 data.length ++ data

/-- The text of an entry, where its numbers fit their fields. -/
def packEntry (entry : CacheEntry) (body : Bytes) : Bytes :=
  lengthPrefixed (encode entry.etag) ++ (lengthPrefixed (encode entry.lastModified) ++
    (lengthPrefixed (encode entry.sha256) ++ (lengthPrefixed (encode entry.contentType) ++
      (Wire.putLe 8 (truncate entry.fetchedAt).toNat ++ (Wire.putInt 4 entry.statusCode ++ lengthPrefixed body)))))

/-- The numbers of an entry fit their fields, for `int.to_bytes`. -/
def Packs (entry : CacheEntry) (body : Bytes) : Prop :=
  (∀ text ∈ [entry.etag, entry.lastModified, entry.sha256, entry.contentType], (encode text).length < 256 ^ 4) ∧
    0 ≤ truncate entry.fetchedAt ∧ truncate entry.fetchedAt < 256 ^ 8 ∧
    -256 ^ 4 ≤ 2 * entry.statusCode ∧ 2 * entry.statusCode < 256 ^ 4 ∧ body.length < 256 ^ 4

instance (entry : CacheEntry) (body : Bytes) : Decidable (Packs entry body) := inferInstanceAs (Decidable (_ ∧ _))

/-- `_encode_entry`; line 362. A number that does not fit raises `OverflowError`, which nothing here
handles. -/
def encodeEntry (env : ConditionalEnv) (zstd : ZstdModule) (entry : CacheEntry) : Option Bytes :=
  let body := compressBody env zstd entry.body
  if Packs entry body then some (packEntry entry body) else none

/-- `_read_str`. -/
def readStr : Wire.Reader String := do
  let length ← Wire.uint 4
  let text ← Wire.bytes length
  pure (decodeIgnore text)

/-- The fields of `_decode_entry` in their order. -/
def readEntry (env : ConditionalEnv) (zstd : ZstdModule) (url : String) : Wire.Reader CacheEntry := do
  let etag ← readStr
  let lastModified ← readStr
  let sha256 ← readStr
  let contentType ← readStr
  let fetchedAt ← Wire.uint 8
  let statusCode ← Wire.bytes 4
  let length ← Wire.uint 4
  let body ← Wire.bytes length
  pure {
    url := url, etag := etag, lastModified := lastModified, body := decompressBody env zstd body, sha256 := sha256,
    fetchedAt := fetchedAt, statusCode := Wire.getInt statusCode, contentType := contentType }

/-- `_decode_entry`; line 379. What stands behind the body is not looked at. -/
def decodeEntry (env : ConditionalEnv) (zstd : ZstdModule) (url : String) (raw : Bytes) : Option CacheEntry :=
  (readEntry env zstd url raw).map Prod.fst

/-! ### The backend -/

/-- `_MAX_ENTRIES`. -/
def maxEntries : Nat := 5000

def minBodyCacheBytes : Nat := 256

def maxBodyCacheBytes : Nat := 2 * 1024 * 1024

/-- An encoded entry, with the entry and the zstd module of the process that wrote it. -/
structure EntryBlob (env : ConditionalEnv) where
  entry : CacheEntry
  writer : ZstdModule
  raw : Bytes
  encoded : encodeEntry env writer entry = some raw

/-- What diskcache holds, and the process: its zstd module, whether it has diskcache open, and its memory map. -/
structure ConditionalCache (env : ConditionalEnv) where
  disk : Dict String (EntryBlob env) := .empty
  zstd : ZstdModule
  usingDiskcache : Bool
  memory : Dict String (EntryBlob env) := .empty

namespace ConditionalCache

variable {env : ConditionalEnv}

/-- Where `_Backend.get` looks: in memory only without diskcache, or when diskcache raises. -/
def find (s : ConditionalCache env) (key : String) (fails : Bool) : Option (EntryBlob env) :=
  if s.usingDiskcache ∧ ¬ fails then s.disk.get? key else s.memory.get? key

/-- `_Backend.get`; line 328. -/
def get (s : ConditionalCache env) (key : String) (fails : Bool) : Option Bytes × ConditionalCache env :=
  if s.usingDiskcache ∧ ¬ fails then ((s.disk.get? key).map EntryBlob.raw, s)
  else ((s.memory.get? key).map EntryBlob.raw, { s with memory := s.memory.moveToEnd key })

/-- The loop that takes the oldest out of the memory map. -/
def trim (memory : Dict String (EntryBlob env)) : Dict String (EntryBlob env) :=
  Dict.popFirst^[memory.size - maxEntries] memory

/-- `_Backend.put`; line 340. -/
def put (s : ConditionalCache env) (key : String) (value : EntryBlob env) (fails : Bool) : ConditionalCache env :=
  if s.usingDiskcache ∧ ¬ fails then { s with disk := s.disk.insert key value }
  else { s with memory := trim ((s.memory.insert key value).moveToEnd key) }

/-- The digest that came with the entry is not that of its body. -/
def Rejected (env : ConditionalEnv) (entry : CacheEntry) : Prop :=
  entry.sha256 ≠ "" ∧ env.sha256 entry.body ≠ entry.sha256

instance (entry : CacheEntry) : Decidable (Rejected env entry) := inferInstanceAs (Decidable (_ ∧ _))

/-- `lookup`; line 473. -/
def lookup (s : ConditionalCache env) (url : String) (fails : Bool) : Option CacheEntry × ConditionalCache env :=
  if url = "" then (none, s)
  else
    match s.get url fails with
    | (none, s) => (none, s)
    | (some raw, s) =>
      match decodeEntry env s.zstd url raw with
      | none => (none, s)
      | some entry => if Rejected env entry then (none, s) else (some entry, s)

/-- `store`; line 512, of an entry with the time at which it is fetched. -/
def store (s : ConditionalCache env) (entry : CacheEntry) (fails : Bool) : Bool × ConditionalCache env :=
  if entry.url = "" ∨ entry.body.length < minBodyCacheBytes ∨ maxBodyCacheBytes < entry.body.length ∨
      (entry.etag = "" ∧ entry.lastModified = "") then (false, s)
  else
    match h : encodeEntry env s.zstd entry with
    | some raw => (true, s.put entry.url ⟨entry, s.zstd, raw, h⟩ fails)
    | none => (false, s)

/-- A new process, with what it finds of the compressors and of diskcache. -/
def restart (s : ConditionalCache env) (zstd : ZstdModule) (usingDiskcache : Bool) : ConditionalCache env where
  disk := s.disk
  zstd := zstd
  usingDiskcache := usingDiskcache

end ConditionalCache

end Hledac.Transport
