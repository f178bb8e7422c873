import Mathlib.Data.List.Perm.Subperm
import Hledac.Lib.Machine
import Hledac.Transport.ConditionalCache

/-!
# What the conditional cache serves

A run of stores and look-ups over several processes. A look-up is to give back the last entry of its URL that was
stored, and in the process that stored it, it is to give it back at all. What it gives back hangs on the place it looks
in, on the compressor that reads what another has written, and on the digest.
-/

namespace Hledac.Transport

open Hledac.Lib Hledac.Py

/-! ### Runs -/

/-- The cache, the last entry of each URL for which `store` returned `True`, and the URLs that the process has
stored. -/
structure ConditionalRun (env : ConditionalEnv) where
  cache : ConditionalCache env
  latest : Dict String CacheEntry := .empty
  fresh : List String := []

/-- A call, or the start of a new process. -/
inductive ConditionalEvent where
  | store (entry : CacheEntry) (fails : Bool)
  | lookup (url : String) (fails : Bool)
  | restart (zstd : ZstdModule) (usingDiskcache : Bool)

/-- One call. -/
def conditionalStep (env : ConditionalEnv) (r : ConditionalRun env) : ConditionalEvent → ConditionalRun env
  | .store entry fails =>
    let (stored, cache) := r.cache.store entry fails
    if stored then
      { cache := cache, latest := r.latest.insert entry.url entry, fresh := r.fresh.insert entry.url }
    else { r with cache := cache }
  | .lookup url fails => { r with cache := (r.cache.lookup url fails).2 }
  | .restart zstd usingDiskcache => { r with cache := r.cache.restart zstd usingDiskcache, fresh := [] }

/-- The calls from the start of a first process. -/
def conditionalRun (env : ConditionalEnv) (zstd : ZstdModule) (usingDiskcache : Bool)
    (events : List ConditionalEvent) : ConditionalRun env :=
  events.foldl (conditionalStep env) { cache := { zstd := zstd, usingDiskcache := usingDiskcache } }

/-- The two entries carry the same page. -/
structure CacheEntry.SamePage (entry last : CacheEntry) : Prop where
  body : entry.body = last.body
  etag : entry.etag = last.etag
  lastModified : entry.lastModified = last.lastModified
  contentType : entry.contentType = last.contentType
  statusCode : entry.statusCode = last.statusCode

namespace ConditionalRun

variable {env : ConditionalEnv}

/-- The process has stored the URL, and no more URLs than the memory map takes. -/
def Due (r : ConditionalRun env) (url : String) : Prop := url ∈ r.fresh ∧ r.fresh.length ≤ maxEntries

/-- What a look-up is to give back. -/
structure Answers (r : ConditionalRun env) (url : String) (fails : Bool) : Prop where
  right : ∀ entry, (r.cache.lookup url fails).1 = some entry →
    ∃ last, r.latest.get? url = some last ∧ entry.SamePage last
  found : r.Due url → (r.cache.lookup url fails).1 ≠ none

/-- The entry of a blob with the body that the process makes of it. -/
def readBack (r : ConditionalRun env) (blob : EntryBlob env) : CacheEntry :=
  { blob.entry with body := decompressBody env r.cache.zstd (compressBody env blob.writer blob.entry.body) }

/-- Where the look-up finds nothing, or the digest rejects what it reads, nothing is due; else what it reads is the page
that was stored last. -/
def Serves (r : ConditionalRun env) (url : String) (fails : Bool) : Prop :=
  match r.cache.find url fails with
  | none => ¬ r.Due url
  | some blob =>
    if ConditionalCache.Rejected env (r.readBack blob) then ¬ r.Due url
    else ∃ last, r.latest.get? url = some last ∧ (r.readBack blob).SamePage last

end ConditionalRun

/-! ### Reading back -/

section ReadBack

variable {env : ConditionalEnv} {zstd : ZstdModule} {entry : CacheEntry} {raw : Bytes}

theorem readStr_append {text : String} (h : (encode text).length < 256 ^ 4) (rest : Bytes) :
    readStr (lengthPrefixed (encode text) ++ rest) = some (text, rest) := by
  rw [readStr, lengthPrefixed, List.append_assoc, Wire.bind_eq_of_eq_some (Wire.uint_append h _),
    Wire.bind_eq_of_eq_some (Wire.bytes_append _ _), decodeIgnore_encode]
  rfl

theorem readEntry_encoded (h : encodeEntry env zstd entry = some raw) (reader : ZstdModule) (url : String) :
    readEntry env reader url raw = some ({ entry with
      url := url
      body := decompressBody env reader (compressBody env zstd entry.body)
      fetchedAt := (truncate entry.fetchedAt).toNat }, []) := by
  simp only [encodeEntry] at h
  split at h
  · next hpacks =>
    obtain ⟨htexts, hzero, hfetched, hlow, hhigh, hbody⟩ := hpacks
    obtain rfl := Option.some_inj.1 h
    have hstatus : Wire.bytes 4 (Wire.putInt 4 entry.statusCode ++
        lengthPrefixed (compressBody env zstd entry.body)) =
          some (Wire.putInt 4 entry.statusCode, lengthPrefixed (compressBody env zstd entry.body)) := by
      have := Wire.bytes_append (Wire.putInt 4 entry.statusCode) (lengthPrefixed (compressBody env zstd entry.body))
      rwa [Wire.length_putInt] at this
    have hlast : Wire.bytes (compressBody env zstd entry.body).length (compressBody env zstd entry.body) =
        some (compressBody env zstd entry.body, []) := by
      have := Wire.bytes_append (compressBody env zstd entry.body) []
      rwa [List.append_nil] at this
    rw [readEntry, packEntry, Wire.bind_eq_of_eq_some (readStr_append (htexts _ (by simp)) _),
      Wire.bind_eq_of_eq_some (readStr_append (htexts _ (by simp)) _),
      Wire.bind_eq_of_eq_some (readStr_append (htexts _ (by simp)) _),
      Wire.bind_eq_of_eq_some (readStr_append (htexts _ (by simp)) _),
      Wire.bind_eq_of_eq_some (Wire.uint_append (by omega) _), Wire.bind_eq_of_eq_some hstatus, lengthPrefixed,
      Wire.bind_eq_of_eq_some (Wire.uint_append hbody _), Wire.bind_eq_of_eq_some hlast,
      Wire.getInt_putInt (by omega) (by omega)]
    rfl
  · cases h

theorem steady_readStr : Wire.Steady readStr :=
  (Wire.steady_uint 4).bind fun length => (Wire.steady_bytes length).bind fun _ => Wire.steady_pure _

theorem steady_readEntry (env : ConditionalEnv) (reader : ZstdModule) (url : String) :
    Wire.Steady (readEntry env reader url) :=
  steady_readStr.bind fun _ => steady_readStr.bind fun _ => steady_readStr.bind fun _ => steady_readStr.bind fun _ =>
    (Wire.steady_uint 8).bind fun _ => (Wire.steady_bytes 4).bind fun _ => (Wire.steady_uint 4).bind fun length =>
      (Wire.steady_bytes length).bind fun _ => Wire.steady_pure _

theorem decodeEntry_of_prefix (h : encodeEntry env zstd entry = some raw) (reader : ZstdModule) (url : String)
    {start : Bytes} (hstart : start <+: raw) (hne : start ≠ raw) : decodeEntry env reader url start = none := by
  rw [decodeEntry,
    (steady_readEntry env reader url).eq_none_of_start (readEntry_encoded h reader url) hstart hne]
  rfl

theorem decompressBody_compressBody (hlaw : env.Lawful) (zstd : ZstdModule) (body : Bytes) :
    decompressBody env zstd (compressBody env zstd body) = body := by
  have hplain : decompressBody env zstd (0 :: body) = body := by
    rw [decompressBody, if_neg (by simp), if_neg (by simp), if_neg (by simp)]
  have hzlib : decompressBody env zstd (compressZlib env body) = body := by
    rw [compressZlib]
    cases hpacked : env.zlib.compress body with
    | none => exact hplain
    | some packed =>
      simp only [marked]
      split
      · rw [decompressBody, if_neg (by simp), if_neg (by simp), if_pos rfl, hlaw.zlib body packed hpacked]
        rfl
      · exact hplain
  by_cases hnil : body = []
  · subst hnil
    exact hplain
  · cases zstd with
    | unavailable =>
      rw [compressBody, if_neg hnil]
      exact hzlib
    | rust =>
      rw [compressBody, if_neg hnil]
      cases hpacked : env.rust.compress body with
      | none => exact hzlib
      | some packed =>
        simp only [marked]
        split
        · rw [decompressBody, if_pos ⟨rfl, rfl⟩, hlaw.rust body packed hpacked]
          rfl
        · exact hplain
    | python =>
      rw [compressBody, if_neg hnil]
      cases hpacked : env.python.compress body with
      | none => exact hzlib
      | some packed =>
        simp only [marked]
        split
        · rw [decompressBody, if_neg (by simp), if_pos ⟨rfl, rfl⟩, hlaw.python body packed hpacked]
          rfl
        · exact hplain

end ReadBack

/-! ### One look-up -/

section LookUp

variable {env : ConditionalEnv} {r : ConditionalRun env} {url : String} {fails : Bool}

theorem decodeEntry_raw (r : ConditionalRun env) (blob : EntryBlob env) (url : String) :
    decodeEntry env r.cache.zstd url blob.raw =
      some { r.readBack blob with url := url, fetchedAt := (truncate blob.entry.fetchedAt).toNat } := by
  rw [decodeEntry, readEntry_encoded blob.encoded]
  rfl

theorem get_fst (s : ConditionalCache env) (url : String) (fails : Bool) :
    (s.get url fails).1 = (s.find url fails).map EntryBlob.raw ∧ (s.get url fails).2.zstd = s.zstd := by
  rw [ConditionalCache.get, ConditionalCache.find]
  split
  · exact ⟨rfl, rfl⟩
  · exact ⟨rfl, rfl⟩

theorem lookup_fst (r : ConditionalRun env) (fails : Bool) (hurl : url ≠ "") : (r.cache.lookup url fails).1 =
    (r.cache.find url fails).bind fun blob =>
      if ConditionalCache.Rejected env (r.readBack blob) then none
      else some { r.readBack blob with url := url, fetchedAt := (truncate blob.entry.fetchedAt).toNat } := by
  obtain ⟨hraw, hzstd⟩ := get_fst r.cache url fails
  rw [ConditionalCache.lookup, if_neg hurl]
  rcases hget : r.cache.get url fails with ⟨raw, s⟩
  rw [hget] at hraw hzstd
  cases hfind : r.cache.find url fails with
  | none =>
    rw [hfind] at hraw
    obtain rfl : raw = none := hraw
    rfl
  | some blob =>
    rw [hfind] at hraw
    obtain rfl : raw = some blob.raw := hraw
    have hs : s.zstd = r.cache.zstd := hzstd
    simp only [hs, decodeEntry_raw, Option.bind_some]
    -- The test of the source is on the entry with its URL and time, which it does not look at.
    split
    · next hrejected =>
      rw [if_pos (show ConditionalCache.Rejected env (r.readBack blob) from hrejected)]
    · next hrejected =>
      rw [if_neg (show ¬ ConditionalCache.Rejected env (r.readBack blob) from hrejected)]

theorem answers_iff_serves (hurl : url ≠ "") : r.Answers url fails ↔ r.Serves url fails := by
  have hlookup := lookup_fst r fails hurl
  rw [ConditionalRun.Serves]
  cases hfind : r.cache.find url fails with
  | none =>
    rw [hfind] at hlookup
    simp only
    constructor
    · exact fun h hdue => h.found hdue hlookup
    · intro h
      refine ⟨fun entry hentry => ?_, fun hdue => absurd hdue h⟩
      rw [hlookup] at hentry
      cases hentry
  | some blob =>
    rw [hfind, Option.bind_some] at hlookup
    simp only
    by_cases hrejected : ConditionalCache.Rejected env (r.readBack blob)
    · rw [if_pos hrejected] at hlookup ⊢
      constructor
      · exact fun h hdue => h.found hdue hlookup
      · intro h
        refine ⟨fun entry hentry => ?_, fun hdue => absurd hdue h⟩
        rw [hlookup] at hentry
        cases hentry
    · rw [if_neg hrejected] at hlookup ⊢
      constructor
      · intro h
        obtain ⟨last, hlast, hpage⟩ := h.right _ hlookup
        exact ⟨last, hlast, ⟨hpage.body, hpage.etag, hpage.lastModified, hpage.contentType, hpage.statusCode⟩⟩
      · rintro ⟨last, hlast, hpage⟩
        refine ⟨fun entry hentry => ⟨last, hlast, ?_⟩, fun _ hnone => ?_⟩
        · obtain rfl := Option.some_inj.1 (hlookup.symm.trans hentry)
          exact ⟨hpage.body, hpage.etag, hpage.lastModified, hpage.contentType, hpage.statusCode⟩
        · rw [hlookup] at hnone
          cases hnone

end LookUp

/-! ### Calm runs -/

/-- The step goes as planned: no call of an open diskcache raises, a digest that is given is that of the body, and a new
process finds what the one before it found. -/
def CalmCall {env : ConditionalEnv} (r : ConditionalRun env) : ConditionalEvent → Prop
  | .store entry fails =>
    ¬ (r.cache.usingDiskcache = true ∧ fails = true) ∧ (entry.sha256 = "" ∨ env.sha256 entry.body = entry.sha256)
  | .lookup _ fails => ¬ (r.cache.usingDiskcache = true ∧ fails = true)
  | .restart zstd usingDiskcache => zstd = r.cache.zstd ∧ usingDiskcache = r.cache.usingDiskcache

/-- The look-up of a step answers right. -/
def AnswersCall {env : ConditionalEnv} (r : ConditionalRun env) : ConditionalEvent → Prop
  | .lookup url fails => r.Answers url fails
  | _ => True

/-- The map that the process reads and writes while no call raises. -/
def ConditionalCache.shelf {env : ConditionalEnv} (s : ConditionalCache env) : Dict String (EntryBlob env) :=
  if s.usingDiskcache then s.disk else s.memory

/-- What a calm run carries along. -/
structure Shelved {env : ConditionalEnv} (r : ConditionalRun env) : Prop where
  blobs : ∀ url blob, r.cache.shelf.get? url = some blob →
    r.latest.get? url = some blob.entry ∧ blob.writer = r.cache.zstd ∧
      (blob.entry.sha256 = "" ∨ env.sha256 blob.entry.body = blob.entry.sha256)
  due : r.fresh.length ≤ maxEntries → ∀ url ∈ r.fresh, ∃ blob, r.cache.shelf.get? url = some blob
  memory : ∀ url ∈ r.cache.memory.keys, url ∈ r.fresh
  nodup : r.fresh.Nodup
  named : "" ∉ r.fresh

section Calm

variable {env : ConditionalEnv} {r : ConditionalRun env}

theorem shelved_init (zstd : ZstdModule) (usingDiskcache : Bool) :
    Shelved ({ cache := { zstd := zstd, usingDiskcache := usingDiskcache } } : ConditionalRun env) where
  blobs url blob h := by
    rw [ConditionalCache.shelf] at h
    split at h
    · cases h
    · cases h
  due _ _ h := nomatch h
  memory _ h := nomatch h
  nodup := List.nodup_nil
  named h := nomatch h

theorem find_of_calm {s : ConditionalCache env} {fails : Bool} (hcalm : ¬ (s.usingDiskcache = true ∧ fails = true))
    (url : String) : s.find url fails = s.shelf.get? url := by
  rw [ConditionalCache.find, ConditionalCache.shelf]
  cases hdisk : s.usingDiskcache with
  | true =>
    have hfails : fails = false := by
      rw [hdisk] at hcalm
      exact Bool.eq_false_iff.2 fun h => hcalm ⟨rfl, h⟩
    rw [hfails]
    rfl
  | false => rfl

theorem Shelved.answers (hlaw : env.Lawful) (h : Shelved r) {url : String} {fails : Bool}
    (hcalm : ¬ (r.cache.usingDiskcache = true ∧ fails = true)) : r.Answers url fails := by
  by_cases hurl : url = ""
  · subst hurl
    exact ⟨nofun, fun hdue => absurd hdue.1 h.named⟩
  rw [answers_iff_serves hurl, ConditionalRun.Serves, find_of_calm hcalm]
  cases hget : r.cache.shelf.get? url with
  | none =>
    intro hdue
    obtain ⟨blob, hblob⟩ := h.due hdue.2 url hdue.1
    cases hget.symm.trans hblob
  | some blob =>
    obtain ⟨hlatest, hwriter, hdigest⟩ := h.blobs url blob hget
    have hback : r.readBack blob = blob.entry := by
      rw [ConditionalRun.readBack, hwriter, decompressBody_compressBody hlaw]
    simp only [hback]
    rw [if_neg fun hrejected => hdigest.elim hrejected.1 hrejected.2]
    exact ⟨blob.entry, hlatest, rfl, rfl, rfl, rfl, rfl⟩

theorem get?_of_trim {memory : Dict String (EntryBlob env)} {url : String} {blob : EntryBlob env}
    (h : (ConditionalCache.trim memory).get? url = some blob) : memory.get? url = some blob := by
  have hpops : ∀ n, (Dict.popFirst^[n] memory).get? url = some blob → memory.get? url = some blob := by
    intro n
    induction n with
    | zero => exact id
    | succ n ih =>
      rw [Function.iterate_succ_apply']
      exact fun h => ih (Dict.get?_of_popFirst h)
  exact hpops _ h

theorem trim_of_few {memory : Dict String (EntryBlob env)} (h : memory.size ≤ maxEntries) :
    ConditionalCache.trim memory = memory := by
  rw [ConditionalCache.trim, Nat.sub_eq_zero_of_le h]
  rfl

theorem Shelved.of_same (h : Shelved r) {cache : ConditionalCache env} (hzstd : cache.zstd = r.cache.zstd)
    (hdisk : cache.disk = r.cache.disk) (husing : cache.usingDiskcache = r.cache.usingDiskcache)
    (hmemory : ∀ url, cache.memory.get? url = r.cache.memory.get? url) : Shelved { r with cache := cache } := by
  have hshelf : ∀ url, cache.shelf.get? url = r.cache.shelf.get? url := by
    intro url
    rw [ConditionalCache.shelf, ConditionalCache.shelf, husing]
    split
    · rw [hdisk]
    · exact hmemory url
  refine ⟨fun url blob hblob => ?_, fun hfew url hurl => ?_, fun url hurl => ?_, h.nodup, h.named⟩
  · rw [hshelf] at hblob
    rw [hzstd]
    exact h.blobs url blob hblob
  · rw [hshelf]
    exact h.due hfew url hurl
  · rw [Dict.mem_keys_iff, hmemory, ← Dict.mem_keys_iff] at hurl
    exact h.memory url hurl

theorem Shelved.lookup (h : Shelved r) (url : String) (fails : Bool) :
    Shelved { r with cache := (r.cache.lookup url fails).2 } := by
  have hget : Shelved { r with cache := (r.cache.get url fails).2 } := by
    rw [ConditionalCache.get]
    split
    · exact h
    · exact h.of_same rfl rfl rfl fun _ => Dict.get?_moveToEnd
  have hsnd : (r.cache.lookup url fails).2 = r.cache ∨
      (r.cache.lookup url fails).2 = (r.cache.get url fails).2 := by
    rw [ConditionalCache.lookup]
    split
    · exact .inl rfl
    · right
      split
      · next heq => rw [heq]
      · next heq =>
        rw [heq]
        split
        · rfl
        · split
          · rfl
          · rfl
  cases hsnd with
  | inl heq =>
    rw [heq]
    exact h
  | inr heq =>
    rw [heq]
    exact hget

theorem Shelved.insert (h : Shelved r) {entry : CacheEntry} {blob : EntryBlob env} (hentry : blob.entry = entry)
    (hwriter : blob.writer = r.cache.zstd) (hdigest : entry.sha256 = "" ∨ env.sha256 entry.body = entry.sha256)
    (hurl : entry.url ≠ "") {cache : ConditionalCache env} (hzstd : cache.zstd = r.cache.zstd)
    (hold : ∀ url other, cache.shelf.get? url = some other →
      if entry.url = url then other = blob else r.cache.shelf.get? url = some other)
    (hnew : (r.fresh.insert entry.url).length ≤ maxEntries → ∀ url,
      cache.shelf.get? url = if entry.url = url then some blob else r.cache.shelf.get? url)
    (hmemory : ∀ url ∈ cache.memory.keys, url = entry.url ∨ url ∈ r.cache.memory.keys) :
    Shelved { cache := cache, latest := r.latest.insert entry.url entry, fresh := r.fresh.insert entry.url } := by
  refine ⟨fun url other hother => ?_, fun hfew url hmem => ?_, fun url hmem => ?_, h.nodup.insert, fun hmem => ?_⟩
  · have hcase := hold url other hother
    simp only [hzstd, Dict.get?_insert]
    split at hcase
    · next heq =>
      subst hcase
      rw [if_pos heq, hentry]
      exact ⟨rfl, hwriter, hdigest⟩
    · next hne =>
      rw [if_neg hne]
      exact h.blobs url other hcase
  · simp only [hnew hfew]
    split
    · exact ⟨blob, rfl⟩
    · next hne =>
      cases List.mem_insert_iff.1 hmem with
      | inl heq => exact absurd heq.symm hne
      | inr hfresh => exact h.due (Nat.le_trans (List.length_le_length_insert) hfew) url hfresh
  · cases hmemory url hmem with
    | inl heq => exact List.mem_insert_iff.2 (.inl heq)
    | inr hold => exact List.mem_insert_iff.2 (.inr (h.memory url hold))
  · cases List.mem_insert_iff.1 hmem with
    | inl heq => exact hurl heq.symm
    | inr hfresh => exact h.named hfresh

/-- What `put` makes of the shelf, where no call raises. -/
theorem Shelved.put (h : Shelved r) (blob : EntryBlob env) {fails : Bool}
    (hcalm : ¬ (r.cache.usingDiskcache = true ∧ fails = true)) (hwriter : blob.writer = r.cache.zstd)
    (hdigest : blob.entry.sha256 = "" ∨ env.sha256 blob.entry.body = blob.entry.sha256) (hurl : blob.entry.url ≠ "") :
    Shelved {
      cache := r.cache.put blob.entry.url blob fails
      latest := r.latest.insert blob.entry.url blob.entry
      fresh := r.fresh.insert blob.entry.url } := by
  rw [ConditionalCache.put]
  split
  · next hdisk =>
    have hshelf : ∀ url, ({ r.cache with disk := r.cache.disk.insert blob.entry.url blob } :
        ConditionalCache env).shelf.get? url = if blob.entry.url = url then some blob else r.cache.shelf.get? url := by
      intro url
      simp only [ConditionalCache.shelf, if_pos hdisk.1, Dict.get?_insert]
    refine h.insert rfl hwriter hdigest hurl ?_ ?_ ?_ ?_
    · rfl
    · intro url other hother
      rw [hshelf] at hother
      split at hother
      · next heq =>
        rw [if_pos heq]
        exact (Option.some_inj.1 hother).symm
      · next hne =>
        rw [if_neg hne]
        exact hother
    · exact fun _ url => hshelf url
    · exact fun url hmem => .inr hmem
  · next hother =>
    have hmemory : r.cache.usingDiskcache = false := by
      cases hdisk : r.cache.usingDiskcache with
      | false => rfl
      | true => exact absurd ⟨hdisk, fun hfails => hcalm ⟨hdisk, hfails⟩⟩ hother
    have hput : ∀ url, ((r.cache.memory.insert blob.entry.url blob).moveToEnd blob.entry.url).get? url =
        if blob.entry.url = url then some blob else r.cache.memory.get? url := by
      intro url
      rw [Dict.get?_moveToEnd, Dict.get?_insert]
    have hshelf : ∀ memory, ({ r.cache with memory := memory } : ConditionalCache env).shelf = memory := by
      intro memory
      simp only [ConditionalCache.shelf, hmemory]
      rfl
    have hold : r.cache.shelf = r.cache.memory := hshelf r.cache.memory
    have hkeys : ∀ url ∈ ((r.cache.memory.insert blob.entry.url blob).moveToEnd blob.entry.url).keys,
        url = blob.entry.url ∨ url ∈ r.cache.memory.keys := by
      intro url hmem
      rw [Dict.mem_keys_iff, hput] at hmem
      split at hmem
      · next heq => exact .inl heq.symm
      · exact .inr (Dict.mem_keys_iff.2 hmem)
    refine h.insert rfl hwriter hdigest hurl ?_ ?_ ?_ ?_
    · rfl
    · intro url other hblob
      rw [hshelf] at hblob
      rw [hold]
      have hget := get?_of_trim hblob
      rw [hput] at hget
      split at hget
      · next heq =>
        rw [if_pos heq]
        exact (Option.some_inj.1 hget).symm
      · next hne =>
        rw [if_neg hne]
        exact hget
    · intro hfew url
      have hsize : ((r.cache.memory.insert blob.entry.url blob).moveToEnd blob.entry.url).size ≤ maxEntries := by
        have hsubset : ((r.cache.memory.insert blob.entry.url blob).moveToEnd blob.entry.url).keys ⊆
            r.fresh.insert blob.entry.url := by
          intro url hmem
          cases hkeys url hmem with
          | inl heq => exact List.mem_insert_iff.2 (.inl heq)
          | inr hmem => exact List.mem_insert_iff.2 (.inr (h.memory url hmem))
        have hle := (List.subperm_of_subset (Dict.nodup _) hsubset).length_le
        rw [Dict.length_keys] at hle
        exact Nat.le_trans hle hfew
      rw [hshelf, hold, trim_of_few hsize, hput]
    · intro url hmem
      simp only at hmem
      obtain ⟨other, hother⟩ := Option.isSome_iff_exists.1 (Dict.mem_keys_iff.1 hmem)
      exact hkeys url (Dict.mem_keys_iff.2 (Option.isSome_iff_exists.2 ⟨other, get?_of_trim hother⟩))

theorem shelved_step (h : Shelved r) {e : ConditionalEvent} (hcalm : CalmCall r e) :
    Shelved (conditionalStep env r e) := by
  cases e with
  | lookup url fails => exact h.lookup url fails
  | restart zstd usingDiskcache =>
    obtain ⟨rfl, rfl⟩ := hcalm
    refine ⟨fun url blob hblob => ?_, fun _ url hmem => absurd hmem List.not_mem_nil,
      fun url hmem => absurd hmem List.not_mem_nil, List.nodup_nil, List.not_mem_nil⟩
    apply h.blobs url blob
    simp only [conditionalStep, ConditionalCache.restart, ConditionalCache.shelf] at hblob ⊢
    cases hdisk : r.cache.usingDiskcache with
    | true =>
      rw [hdisk] at hblob
      exact hblob
    | false =>
      rw [hdisk] at hblob
      cases hblob
  | store entry fails =>
    obtain ⟨hraises, hdigest⟩ := hcalm
    simp only [conditionalStep, ConditionalCache.store]
    split
    · exact h
    · next hguard =>
      rw [not_or] at hguard
      split
      · next raw hencoded =>
        exact h.put ⟨entry, r.cache.zstd, raw, hencoded⟩ hraises rfl hdigest hguard.1
      · exact h

end Calm

theorem named_run (env : ConditionalEnv) (zstd : ZstdModule) (usingDiskcache : Bool)
    (events : List ConditionalEvent) : "" ∉ (conditionalRun env zstd usingDiskcache events).fresh := by
  apply foldl_invariant (I := fun r : ConditionalRun env => "" ∉ r.fresh)
  · intro r e h
    cases e with
    | lookup url fails => exact h
    | restart zstd usingDiskcache => exact fun hmem => nomatch hmem
    | store entry fails =>
      simp only [conditionalStep, ConditionalCache.store]
      split
      · exact h
      · next hguard =>
        split
        · intro hmem
          cases List.mem_insert_iff.1 hmem with
          | inl heq => exact hguard (.inl heq.symm)
          | inr hold => exact h hold
        · exact h
  · exact fun hmem => nomatch hmem

/-- What the cache is for. Each look-up of a run answers right exactly when it finds what was stored last and reads it
back, so in a calm run all do; and no proper start of an encoded entry decodes. -/
theorem answers_of_calm {env : ConditionalEnv} (hlaw : env.Lawful) (zstd : ZstdModule) (usingDiskcache : Bool)
    (events : List ConditionalEvent) :
    (∀ url fails, (conditionalRun env zstd usingDiskcache events).Answers url fails ↔
      url = "" ∨ (conditionalRun env zstd usingDiskcache events).Serves url fails) ∧
    (StepsMeet (conditionalStep env) CalmCall { cache := { zstd := zstd, usingDiskcache := usingDiskcache } } events →
      StepsMeet (conditionalStep env) AnswersCall { cache := { zstd := zstd, usingDiskcache := usingDiskcache } }
        events) ∧
    ∀ writer reader entry raw url start, encodeEntry env writer entry = some raw → start <+: raw → start ≠ raw →
      decodeEntry env reader url start = none := by
  refine ⟨fun url fails => ?_, fun hcalm => ?_,
    fun writer reader entry raw url start h => decodeEntry_of_prefix h reader url⟩
  · by_cases hurl : url = ""
    · subst hurl
      exact ⟨fun _ => .inl rfl, fun _ => ⟨nofun, fun hdue => absurd hdue.1 (named_run env zstd usingDiskcache events)⟩⟩
    · rw [answers_iff_serves hurl]
      exact ⟨.inr, fun h => h.resolve_left hurl⟩
  · apply hcalm.of_invariant (fun r e h hcall => shelved_step h hcall) ?_ (shelved_init zstd usingDiskcache)
    intro r e h hcall
    cases e with
    | lookup url fails => exact h.answers hlaw hcall
    | store entry fails => trivial
    | restart zstd usingDiskcache => trivial

/-- A compressor that puts its header before what it cannot make shorter. -/
def headed (header : Bytes) : Compressor where
  compress body := some (header ++ body)
  decompress packed := some (packed.drop header.length)

theorem headed_inverts (header : Bytes) : (headed header).Inverts := by
  intro body packed h
  obtain rfl := Option.some_inj.1 h
  exact congrArg some List.drop_left

/-- The compressors on bytes that none of them makes shorter. -/
def headedEnv : ConditionalEnv where
  rust := headed [0x28, 0xB5, 0x2F, 0xFD]
  python := headed [0x28, 0xB5, 0x2F, 0xFD]
  zlib := headed [0x78, 0x9C]
  sha256 _ := "0000000000000000000000000000000000000000000000000000000000000000"

theorem headedEnv_lawful : headedEnv.Lawful := ⟨headed_inverts _, headed_inverts _, headed_inverts _⟩

/-- A page whose 256 bytes are all different. -/
def page (url etag : String) : CacheEntry where
  url := url
  etag := etag
  lastModified := ""
  body := (List.range 256).map UInt8.ofNat
  sha256 := ""
  fetchedAt := 1700000000
  statusCode := 200
  contentType := "text/html"

/-- A page is stored and looked up. -/
theorem answers_of_calm_page :
    StepsMeet (conditionalStep headedEnv) AnswersCall { cache := { zstd := .rust, usingDiskcache := true } }
      [.store (page "http://a.org/" "v1") false, .lookup "http://a.org/" false] :=
  (answers_of_calm headedEnv_lawful .rust true _).2.1
    ⟨⟨(fun h => nomatch h.2), .inl rfl⟩, (fun h => nomatch h.2), trivial⟩

/-- A write that fails goes to memory, and diskcache still has the page before it. -/
theorem not_answers :
    ¬ ∀ (env : ConditionalEnv), env.Lawful → ∀ zstd usingDiskcache events,
      StepsMeet (conditionalStep env) AnswersCall { cache := { zstd := zstd, usingDiskcache := usingDiskcache } }
        events := by
  intro h
  have hsteps := h headedEnv headedEnv_lawful .rust true
    [.store (page "http://a.org/" "v1") false, .store (page "http://a.org/" "v2") true, .lookup "http://a.org/" false]
  obtain ⟨last, hlast, hpage⟩ := hsteps.2.2.1.right (page "http://a.org/" "v1") (by decide +kernel)
  have hlatest : last = page "http://a.org/" "v2" := by
    apply Option.some_inj.1
    rw [← hlast]
    decide +kernel
  rw [hlatest] at hpage
  exact absurd hpage.etag (by decide)

end Hledac.Transport
