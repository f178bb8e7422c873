import Hledac.Dht.MetadataTransfer

/-!
# Fetching torrent metadata

`fetch_metadata` of `src/dht/metadata_fetcher.py` tries a few peers and remembers what it has found. Whatever the
peers do, what it returns was parsed from bytes whose SHA-1 is the infohash.
-/

namespace Hledac.Dht

open Hledac.Lib Hledac.Py

/-! ### The info dictionary -/

/-- A field that holds text, or what was decoded. -/
inductive InfoField where
  | text (s : String)
  | value (v : BVal)

/-- A file of a torrent. -/
structure FileInfo where
  path : InfoField
  length : BVal

/-- `TorrentInfo`, less the fields that are never set. -/
structure TorrentInfo where
  name : InfoField
  files : List FileInfo
  totalSize : BVal
  pieceLength : BVal
  pieces : BVal
  trackers : List InfoField

/-- Byte strings are decoded. -/
def asField : BVal → InfoField
  | .bytes b => .text (decodeReplace b)
  | v => .value v

/-- What a `for` loop takes from a value. -/
def iterate : BVal → Except TransferError (List BVal)
  | .list items => .ok items
  | .bytes b => .ok (b.map fun x => .int x.toNat)
  | .dict entries => .ok (entries.map fun e => match e.1 with
    | .bytes b => .bytes b
    | .int i => .int i
    | _ => .none)
  | _ => .error (.exc .typeError)

/-- `p.decode("utf-8", errors="replace")`. -/
def decodePart : BVal → Except TransferError String
  | .bytes b => .ok (decodeReplace b)
  | _ => .error .attributeError

/-- `total_size += length`. -/
def addLength (total : Int) : BVal → Except TransferError Int
  | .int i => .ok (total + i)
  | _ => .error (.exc .typeError)

/-- The loop over `info[b"files"]`. -/
def readFiles : List BVal → List FileInfo → Int → Except TransferError (List FileInfo × Int)
  | [], files, total => .ok (files, total)
  | .dict f :: rest, files, total => do
    let parts ← iterate (getOr f "path" "path" (.list []))
    let parts ← parts.mapM decodePart
    let length := getOr f "length" "length" (.int 0)
    let path := if parts = [] then "unknown" else "/".intercalate parts
    let total ← addLength total length
    readFiles rest (files ++ [⟨.text path, length⟩]) total
  | _ :: _, _, _ => .error .attributeError

/-- `info.get(b"name", info.get("name", "unknown"))`, decoded. -/
def infoName (info : List (BKey × BVal)) : InfoField :=
  match lookup info (wireKey "name") with
  | some v => asField v
  | none =>
    match lookup info (.str "name") with
    | some v => asField v
    | none => .text "unknown"

/-- `_parse_torrent_info`; lines 289-319. -/
def parseTorrentInfo : BVal → Except TransferError TorrentInfo
  | .dict info => do
    let name := infoName info
    let pieceLength := getOr info "piece length" "piece_length" (.int 0)
    let pieces := getOr info "pieces" "pieces" (.bytes [])
    let trackers := match lookup info (wireKey "announce") with
      | some tracker => [asField tracker]
      | none => []
    match lookup info (wireKey "files") with
    | some files =>
      let items ← iterate files
      let (files, total) ← readFiles items [] 0
      return ⟨name, files, .int total, pieceLength, pieces, trackers⟩
    | none =>
      let length := getOr info "length" "length" (.int 0)
      return ⟨name, [⟨name, length⟩], length, pieceLength, pieces, trackers⟩
  | _ => .error .attributeError

/-! ### One peer -/

/-- How a peer behaves: what the read of its first 68 bytes gives, and what it sends afterwards. The code reads the 68
bytes from the writer; that of `asyncio` raises an attribute error. -/
structure PeerConnection where
  greeting : Except TransferError Bytes
  stream : Stream

/-- `_send_handshake`; lines 95-111. -/
def sendHandshake (greeting : Except TransferError Bytes) : Except TransferError Bool :=
  match greeting with
  | .ok response => .ok (68 ≤ response.length && response.getD 25 0 &&& 16 ≠ 0)
  | .error .timeout => .ok false
  | .error e => .error e

/-- `(metadata_size + METADATA_PIECE_SIZE - 1) // METADATA_PIECE_SIZE`, nothing below zero. -/
def numPieces : BVal → Except TransferError Nat
  | .int size => .ok ((size + 16384 - 1) / 16384).toNat
  | _ => .error (.exc .typeError)

/-- What `_try_peer` makes of the assembled bytes; lines 181-191. Digests are compared as text. -/
def checkMetadata (limit : Nat) (infohash full : Bytes) : Except TransferError (Option TorrentInfo) := do
  if full = [] then
    return none
  if Digest.sha1 full ≠ hexText infohash then
    return none
  let info ← (decodeBencode limit full).mapError .exc
  if !truthy info then
    return none
  let result ← parseTorrentInfo info
  return some result

/-- `_try_peer`, lines 167-197; no connection is `none`. -/
def tryPeer (limit : Nat) (infohash : Bytes) : Option PeerConnection → Except TransferError (Option TorrentInfo)
  | none => .ok none
  | some conn => do
    let supported ← sendHandshake conn.greeting
    if !supported then
      return none
    let ((metadataSize, utId), s) ← handshakeExtended limit conn.stream
    if !truthy metadataSize || !truthy utId then
      return none
    let count ← numPieces metadataSize
    let pieces ← requestAllPieces limit s count utId
    let full ← joinPieces pieces
    checkMetadata limit infohash full

/-! ### All peers -/

/-- The loop over the peers; what one of them raises is caught. -/
def tryPeers (limit : Nat) (infohash : Bytes) : List (Option PeerConnection) → Option TorrentInfo
  | [] => none
  | conn :: rest =>
    match tryPeer limit infohash conn with
    | .ok (some info) => some info
    | _ => tryPeers limit infohash rest

/-- `_cache`, by the infohash in hexadecimal digits. -/
abbrev MetadataCache := Dict String TorrentInfo

/-- The arguments of a call: the infohash, and how the peers behave in it. -/
structure FetchCall where
  infohash : Bytes
  peers : List (Option PeerConnection)

/-- `fetch_metadata`, lines 59-84: the result and the cache. -/
def fetchMetadata (limit : Nat) (cache : MetadataCache) (call : FetchCall) : Option TorrentInfo × MetadataCache :=
  if call.infohash.length ≠ 20 then (none, cache)
  else
    match cache.get? (hexText call.infohash) with
    | some info => (some info, cache)
    | none =>
      match tryPeers limit call.infohash (call.peers.take 3) with
      | some info => (some info, cache.insert (hexText call.infohash) info)
      | none => (none, cache)

/-- The cache after some calls. -/
def cacheAfter (limit : Nat) (calls : List FetchCall) : MetadataCache :=
  calls.foldl (fun cache call => (fetchMetadata limit cache call).2) Dict.empty

/-! ### What is returned is verified -/

section Verified

variable {limit : Nat} {infohash : Bytes} {info : TorrentInfo} {cache : MetadataCache}

/-- The information was parsed from bytes with the SHA-1. -/
def Verified (limit : Nat) (key : String) (info : TorrentInfo) : Prop :=
  ∃ full v, Digest.sha1 full = key ∧ decodeBencode limit full = .ok v ∧ parseTorrentInfo v = .ok info

theorem verified_of_checkMetadata {full : Bytes} (h : checkMetadata limit infohash full = .ok (some info)) :
    Verified limit (hexText infohash) info := by
  rw [checkMetadata] at h
  by_cases hempty : full = []
  · rw [if_pos hempty] at h
    cases h
  · rw [if_neg hempty] at h
    by_cases hsha : Digest.sha1 full = hexText infohash
    · rw [if_neg (not_not_intro hsha)] at h
      cases hdecode : decodeBencode limit full with
      | error e =>
        rw [hdecode] at h
        cases h
      | ok v =>
        rw [hdecode] at h
        change (if (!truthy v) = true then _ else _) = _ at h
        split at h
        · cases h
        · obtain ⟨result, hresult, h⟩ := Raising.bind_eq_ok_iff.1 h
          cases h
          exact ⟨full, v, hsha, hdecode, hresult⟩
    · rw [if_pos hsha] at h
      cases h

theorem verified_of_tryPeer {conn : Option PeerConnection} (h : tryPeer limit infohash conn = .ok (some info)) :
    Verified limit (hexText infohash) info := by
  cases conn with
  | none => cases h
  | some conn =>
    rw [tryPeer] at h
    obtain ⟨supported, -, h⟩ := Raising.bind_eq_ok_iff.1 h
    split at h
    · cases h
    · obtain ⟨⟨⟨metadataSize, utId⟩, s⟩, -, h⟩ := Raising.bind_eq_ok_iff.1 h
      dsimp only at h
      split at h
      · cases h
      · obtain ⟨count, -, h⟩ := Raising.bind_eq_ok_iff.1 h
        obtain ⟨pieces, -, h⟩ := Raising.bind_eq_ok_iff.1 h
        obtain ⟨full, -, h⟩ := Raising.bind_eq_ok_iff.1 h
        exact verified_of_checkMetadata h

theorem verified_of_tryPeers {conns : List (Option PeerConnection)} (h : tryPeers limit infohash conns = some info) :
    Verified limit (hexText infohash) info := by
  induction conns with
  | nil => cases h
  | cons conn rest ih =>
    rw [tryPeers] at h
    split at h
    · next found hfound =>
      cases h
      exact verified_of_tryPeer hfound
    · exact ih h

/-- Everything remembered is verified. -/
def CacheVerified (limit : Nat) (cache : MetadataCache) : Prop :=
  ∀ key info, cache.get? key = some info → Verified limit key info

theorem fetchMetadata_verified (h : CacheVerified limit cache) (call : FetchCall) :
    (∀ info, (fetchMetadata limit cache call).1 = some info → Verified limit (hexText call.infohash) info) ∧
      CacheVerified limit (fetchMetadata limit cache call).2 := by
  rw [fetchMetadata]
  split
  · exact ⟨fun _ hnone => (nomatch hnone), h⟩
  · cases hcached : cache.get? (hexText call.infohash) with
    | some info =>
      refine ⟨fun info' hinfo => ?_, h⟩
      cases hinfo
      exact h _ _ hcached
    | none =>
      cases hfound : tryPeers limit call.infohash (call.peers.take 3) with
      | none => exact ⟨fun _ hnone => (nomatch hnone), h⟩
      | some info =>
        have hverified := verified_of_tryPeers hfound
        constructor
        · intro info' hinfo
          cases hinfo
          exact hverified
        · intro key info' hget
          dsimp only at hget
          rw [Dict.get?_insert] at hget
          split at hget
          · next hkey =>
            cases hget
            exact hkey ▸ hverified
          · exact h key info' hget

theorem cacheVerified_cacheAfter (limit : Nat) (calls : List FetchCall) :
    CacheVerified limit (cacheAfter limit calls) := by
  have hempty : CacheVerified limit Dict.empty := by
    intro key info hget
    cases hget
  have hstep : ∀ cache call, CacheVerified limit cache → CacheVerified limit (fetchMetadata limit cache call).2 :=
    fun _ call h => (fetchMetadata_verified h call).2
  exact foldl_invariant hstep calls hempty

end Verified

/-- No delivery of any metadata is understood, neither the handshake nor the pieces, and all metadata whose size can
be written have one; and whatever peers do, every result of `fetch_metadata` was parsed from bytes whose SHA-1 is the
infohash. -/
theorem transfer_fails (limit : Nat) :
    (∀ (metadata : Bytes) (d : Delivery metadata) (closes : Bool), ¬ d.Greets limit closes ∧ ¬ d.Arrives limit closes) ∧
      (∀ metadata : Bytes, metadata ≠ [] → metadata.length < 10 ^ maxStrDigits → Nonempty (Delivery metadata)) ∧
      ∀ (calls : List FetchCall) (call : FetchCall) (info : TorrentInfo),
        (fetchMetadata limit (cacheAfter limit calls) call).1 = some info →
          Verified limit (hexText call.infohash) info := by
  refine ⟨?_, ?_, ?_⟩
  · intro metadata d closes
    exact ⟨d.not_greets, d.not_arrives⟩
  · intro metadata hne hsize
    exact ⟨plainDelivery hne hsize⟩
  · intro calls call info
    exact (fetchMetadata_verified (cacheVerified_cacheAfter limit calls) call).1 info

/-- One byte of metadata, in one piece, with nothing else. -/
theorem transfer_fails_one :
    ∃ d : Delivery [120], d.messages.length = 1 ∧ ¬ d.Greets 1000 false ∧ ¬ d.Arrives 1000 false := by
  have hsize : [(120 : UInt8)].length < 10 ^ maxStrDigits := one_lt_bound
  let d : Delivery [120] := plainDelivery (List.cons_ne_nil _ _) hsize
  exact ⟨d, rfl, d.not_greets, d.not_arrives⟩

end Hledac.Dht
