import Mathlib.Data.Vector.Defs
import Hledac.Dht.BencodeCodecs
import Hledac.Dht.Routing

/-!
# Readers of DHT responses

Three parts of `src/dht/kademlia_node.py` read the responses of BEP-5: the bootstrap protocol, the crawl and
`get_peers`. A decoded dictionary has byte strings as keys. `get_peers` looks its entries up under these; the other
two look them up under text, find nothing, and take every response for an empty one.
-/

namespace Hledac.Dht

open Hledac.Lib Hledac.Py

/-! ### Compact addresses -/

/-- A node of a response: 20 bytes of id, an IPv4 address and a port. -/
structure CompactNode where
  id : Vector UInt8 20
  ip : Vector UInt8 4
  port : UInt16

/-- A peer of a response. -/
structure CompactPeer where
  ip : Vector UInt8 4
  port : UInt16

/-- Two bytes, the higher one first. -/
def portBytes (port : UInt16) : Bytes := [UInt8.ofNat (port.toNat / 256), UInt8.ofNat (port.toNat % 256)]

/-- The 26 bytes of a node. -/
def CompactNode.encode (n : CompactNode) : Bytes := n.id.toList ++ (n.ip.toList ++ portBytes n.port)

/-- The six bytes of a peer. -/
def CompactPeer.encode (p : CompactPeer) : Bytes := p.ip.toList ++ portBytes p.port

/-- `bytes.hex()`. -/
def hexText (b : Bytes) : String :=
  String.ofList (b.flatMap fun x => [Digest.hexDigit (x.toNat / 16), Digest.hexDigit (x.toNat % 16)])

/-- `_bytes_to_ipv4`; lines 81-83. -/
def bytesToIpv4 (b : Bytes) : String := ".".intercalate (b.map fun x => toString x.toNat)

/-- `int.from_bytes(b, "big")`. -/
def fromBytes (b : Bytes) : Nat := b.foldl (fun n x => n * 256 + x.toNat) 0

/-- What `_parse_compact_nodes` says of a node. -/
structure NodeInfo where
  nid : Bytes
  host : String
  port : Nat
  deriving DecidableEq

/-- The fields of a chunk of 26 bytes. -/
def nodeOfChunk (chunk : Bytes) : NodeInfo :=
  ⟨chunk.take 20, bytesToIpv4 ((chunk.drop 20).take 4), fromBytes ((chunk.drop 24).take 2)⟩

/-- `_parse_compact_nodes`; lines 67-78. The range ends where no whole chunk is left. -/
def parseCompactNodes (compact : Bytes) : List NodeInfo :=
  (List.range (compact.length / 26)).map fun i => nodeOfChunk ((compact.drop (26 * i)).take 26)

/-- `parse_compact_peer_6bytes`; lines 86-90. -/
def parseCompactPeer : BVal → Option (String × Nat)
  | .bytes data =>
    if data.length < 6 then none else some (bytesToIpv4 (data.take 4), fromBytes ((data.drop 4).take 2))
  | _ => none

/-! ### Values -/

/-- `d.get(key)`. -/
def lookup (entries : List (BKey × BVal)) (key : BKey) : Option BVal :=
  (entries.find? fun e => e.1 = key).map Prod.snd

/-- A value counts as true. -/
def truthy : BVal → Bool
  | .none => false
  | .int i => i ≠ 0
  | .bytes b => b ≠ []
  | .list items => !items.isEmpty
  | .dict entries => !entries.isEmpty

/-! ### The bootstrap protocol -/

/-- An entry of `_nodes_found`. -/
structure FoundNode where
  id : String
  host : String
  port : Nat
  deriving DecidableEq

/-- The assignment for one node. -/
def recordNode (found : Dict String FoundNode) (n : NodeInfo) : Dict String FoundNode :=
  found.insert (hexText n.nid) ⟨hexText n.nid, n.host, n.port⟩

/-- `_DHTBootstrapProtocol.datagram_received`, lines 194-215: `_nodes_found` after a datagram.
Exceptions are caught; none comes between two assignments. -/
def datagramReceived (limit : Nat) (found : Dict String FoundNode) (data : Bytes) : Dict String FoundNode :=
  match safeBdecode limit data with
  | .ok (some (.dict msg)) =>
    match (lookup msg (.str "r")).getD (.dict []) with
    | .dict r =>
      match lookup r (.str "id") with
      | some (.bytes id) =>
        if (hexText id).length ≠ 40 then found
        else
          match (lookup r (.str "nodes")).getD (.bytes []) with
          | .bytes compact =>
            if compact.length < 26 then found else (parseCompactNodes compact).foldl recordNode found
          | _ => found
      | _ => found
    | _ => found
  | _ => found

/-! ### Nodes for the routing table -/

/-- `_update_routing(nid.hex(), {"host": …, "port": …})` for each node; the clock is read for each. -/
def addNodes (c : KademliaNode String) (clock : Nat → ℚ) (table : RoutingTable String) (nodes : List NodeInfo) :
    RoutingTable String :=
  nodes.zipIdx.foldl (fun table e => c.updateRouting table (hexText e.1.nid) ⟨some e.1.host, some e.1.port⟩ (clock e.2))
    table

/-! ### The crawl -/

/-- A result of the crawl. -/
structure TorrentResult where
  infoHash : String
  name : String
  files : BVal
  sizeBytes : BVal
  peers : Nat
  source : String

/-- What a response changes. The peers that the handler has looked at are kept as well. -/
structure Crawl where
  routing : RoutingTable String
  seenHashes : List String
  results : List TorrentResult
  considered : List (String × Nat)

/-- The nodes that the handler reads from a value, or none where that raises. A short list and a short dictionary
have no chunk. -/
def crawlNodes : BVal → Option (List NodeInfo)
  | .none => some []
  | .int i => if i = 0 then some [] else none
  | .bytes compact => some (parseCompactNodes compact)
  | .list items => if items.length < 26 then some [] else none
  | .dict entries => if entries.length < 26 then some [] else none

/-- `metadata and keyword.lower() in metadata.get("name", "").lower()`, or none where that raises. No value is text,
so a name that is there has no `lower`, or no text in it. -/
def namesKeyword (keyword : String) (metadata : BVal) : Option Bool :=
  match metadata with
  | .dict entries =>
    if entries.isEmpty then some false
    else match lookup entries (.str "name") with
      | none => some (lower keyword = "")
      | some _ => none
  | v => if truthy v then none else some false

/-- The result that the handler makes of metadata. -/
def torrentResult (infoHash : Bytes) (metadata : BVal) (count : Nat) : TorrentResult :=
  let entries := match metadata with
    | .dict entries => entries
    | _ => []
  ⟨hexText infoHash, "", (lookup entries (.str "files")).getD (.list []),
    (lookup entries (.str "length")).getD (.int 0), count, "dht"⟩

/-- The loop over `values[:5]`; metadata are fetched from one peer for each hash, and an exception, also of
`fetch`, ends it. -/
def considerPeers (fetch : String × Nat → Option BVal) (infoHash : Bytes) (keyword : String) (count : Nat) :
    List BVal → Crawl → Crawl
  | [], s => s
  | value :: rest, s =>
    match parseCompactPeer value with
    | none => considerPeers fetch infoHash keyword count rest s
    | some peer =>
      let s := { s with considered := s.considered ++ [peer] }
      if hexText infoHash ∈ s.seenHashes then considerPeers fetch infoHash keyword count rest s
      else
        let s := { s with seenHashes := s.seenHashes ++ [hexText infoHash] }
        match fetch peer with
        | none => s
        | some metadata =>
          match namesKeyword keyword metadata with
          | none => s
          | some false => considerPeers fetch infoHash keyword count rest s
          | some true =>
            considerPeers fetch infoHash keyword count rest
              { s with results := s.results ++ [torrentResult infoHash metadata count] }

/-- `_handle_get_peers_response`; lines 1520-1554. -/
def handleGetPeersResponse (c : KademliaNode String) (clock : Nat → ℚ) (fetch : String × Nat → Option BVal)
    (infoHash : Bytes) (keyword : String) (response : BVal) (s : Crawl) : Crawl :=
  match response with
  | .dict msg =>
    match (lookup msg (.str "r")).getD (.dict []) with
    | .dict r =>
      if r.isEmpty then s
      else match crawlNodes ((lookup r (.str "nodes")).getD (.bytes [])) with
        | none => s
        | some nodes =>
          let s := { s with routing := addNodes c clock s.routing nodes }
          match (lookup r (.str "values")).getD (.list []) with
          | .list values => considerPeers fetch infoHash keyword values.length (values.take 5) s
          | _ => s
    | _ => s
  | _ => s

/-! ### `get_peers` -/

/-- A key of `r_norm`; a key with no `encode` raises. -/
def normalKey : BKey → Option BKey
  | .bytes b => some (.bytes b)
  | .str s => some (.bytes (encode s))
  | _ => none

/-- The loop that fills `r_norm`. -/
def normalize (r : List (BKey × BVal)) : Option (List (BKey × BVal)) :=
  r.foldlM (fun done e => (normalKey e.1).map fun k => assignEntry done k e.2) []

/-- A key of the protocol. -/
def wireKey (name : String) : BKey := .bytes (name.toList.map ascii)

/-- What `_query_peer` returns for a decoded response; lines 1277-1289. -/
def queryResult : BVal → Option (List (BKey × BVal))
  | .dict msg =>
    match lookup msg (wireKey "r") with
    | some (.dict r) => normalize r
    | _ =>
      match (lookup msg (.str "r")).getD (.dict []) with
      | .dict r => normalize r
      | _ => none
  | _ => none

/-- `r_norm.get(b"…") or r_norm.get("…") or default`. -/
def getEither (r : List (BKey × BVal)) (name : String) (default : BVal) : BVal :=
  let first := (lookup r (wireKey name)).getD .none
  let second := (lookup r (.str name)).getD .none
  if truthy first then first else if truthy second then second else default

/-- `_peers_from_response`; lines 1318-1328. -/
def peersFromResponse (r : List (BKey × BVal)) : List (String × Nat) :=
  match getEither r "values" (.list []) with
  | .list values => values.filterMap parseCompactPeer
  | _ => []

/-- `_nodes_from_response`; lines 1330-1335. -/
def nodesFromResponse (r : List (BKey × BVal)) : List NodeInfo :=
  match getEither r "nodes" (.bytes []) with
  | .bytes compact => parseCompactNodes compact
  | _ => []

/-- The state of `get_peers`. -/
structure PeerSearch where
  routing : RoutingTable String
  seenPeers : List (String × Nat)
  peers : List (String × Nat)
  gotNewPeers : Bool

/-- A peer that is not seen yet is taken. -/
def takePeer (s : PeerSearch) (peer : String × Nat) : PeerSearch :=
  if peer ∈ s.seenPeers then s
  else { s with seenPeers := s.seenPeers ++ [peer], peers := s.peers ++ [peer], gotNewPeers := true }

/-- One pass of the loop of `_update_routing_batch`, lines 1336-1349, for a response. -/
def updateRoutingBatch (c : KademliaNode String) (clock : Nat → ℚ) (s : PeerSearch) :
    Option (List (BKey × BVal)) → PeerSearch
  | none => s
  | some r =>
    let s := (peersFromResponse r).foldl takePeer s
    { s with routing := addNodes c clock s.routing (nodesFromResponse r) }

/-! ### Responses -/

/-- A response of BEP-5 to a query, from a sender, with nodes and peers. -/
def response (tid token : Bytes) (sender : Vector UInt8 20) (nodes : List CompactNode) (peers : List CompactPeer) :
    BVal :=
  .dict [(wireKey "r", .dict [
      (wireKey "id", .bytes sender.toList),
      (wireKey "nodes", .bytes (nodes.flatMap CompactNode.encode)),
      (wireKey "token", .bytes token),
      (wireKey "values", .list (peers.map fun p => .bytes p.encode))]),
    (wireKey "t", .bytes tid),
    (wireKey "y", .bytes [ascii 'r'])]

/-- What the readers are to say of a node. -/
def CompactNode.info (n : CompactNode) : NodeInfo := ⟨n.id.toList, bytesToIpv4 n.ip.toList, n.port.toNat⟩

/-- What the readers are to say of a peer. -/
def CompactPeer.address (p : CompactPeer) : String × Nat := (bytesToIpv4 p.ip.toList, p.port.toNat)

/-- `datagram_received` records the nodes of the response. -/
def Recorded (limit : Nat) (text : Bytes) (nodes : List CompactNode) : Prop :=
  datagramReceived limit Dict.empty text = (nodes.map CompactNode.info).foldl recordNode Dict.empty

/-- `_handle_get_peers_response` adds the nodes of the response and looks at its peers. -/
def Handled (limit : Nat) (text : Bytes) (nodes : List CompactNode) (peers : List CompactPeer) : Prop :=
  ∀ c clock fetch infoHash keyword s,
    let s' := handleGetPeersResponse c clock fetch infoHash keyword (nodeBdecode limit text) s
    s'.routing = addNodes c clock s.routing (nodes.map CompactNode.info) ∧
      s'.considered = s.considered ++ peers.map CompactPeer.address

/-- `get_peers` adds the nodes of the response and takes the peers that are new. -/
def Collected (limit : Nat) (text : Bytes) (nodes : List CompactNode) (peers : List CompactPeer) : Prop :=
  ∀ resp, bdecode limit text = .ok resp ∨ nodeBdecode limit text = resp → ∀ c clock s,
    let s' := updateRoutingBatch c clock s (queryResult resp)
    s'.routing = addNodes c clock s.routing (nodes.map CompactNode.info) ∧
      (∀ p, p ∈ s'.seenPeers ↔ p ∈ s.seenPeers ∨ p ∈ peers.map CompactPeer.address) ∧
      ∀ p, p ∈ s'.peers ↔ p ∈ s.peers ∨ p ∈ peers.map CompactPeer.address ∧ p ∉ s.seenPeers

/-! ### Compact addresses are read back -/

section Addresses

variable (n : CompactNode) (p : CompactPeer)

theorem fromBytes_portBytes (port : UInt16) : fromBytes (portBytes port) = port.toNat := by
  have hlt := port.toNat_lt
  have hhigh : (UInt8.ofNat (port.toNat / 256)).toNat = port.toNat / 256 :=
    UInt8.toNat_ofNat_of_lt' (show port.toNat / 256 < 256 by omega)
  have hlow : (UInt8.ofNat (port.toNat % 256)).toNat = port.toNat % 256 :=
    UInt8.toNat_ofNat_of_lt' (show port.toNat % 256 < 256 by omega)
  rw [fromBytes, portBytes, List.foldl_cons, List.foldl_cons, List.foldl_nil, hhigh, hlow]
  omega

theorem length_encode_node : n.encode.length = 26 := by
  simp [CompactNode.encode, portBytes]

theorem nodeOfChunk_encode : nodeOfChunk n.encode = n.info := by
  have hid : n.id.toList.length = 20 := n.id.length_toList
  have hip : n.ip.toList.length = 4 := n.ip.length_toList
  have hport : (portBytes n.port).length = 2 := rfl
  have htail : n.encode.drop 20 = n.ip.toList ++ portBytes n.port := by
    rw [CompactNode.encode, List.drop_left' hid]
  have hlast : n.encode.drop 24 = portBytes n.port := by
    rw [← List.drop_drop (i := 4) (j := 20), htail, List.drop_left' hip]
  rw [nodeOfChunk, htail, hlast, List.take_left' hip, List.take_of_length_le hport.le, fromBytes_portBytes,
    CompactNode.encode, List.take_left' hid]
  rfl

theorem parseCompactNodes_append {chunk : Bytes} (h : chunk.length = 26) (rest : Bytes) :
    parseCompactNodes (chunk ++ rest) = nodeOfChunk chunk :: parseCompactNodes rest := by
  have hcount : (chunk ++ rest).length / 26 = rest.length / 26 + 1 := by
    rw [List.length_append, h]
    omega
  rw [parseCompactNodes, hcount, List.range_succ_eq_map, List.map_cons, List.map_map]
  congr 1
  · rw [Nat.mul_zero, List.drop_zero, List.take_left' h]
  · apply List.map_congr_left
    intro i _
    have hskip : (chunk ++ rest).drop (26 * (i + 1)) = rest.drop (26 * i) := by
      rw [Nat.mul_succ, Nat.add_comm, ← List.drop_drop, List.drop_left' h]
    exact congrArg (fun data => nodeOfChunk (data.take 26)) hskip

theorem parseCompactNodes_flatMap (nodes : List CompactNode) :
    parseCompactNodes (nodes.flatMap CompactNode.encode) = nodes.map CompactNode.info := by
  induction nodes with
  | nil => rfl
  | cons n nodes ih =>
    rw [List.flatMap_cons, parseCompactNodes_append (length_encode_node n), nodeOfChunk_encode, ih, List.map_cons]

theorem parseCompactPeer_encode : parseCompactPeer (.bytes p.encode) = some p.address := by
  have hip : p.ip.toList.length = 4 := p.ip.length_toList
  have hport : (portBytes p.port).length = 2 := rfl
  have hlength : ¬ (p.ip.toList ++ portBytes p.port).length < 6 := by
    rw [List.length_append, hip, hport]
    omega
  rw [parseCompactPeer, CompactPeer.encode, if_neg hlength, List.take_left' hip, List.drop_left' hip,
    List.take_of_length_le hport.le, fromBytes_portBytes]
  rfl

end Addresses

/-! ### What the readers see -/

section Reading

variable {limit : Nat} {tid token text : Bytes} {sender : Vector UInt8 20} {nodes : List CompactNode}
  {peers : List CompactPeer}

theorem plain_response : Plain (response tid token sender nodes peers) := by
  have hvalues : ∀ ps : List CompactPeer, EverywhereItems PlainNode (ps.map fun p => .bytes p.encode) := by
    intro ps
    induction ps with
    | nil => trivial
    | cons p ps ih => exact ⟨trivial, ih⟩
  simp [Plain, response, Everywhere, EverywhereEntries, PlainNode, wireKey, hvalues, ascii]

theorem depth_response : depth (response tid token sender nodes peers) ≤ 4 := by
  have hvalues : ∀ ps : List CompactPeer, depthItems (ps.map fun p => .bytes p.encode) ≤ 1 := by
    intro ps
    induction ps with
    | nil => exact Nat.zero_le 1
    | cons p ps ih =>
      rw [List.map_cons, depthItems, depth]
      omega
  have := hvalues peers
  simp only [response, depth, depthEntries]
  omega

theorem decoded_response (hlimit : 4 ≤ limit) (h : bencode (response tid token sender nodes peers) = .ok text) :
    bdecode limit text = .ok (response tid token sender nodes peers) ∧
      nodeBdecode limit text = response tid token sender nodes peers := by
  have henc := encodes_of_write _ _ text limit plain_response h (depth_response.trans hlimit)
  rw [ordered_false] at henc
  have hbdecode := henc.bdecode []
  have hnode := henc.nodeBdecode []
  rw [List.append_nil] at hbdecode hnode
  exact ⟨hbdecode, hnode⟩

theorem lookup_str {entries : List (BKey × BVal)} (h : ∀ k ∈ entries.map Prod.fst, ∃ b, k = .bytes b) (name : String) :
    lookup entries (.str name) = none := by
  rw [lookup, Option.map_eq_none_iff, List.find?_eq_none]
  intro e he hkey
  obtain ⟨b, hb⟩ := h e.1 (List.mem_map_of_mem he)
  rw [hb, decide_eq_true_iff] at hkey
  cases hkey

theorem datagramReceived_response (hlimit : 4 ≤ limit)
    (h : bencode (response tid token sender nodes peers) = .ok text) (found : Dict String FoundNode) :
    datagramReceived limit found text = found := by
  rw [datagramReceived, safeBdecode, (decoded_response hlimit h).1]
  dsimp only [response]
  rw [lookup_str (by simp [wireKey])]
  rfl

theorem handleGetPeersResponse_response (c : KademliaNode String) (clock : Nat → ℚ)
    (fetch : String × Nat → Option BVal) (infoHash : Bytes) (keyword : String) (s : Crawl) :
    handleGetPeersResponse c clock fetch infoHash keyword (response tid token sender nodes peers) s = s := by
  dsimp only [handleGetPeersResponse, response]
  rw [lookup_str (by simp [wireKey])]
  rfl

theorem normalize_bytes {r : List (BKey × BVal)} (hbytes : ∀ k ∈ r.map Prod.fst, ∃ b, k = .bytes b)
    (hnodup : (r.map Prod.fst).Nodup) : normalize r = some r := by
  have hloop : ∀ rest done : List (BKey × BVal), (∀ k ∈ rest.map Prod.fst, ∃ b, k = .bytes b) →
      ((done ++ rest).map Prod.fst).Nodup →
      rest.foldlM (fun done e => (normalKey e.1).map fun k => assignEntry done k e.2) done = some (done ++ rest) := by
    intro rest
    induction rest with
    | nil =>
      intro done _ _
      rw [List.append_nil]
      rfl
    | cons e rest ih =>
      intro done hbytes hnodup
      obtain ⟨k, v⟩ := e
      rw [List.map_cons, List.forall_mem_cons] at hbytes
      obtain ⟨⟨b, rfl⟩, hbytes⟩ := hbytes
      have hnew : BKey.bytes b ∉ done.map Prod.fst := by
        intro hmem
        rw [List.map_append, List.nodup_append] at hnodup
        exact hnodup.2.2 _ hmem _ List.mem_cons_self rfl
      rw [List.append_cons] at hnodup ⊢
      rw [List.foldlM_cons, normalKey, Option.map_some, Option.bind_eq_bind, Option.bind_some, assignEntry, if_neg hnew]
      exact ih _ hbytes hnodup
  exact hloop r [] hbytes hnodup

end Reading

/-! ### The peers of `get_peers` -/

section Peers

variable {s : PeerSearch} {q : String × Nat}

theorem mem_seenPeers_takePeer {p : String × Nat} : q ∈ (takePeer s p).seenPeers ↔ q ∈ s.seenPeers ∨ q = p := by
  rw [takePeer]
  split
  · next hseen =>
    constructor
    · exact Or.inl
    · rintro (h | rfl)
      · exact h
      · exact hseen
  · rw [List.mem_append, List.mem_singleton]

theorem mem_peers_takePeer {p : String × Nat} :
    q ∈ (takePeer s p).peers ↔ q ∈ s.peers ∨ q = p ∧ q ∉ s.seenPeers := by
  rw [takePeer]
  split
  · next hseen =>
    constructor
    · exact Or.inl
    · rintro (h | ⟨rfl, h⟩)
      · exact h
      · exact absurd hseen h
  · next hseen =>
    rw [List.mem_append, List.mem_singleton]
    constructor
    · rintro (h | rfl)
      · exact .inl h
      · exact .inr ⟨rfl, hseen⟩
    · exact Or.imp_right And.left

theorem foldl_takePeer (ps : List (String × Nat)) (s : PeerSearch) :
    (ps.foldl takePeer s).routing = s.routing ∧
      (∀ q, q ∈ (ps.foldl takePeer s).seenPeers ↔ q ∈ s.seenPeers ∨ q ∈ ps) ∧
      ∀ q, q ∈ (ps.foldl takePeer s).peers ↔ q ∈ s.peers ∨ q ∈ ps ∧ q ∉ s.seenPeers := by
  induction ps generalizing s with
  | nil => simp
  | cons p ps ih =>
    obtain ⟨hrouting, hseen, hpeers⟩ := ih (takePeer s p)
    refine ⟨?_, ?_, ?_⟩
    · rw [List.foldl_cons, hrouting, takePeer]
      split <;> rfl
    · intro q
      rw [List.foldl_cons, hseen, mem_seenPeers_takePeer, List.mem_cons, or_assoc]
    · intro q
      rw [List.foldl_cons, hpeers, mem_seenPeers_takePeer, mem_peers_takePeer, List.mem_cons]
      by_cases hqp : q = p
      · simp [hqp]
      · simp [hqp]

end Peers

section Understood

variable {limit : Nat} {tid token text : Bytes} {sender : Vector UInt8 20} {nodes : List CompactNode}
  {peers : List CompactPeer}

/-- The dictionary under `r`. -/
private def body (token : Bytes) (sender : Vector UInt8 20) (nodes : List CompactNode) (peers : List CompactPeer) :
    List (BKey × BVal) :=
  [(wireKey "id", .bytes sender.toList), (wireKey "nodes", .bytes (nodes.flatMap CompactNode.encode)),
    (wireKey "token", .bytes token), (wireKey "values", .list (peers.map fun p => .bytes p.encode))]

theorem queryResult_response :
    queryResult (response tid token sender nodes peers) = some (body token sender nodes peers) := by
  have hbody : normalize (body token sender nodes peers) = some (body token sender nodes peers) :=
    normalize_bytes (by simp [body, wireKey]) (by simp [body, wireKey, ascii])
  exact hbody

theorem peersFromResponse_body :
    peersFromResponse (body token sender nodes peers) = peers.map CompactPeer.address := by
  have hfound : lookup (body token sender nodes peers) (wireKey "values") =
      some (.list (peers.map fun p => .bytes p.encode)) := rfl
  have hmap : (peers.map fun p => BVal.bytes p.encode).filterMap parseCompactPeer =
      peers.map CompactPeer.address := by
    rw [List.filterMap_map]
    exact List.filterMap_eq_map_iff_forall_eq_some.2 fun p _ => parseCompactPeer_encode p
  rw [peersFromResponse, getEither, hfound]
  cases peers with
  | nil => rfl
  | cons p ps => exact hmap

theorem nodesFromResponse_body :
    nodesFromResponse (body token sender nodes peers) = nodes.map CompactNode.info := by
  have hfound : lookup (body token sender nodes peers) (wireKey "nodes") =
      some (.bytes (nodes.flatMap CompactNode.encode)) := rfl
  have htext : lookup (body token sender nodes peers) (.str "nodes") = none :=
    lookup_str (by simp [body, wireKey]) _
  rw [nodesFromResponse, getEither, hfound, htext, ← parseCompactNodes_flatMap]
  by_cases hempty : nodes.flatMap CompactNode.encode = []
  · simp [hempty, truthy]
  · simp [hempty, truthy]

theorem collected_response (hlimit : 4 ≤ limit) (h : bencode (response tid token sender nodes peers) = .ok text) :
    Collected limit text nodes peers := by
  obtain ⟨hbdecode, hnode⟩ := decoded_response hlimit h
  intro resp hresp c clock s
  have hvalue : resp = response tid token sender nodes peers := by
    cases hresp with
    | inl hresp => exact Except.ok.inj (hresp.symm.trans hbdecode)
    | inr hresp => exact hresp.symm.trans hnode
  obtain ⟨hrouting, hseen, hpeers⟩ := foldl_takePeer (peers.map CompactPeer.address) s
  rw [hvalue, queryResult_response]
  simp only [updateRoutingBatch, peersFromResponse_body, nodesFromResponse_body]
  rw [hrouting]
  exact ⟨rfl, hseen, hpeers⟩

theorem eq_nil_of_recorded (hlimit : 4 ≤ limit) (h : bencode (response tid token sender nodes peers) = .ok text)
    (hrecorded : Recorded limit text nodes) : nodes = [] := by
  rw [Recorded, datagramReceived_response hlimit h] at hrecorded
  cases hlast : nodes using List.reverseRecOn with
  | nil => rfl
  | append_singleton nodes n =>
    have hkeys := congrArg Dict.keys hrecorded
    rw [hlast, List.map_append, List.foldl_append] at hkeys
    have hmem : hexText n.info.nid ∈ Dict.keys (K := String) (V := FoundNode) Dict.empty := by
      rw [hkeys]
      exact Dict.mem_keys_insert.2 (.inl rfl)
    exact absurd hmem List.not_mem_nil

theorem eq_nil_of_handled (hlimit : 4 ≤ limit) (h : bencode (response tid token sender nodes peers) = .ok text)
    (hhandled : Handled limit text nodes peers) : peers = [] := by
  have hconsidered := (hhandled ⟨fun _ => 0, "", 0⟩ (fun _ => 0) (fun _ => none) [] "" ⟨Dict.empty, [], [], []⟩).2
  rw [(decoded_response hlimit h).2, handleGetPeersResponse_response] at hconsidered
  exact List.map_eq_nil_iff.1 hconsidered.symm

end Understood

/-- All three readers understand a response exactly when it has neither nodes nor peers; `get_peers` always does. -/
theorem response_understood_iff (tid token : Bytes) (sender : Vector UInt8 20) {limit : Nat} (hlimit : 4 ≤ limit)
    {nodes : List CompactNode} {peers : List CompactPeer} {text : Bytes}
    (h : bencode (response tid token sender nodes peers) = .ok text) :
    (Recorded limit text nodes ∧ Handled limit text nodes peers ∧ Collected limit text nodes peers ↔
      nodes = [] ∧ peers = []) ∧ Collected limit text nodes peers := by
  have hcollected := collected_response hlimit h
  refine ⟨⟨?_, ?_⟩, hcollected⟩
  · intro ⟨hrecorded, hhandled, _⟩
    exact ⟨eq_nil_of_recorded hlimit h hrecorded, eq_nil_of_handled hlimit h hhandled⟩
  · rintro ⟨rfl, rfl⟩
    refine ⟨?_, ?_, hcollected⟩
    · exact datagramReceived_response hlimit h _
    · intro c clock fetch infoHash keyword s
      rw [(decoded_response hlimit h).2, handleGetPeersResponse_response]
      exact ⟨rfl, (List.append_nil _).symm⟩

/-! ### A response with one node and one peer -/

/-- A node `bb…b` at `49.49.49.49`, port 12593. -/
def oneNode : CompactNode := ⟨Vector.replicate 20 98, Vector.replicate 4 49, 12593⟩

/-- A peer at `50.50.50.50`, port 12850. -/
def onePeer : CompactPeer := ⟨Vector.replicate 4 50, 12850⟩

/-- The response of a sender `aa…a` with the node and the peer. -/
def oneResponse : Bytes :=
  ("d1:rd2:id20:aaaaaaaaaaaaaaaaaaaa5:nodes26:bbbbbbbbbbbbbbbbbbbb1111115:token1:t6:valuesl6:222222ee1:t2:aa1:y1:re"
    ).toList.map ascii

theorem response_understood_iff_one :
    (Recorded 1000 oneResponse [oneNode] ∧ Handled 1000 oneResponse [oneNode] [onePeer] ∧
        Collected 1000 oneResponse [oneNode] [onePeer] ↔ [oneNode] = [] ∧ [onePeer] = []) ∧
      Collected 1000 oneResponse [oneNode] [onePeer] :=
  response_understood_iff [97, 97] [116] (Vector.replicate 20 97) (by decide) (by decide +kernel)

/-- `get_peers` takes the node and the peer; the other two readers take nothing. -/
theorem not_response_understood :
    bencode (response [97, 97] [116] (Vector.replicate 20 97) [oneNode] [onePeer]) = .ok oneResponse ∧
      datagramReceived 1000 Dict.empty oneResponse = Dict.empty ∧ ¬ Recorded 1000 oneResponse [oneNode] ∧
      ¬ Handled 1000 oneResponse [oneNode] [onePeer] := by
  have h : bencode (response [97, 97] [116] (Vector.replicate 20 97) [oneNode] [onePeer]) = .ok oneResponse := by
    decide +kernel
  have hlimit : 4 ≤ 1000 := by decide
  refine ⟨h, datagramReceived_response hlimit h _, ?_, ?_⟩
  · intro hrecorded
    cases eq_nil_of_recorded hlimit h hrecorded
  · intro hhandled
    cases eq_nil_of_handled hlimit h hhandled

end Hledac.Dht
