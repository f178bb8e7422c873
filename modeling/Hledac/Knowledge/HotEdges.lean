import Hledac.Lib.Chunks
import Hledac.Lib.Dict
import Hledac.Lib.Wire
import Hledac.Py.Text

/-!
# The hot edges cache

`src/knowledge/hot_edges_cache.py` without the Rust extension: there is no counter in memory then, and nothing is
compressed. A node has one blob under its id, in either of two formats. An LMDB transaction commits as a whole or not at
all; which write chunks of a flush commit is an input of the step.
-/

namespace Hledac.Knowledge

open Hledac.Lib Hledac.Py

/-! ### Neighbours -/

/-- A neighbour with the data that saves a look-up. -/
structure HotNeighbor where
  dstId : Nat
  count : Nat
  value : String
  iocType : String
  deriving DecidableEq

namespace HotNeighbor

/-- The id and the count, as the first format has them. -/
def counted (n : HotNeighbor) : Nat × Nat := (n.dstId, n.count)

/-- A neighbour of the first format, which has no data. -/
def bare (p : Nat × Nat) : HotNeighbor := ⟨p.1, p.2, "", ""⟩

end HotNeighbor

/-- `MAX_HOT_NEIGHBORS_PER_NODE`. -/
def maxHotNeighbors : Nat := 50

/-- `_UINT64_MAX`. -/
def uint64Max : Nat := 2 ^ 64 - 1

/-- The order of the sort key `(-count, id)`. -/
def RanksBefore (p q : Nat × Nat) : Prop := q.2 < p.2 ∨ p.2 = q.2 ∧ p.1 ≤ q.1

instance : DecidableRel RanksBefore := fun _ _ => inferInstanceAs (Decidable (_ ∨ _))

/-- `sort(key=lambda p: (-p[1], p[0]))`. -/
def rankBy {α : Type} (key : α → Nat × Nat) (l : List α) : List α :=
  l.insertionSort fun p q => RanksBefore (key p) (key q)

/-- The neighbours that a node keeps, the highest counts first. -/
def hottest {α : Type} (key : α → Nat × Nat) (l : List α) : List α := (rankBy key l).take maxHotNeighbors

/-! ### The two formats -/

/-- `encode` and `decode` of `utils/codec.py` on lists of pairs of numbers; `none` where they raise, and where a text is
no such list. -/
structure PairCodec where
  encode : List (Nat × Nat) → Option Bytes
  decode : Bytes → Option (List (Nat × Nat))

/-- `_WIRE_MARKER_DENORM`. -/
def wireMarkerDenorm : UInt8 := 3

/-- `_encode_neighbors`; `hot_edges_cache.py:579`. -/
def encodeNeighbors (json : PairCodec) (neighbors : List (Nat × Nat)) : Option Bytes := json.encode neighbors

/-- `_decode_neighbors`; `hot_edges_cache.py:560`. -/
def decodeNeighbors (json : PairCodec) (blob : Bytes) : List (Nat × Nat) := (json.decode blob).getD []

/-- One entry of the second format. -/
def packedNeighbor (n : HotNeighbor) : Bytes :=
  Wire.putLe 8 n.dstId ++ (Wire.putLe 8 n.count ++ (Wire.putLe 2 (encode n.value).length ++ (encode n.value ++
    (Wire.putLe 1 (encode n.iocType).length ++ encode n.iocType))))

/-- `struct.pack` and `bytearray.append` raise where a number is too large for its field. -/
def packNeighbor (n : HotNeighbor) : Option Bytes :=
  if n.dstId < 256 ^ 8 ∧ n.count < 256 ^ 8 ∧ (encode n.value).length < 256 ^ 2 ∧
      (encode n.iocType).length < 256 ^ 1 then
    some (packedNeighbor n)
  else none

/-- The second format, where all entries fit. -/
def packNeighbors (neighbors : List HotNeighbor) : Option Bytes :=
  if neighbors.length < 256 ^ 2 then
    (neighbors.mapM packNeighbor).map fun packed =>
      wireMarkerDenorm :: (Wire.putLe 2 neighbors.length ++ packed.flatten)
  else none

/-- `_encode_neighbors_denorm`; `hot_edges_cache.py:1020`. -/
def encodeNeighborsDenorm (json : PairCodec) (neighbors : List HotNeighbor) : Option Bytes :=
  if neighbors = [] then encodeNeighbors json []
  else
    match packNeighbors neighbors with
    | some blob => some blob
    | none => encodeNeighbors json (neighbors.map HotNeighbor.counted)

/-- One round of the loop of `_decode_neighbors_denorm`. -/
def readNeighbor : Wire.Reader HotNeighbor := do
  let dstId ← Wire.uint 8
  let count ← Wire.uint 8
  let valueLength ← Wire.uint 2
  let value ← Wire.slice valueLength
  let typeLength ← Wire.uint 1
  let iocType ← Wire.slice typeLength
  pure ⟨dstId, count, decodeReplace value, decodeReplace iocType⟩

/-- The second format behind its marker. -/
def readNeighbors : Wire.Reader (List HotNeighbor) := do
  let count ← Wire.uint 2
  Wire.many readNeighbor count

/-- `_decode_neighbors_denorm`; `hot_edges_cache.py:980`. -/
def decodeNeighborsDenorm (json : PairCodec) (blob : Bytes) : List HotNeighbor :=
  match blob with
  | marker :: x :: rest =>
    if marker = 0 ∨ marker = 1 ∨ marker = 2 then (decodeNeighbors json blob).map HotNeighbor.bare
    else if marker = wireMarkerDenorm then ((readNeighbors (x :: rest)).map Prod.fst).getD []
    else []
  | _ => []

/-- `existing_denorm`: the blob is of the second format. -/
def isDenorm (blob : Bytes) : Bool := blob.head? = some wireMarkerDenorm

/-- What is documented of the codec: it writes every list of 64-bit numbers, as a JSON array, and reads back what it
writes, and no JSON text begins with a control character. -/
structure PairCodec.Lawful (json : PairCodec) : Prop where
  total : ∀ l, (∀ p ∈ l, p.1 < 2 ^ 64 ∧ p.2 < 2 ^ 64) → (json.encode l).isSome = true
  decode_encode : ∀ l blob, json.encode l = some blob → json.decode blob = some l
  bracket : ∀ l blob, json.encode l = some blob → blob.head? = some 0x5B
  control : ∀ blob, isDenorm blob = true → json.decode blob = none

/-! ### Merging a change into the blob of a node -/

/-- The first entry that meets the test is changed, where there is one. -/
def updateFirst {α : Type} (p : α → Bool) (f : α → α) : List α → Option (List α)
  | [] => none
  | a :: rest => if p a then some (f a :: rest) else (updateFirst p f rest).map (a :: ·)

/-- What a transaction leaves of a blob, and whether it succeeded: an exception aborts it. -/
def putEncoded (existing encoded : Option Bytes) : Bool × Option Bytes :=
  match encoded with
  | some blob => (true, some blob)
  | none => (false, existing)

/-- `_record_edge_lmdb`; `hot_edges_cache.py:648`. -/
def recordEdgeLmdb (json : PairCodec) (existing : Option Bytes) (dstId : Nat) (dstValue dstIocType : String) :
    Bool × Option Bytes :=
  let useDenorm : Bool := dstValue ≠ "" ∧ dstIocType ≠ ""
  match existing with
  | none =>
    if useDenorm then putEncoded existing (encodeNeighborsDenorm json [⟨dstId, 1, dstValue, dstIocType⟩])
    else putEncoded existing (encodeNeighbors json [(dstId, 1)])
  | some blob =>
    if isDenorm blob then
      let neighbors := decodeNeighborsDenorm json blob
      let raised (n : HotNeighbor) : HotNeighbor := ⟨n.dstId, min (n.count + 1) uint64Max, dstValue, dstIocType⟩
      match updateFirst (fun n => n.dstId = dstId) raised neighbors with
      | some neighbors => putEncoded existing (encodeNeighborsDenorm json (hottest HotNeighbor.counted neighbors))
      | none =>
        if neighbors.length < maxHotNeighbors then
          let neighbors := neighbors ++ [⟨dstId, 1, dstValue, dstIocType⟩]
          putEncoded existing (encodeNeighborsDenorm json (hottest HotNeighbor.counted neighbors))
        else (true, existing)
    else
      let neighbors := decodeNeighbors json blob
      let put (neighbors : List (Nat × Nat)) :=
        let neighbors := hottest id neighbors
        if useDenorm then
          putEncoded existing (encodeNeighborsDenorm json (neighbors.map fun p =>
            ⟨p.1, p.2, if p.1 = dstId then dstValue else "", if p.1 = dstId then dstIocType else ""⟩))
        else putEncoded existing (encodeNeighbors json neighbors)
      if neighbors = [] then put [(dstId, 1)]
      else
        match updateFirst (fun p => p.1 = dstId) (fun p => (p.1, min (p.2 + 1) uint64Max)) neighbors with
        | some neighbors => put neighbors
        | none => if neighbors.length < maxHotNeighbors then put (neighbors ++ [(dstId, 1)]) else (true, existing)

/-- One change of the map that `_flush_denorm_buffer_internal` builds. -/
def addDelta (nmap : Dict Nat (Nat × String × String)) (n : HotNeighbor) : Dict Nat (Nat × String × String) :=
  match nmap.get? n.dstId with
  | some (count, _, _) => nmap.insert n.dstId (min (count + n.count) uint64Max, n.value, n.iocType)
  | none => nmap.insert n.dstId (n.count, n.value, n.iocType)

/-- The map of a list of neighbours; of two with one id the later stays. -/
def neighborMap (neighbors : List HotNeighbor) : Dict Nat (Nat × String × String) :=
  Dict.empty.insertAll (neighbors.map fun n => (n.dstId, (n.count, n.value, n.iocType)))

/-- `final`, before it is sorted. -/
def neighborsOfMap (nmap : Dict Nat (Nat × String × String)) : List HotNeighbor :=
  nmap.entries.map fun e => ⟨e.1, e.2.1, e.2.2.1, e.2.2.2⟩

/-- The blob of one node after a flush; phase 2 of `_flush_denorm_buffer_internal`, `hot_edges_cache.py:339`. -/
def mergeDenorm (json : PairCodec) (existing : Option Bytes) (deltas : List HotNeighbor) : Option Bytes :=
  match existing with
  | none => encodeNeighborsDenorm json (hottest HotNeighbor.counted deltas)
  | some blob =>
    let neighbors :=
      if isDenorm blob then decodeNeighborsDenorm json blob else (decodeNeighbors json blob).map HotNeighbor.bare
    encodeNeighborsDenorm json
      (hottest HotNeighbor.counted (neighborsOfMap (deltas.foldl addDelta (neighborMap neighbors))))

/-- One change of the map that the flush of the counter in memory builds. -/
def addCount (nmap : Dict Nat Nat) (p : Nat × Nat) : Dict Nat Nat :=
  nmap.insert p.1 (min ((nmap.get? p.1).getD 0 + p.2) uint64Max)

/-- The blob of one node after a flush of the counter in memory; phase 2 of `_flush_l1_to_lmdb_from_drain`,
`hot_edges_cache.py:841`. -/
def mergeL1 (json : PairCodec) (existing : Option Bytes) (deltas : List (Nat × Nat)) : Option Bytes :=
  let neighbors := (existing.map (decodeNeighbors json)).getD []
  encodeNeighbors json (hottest id (deltas.foldl addCount (Dict.empty.insertAll neighbors)).entries)

/-- `delete_hot_edge`; `hot_edges_cache.py:1424`. -/
def deleteHotEdge (json : PairCodec) (existing : Option Bytes) (dstId : Nat) : Bool × Option Bytes :=
  match existing with
  | none => (false, existing)
  | some [] => (false, existing)
  | some blob =>
    if isDenorm blob then
      let neighbors := decodeNeighborsDenorm json blob
      let others := neighbors.filter fun n => n.dstId ≠ dstId
      if others.length = neighbors.length then (false, existing)
      else if others = [] then (true, none)
      else putEncoded existing (encodeNeighborsDenorm json (hottest HotNeighbor.counted others))
    else
      let neighbors := decodeNeighbors json blob
      let others := neighbors.filter fun p => p.1 ≠ dstId
      if others.length = neighbors.length then (false, existing)
      else if others = [] then (true, none)
      else putEncoded existing (encodeNeighbors json (hottest id others))

/-! ### The cache -/

/-- An edge that waits in the buffer. -/
structure HotEdge where
  srcId : Nat
  dstId : Nat
  dstValue : String
  dstIocType : String

/-- The blobs in LMDB by node, and the edges of `SprintDenormBuffer`. -/
structure HotEdges where
  disk : Dict Nat Bytes := .empty
  buffer : List HotEdge := []

/-- What LMDB does in a flush: the environment does not open, or so many write chunks commit. -/
inductive FlushOutcome where
  | closed
  | commits (chunks : Nat)

/-- `max_batch`. -/
def maxBatch : Nat := 2500

/-- `by_src`: the edges of the buffer by node, in the order in which the nodes come. -/
def bySrc (buffer : List HotEdge) : Dict Nat (List HotNeighbor) :=
  buffer.foldl (fun d e =>
    d.insert e.srcId ((d.get? e.srcId).getD [] ++ [⟨e.dstId, 1, e.dstValue, e.dstIocType⟩])) .empty

/-- `putmulti_bounded`: the pairs that are written before a chunk fails; `utils/lmdb_bulk.py:104`. -/
def putmultiBounded (pairs : List (Nat × Bytes)) (committed : Nat) : List (Nat × Bytes) :=
  ((chunks maxBatch pairs).take committed).flatten

/-- `_flush_denorm_buffer_internal`; `hot_edges_cache.py:303`. -/
def flushDenormBufferInternal (json : PairCodec) (disk : Dict Nat Bytes) (buffer : List HotEdge)
    (outcome : FlushOutcome) : Bool × Dict Nat Bytes :=
  if buffer = [] then (true, disk)
  else
    match outcome with
    | .closed => (false, disk)
    | .commits committed =>
      match (bySrc buffer).entries.mapM fun e => (mergeDenorm json (disk.get? e.1) e.2).map (e.1, ·) with
      | none => (false, disk)
      | some pairs =>
        let written := putmultiBounded pairs committed
        (decide (written.length = pairs.length), disk.insertAll written)

namespace HotEdges

/-- `SprintDenormBuffer.flush`; `hot_edges_cache.py:212`. The whole buffer is kept where a part failed. -/
def flush (json : PairCodec) (s : HotEdges) (outcome : FlushOutcome) : Bool × HotEdges :=
  match flushDenormBufferInternal json s.disk s.buffer outcome with
  | (true, disk) => (true, ⟨disk, []⟩)
  | (false, disk) => (false, ⟨disk, s.buffer⟩)

/-- `record_edge`; `hot_edges_cache.py:875`. Without the counter in memory an edge without data comes to the end of the
function, which returns `None`. -/
def recordEdge (json : PairCodec) (bufferSize : Int) (s : HotEdges) (srcId dstId : Int) (dstValue dstIocType : String)
    (outcome : FlushOutcome) : Option Bool × HotEdges :=
  if srcId = dstId then (some false, s)
  else if srcId < 0 ∨ dstId < 0 then (some false, s)
  else if dstValue ≠ "" ∧ dstIocType ≠ "" then
    let s := { s with buffer := s.buffer ++ [⟨srcId.toNat, dstId.toNat, dstValue, dstIocType⟩] }
    if bufferSize ≤ s.buffer.length then (some true, (s.flush json outcome).2) else (some true, s)
  else (none, s)

/-- `top_n`, kept within its bounds. -/
def clampTop (topN : Int) : Nat := if topN ≤ 0 ∨ maxHotNeighbors < topN then maxHotNeighbors else topN.toNat

/-- `get_hot_neighbors`; `hot_edges_cache.py:937`. -/
def getHotNeighbors (json : PairCodec) (s : HotEdges) (srcId : Int) (topN : Int) : List (Nat × Nat) :=
  if srcId < 0 then []
  else
    match s.disk.get? srcId.toNat with
    | none => []
    | some blob => if blob = [] then [] else (rankBy id (decodeNeighbors json blob)).take (clampTop topN)

/-- `get_hot_neighbors_denorm`; `hot_edges_cache.py:1049`. -/
def getHotNeighborsDenorm (json : PairCodec) (s : HotEdges) (srcId : Int) (topN : Int) : List HotNeighbor :=
  if srcId < 0 then []
  else
    match s.disk.get? srcId.toNat with
    | none => []
    | some blob =>
      if blob = [] then []
      else (rankBy HotNeighbor.counted (decodeNeighborsDenorm json blob)).take (clampTop topN)

end HotEdges

/-- A call of `record_edge`, or of `flush_denorm_buffer`. -/
inductive HotEdgeCall where
  | record (srcId dstId : Int) (dstValue dstIocType : String) (outcome : FlushOutcome)
  | flush (outcome : FlushOutcome)

/-- One call. -/
def hotEdgeStep (json : PairCodec) (bufferSize : Int) (s : HotEdges) : HotEdgeCall → HotEdges
  | .record srcId dstId dstValue dstIocType outcome =>
    (s.recordEdge json bufferSize srcId dstId dstValue dstIocType outcome).2
  | .flush outcome => (s.flush json outcome).2

/-- The calls one after the other, on a new cache. -/
def hotEdgeRun (json : PairCodec) (bufferSize : Int) (calls : List HotEdgeCall) : HotEdges :=
  calls.foldl (hotEdgeStep json bufferSize) {}

end Hledac.Knowledge
