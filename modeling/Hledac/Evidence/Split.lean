import Hledac.Lib.Deque
import Hledac.Lib.Raising
import Hledac.Evidence.Event

/-!
# The split writer and query

`EvidenceWriter` of `evidence/_writer.py`, which creates events and links them to its chain head,
and `EvidenceQuery` of `evidence/_query.py`, which keeps the newest of the events it is given and
verifies them. Both hash with 32 hex digits of SHA-256.
-/

namespace Hledac.Evidence.Split

open Hledac.Lib Hledac.Py

/-! ### Events -/

/-- `EvidenceEvent` of the writer; `_writer.py:30-48`. -/
structure EvidenceEvent where
  eventId : String
  eventType : String
  timestamp : ℚ
  payload : PyVal
  runId : String
  sourceIds : List String
  confidence : ℚ
  contentHash : String
  seqNo : Nat
  prevChainHash : String
  chainHash : String

/-- `hashlib.sha256(text.encode()).hexdigest()[:32]`. -/
def shortHash (text : String) : String := takeStr 32 (sha256Text text)

/-- `prev_hash or ''`. -/
def orEmpty : Option String → String
  | some s => s
  | none => ""

/-- The text a chain hash is taken of; `_writer.py:98`. -/
def chainInput (prevHash contentHash eventId : String) : String :=
  prevHash ++ "|" ++ contentHash ++ "|" ++ eventId

/-- `_compute_chain_hash`; `_writer.py:96-99, 348-351`. -/
def computeChainHash (prevHash : Option String) (contentHash eventId : String) : String :=
  shortHash (chainInput (orEmpty prevHash) contentHash eventId)

namespace EvidenceEvent

/-- `_calculate_hash`; `_writer.py:82-93`. The serialised payload enters as the text of a bytes
literal. -/
def calculateHashOf (c : Codecs) (eventId eventType : String) (timestamp : ℚ) (payload : PyVal)
    (sourceIds : List String) (confidence : ℚ) (runId : String) : Except PyError String := do
  let dumped ← c.dumps payload
  return shortHash (eventId ++ "|" ++ eventType ++ "|" ++ c.str (.float timestamp) ++ "|" ++
    c.str (.bytes dumped) ++ "|" ++ c.str (.list (sourceIds.map .str)) ++ "|" ++
    c.str (.float confidence) ++ "|" ++ runId)

/-- `create`; `_writer.py:51-79`. -/
def create (c : Codecs) (eventId eventType : String) (payload : PyVal) (runId : String)
    (sourceIds : Option (List String)) (confidence : ℚ) (seqNo : Nat)
    (prevChainHash : Option String) (now : ℚ) : Except PyError EvidenceEvent := do
  let sourceIds := sourceIds.getD []
  let contentHash ← calculateHashOf c eventId eventType now payload sourceIds confidence runId
  return {
    eventId := eventId
    eventType := eventType
    timestamp := now
    payload := payload
    runId := runId
    sourceIds := sourceIds
    confidence := confidence
    contentHash := contentHash
    seqNo := seqNo
    prevChainHash := orEmpty prevChainHash
    chainHash := computeChainHash prevChainHash contentHash eventId }

/-- `calculate_hash`; `_writer.py:101-111`. -/
def calculateHash (c : Codecs) (e : EvidenceEvent) : Except PyError String :=
  calculateHashOf c e.eventId e.eventType e.timestamp e.payload e.sourceIds e.confidence e.runId

/-- `verify_integrity`; `_writer.py:117-119`. -/
def verifyIntegrity (c : Codecs) (e : EvidenceEvent) : Except PyError Bool := do
  return (← e.calculateHash c) == e.contentHash

/-- The fields in the order of the declaration, as `msgspec` encodes a struct. -/
def fields (e : EvidenceEvent) : List (String × PyVal) :=
  [("event_id", .str e.eventId), ("event_type", .str e.eventType),
    ("timestamp", .float e.timestamp), ("payload", e.payload), ("run_id", .str e.runId),
    ("source_ids", .list (e.sourceIds.map .str)), ("confidence", .float e.confidence),
    ("content_hash", .str e.contentHash), ("seq_no", .int e.seqNo),
    ("prev_chain_hash", .str e.prevChainHash), ("chain_hash", .str e.chainHash)]

/-- `to_bytes`; `_writer.py:134-136`. -/
def toBytes (c : Codecs) (e : EvidenceEvent) : Except PyError Bytes := c.packb (.dict e.fields)

end EvidenceEvent

/-! ### The writer -/

/-- What the constructor fixes, and `msgspec.convert(event, dict)`. -/
structure WriterConfig where
  runId : String
  /-- A persist path is given, so that a file is open. -/
  persists : Bool := false
  convert : EvidenceEvent → Except PyError PyVal

/-- The mutable state of an `EvidenceWriter` that has not been closed; `_writer.py:306-324`. -/
structure EvidenceWriter where
  seq : Nat := 0
  chainHead : Option String := none
  totalCount : Nat := 0
  deriving DecidableEq

/-- Methods of the writer. -/
abbrev WriterM := Raising PyError EvidenceWriter

/-- One `create_event` call: its arguments, the clock, and what writing to the file does. -/
structure Call where
  eventType : String
  payload : PyVal
  sourceIds : Option (List String) := none
  confidence : ℚ := 1
  now : ℚ
  written : Except PyError PUnit := .ok ⟨⟩

/-- `to_jsonl_line`; `_writer.py:130-132`. -/
def toJsonlLine (c : Codecs) (cfg : WriterConfig) (e : EvidenceEvent) :
    Except PyError String := do
  return decodeReplace (← c.dumps (← cfg.convert e))

/-- `_send_to_mpsc` and `_persist_event`; `_writer.py:338-346`. The pool takes the bytes or drops
them. -/
def handOver (c : Codecs) (cfg : WriterConfig) (call : Call) (event : EvidenceEvent) :
    Except PyError PUnit := do
  let _ ← event.toBytes c
  if cfg.persists then
    let _ ← toJsonlLine c cfg event
    call.written

/-- `write_event`; `_writer.py:353-359`. -/
def writeEvent (c : Codecs) (cfg : WriterConfig) (call : Call) (event : EvidenceEvent) :
    WriterM PUnit := do
  modify fun w =>
    { w with seq := w.seq + 1, totalCount := w.totalCount + 1, chainHead := some event.chainHash }
  Raising.ofExcept (handOver c cfg call event)

/-- The event that a call builds; `_writer.py:369-379`. -/
def buildEvent (c : Codecs) (cfg : WriterConfig) (w : EvidenceWriter) (call : Call) :
    Except PyError EvidenceEvent :=
  EvidenceEvent.create c ("ev_" ++ takeStr 8 cfg.runId ++ "_" ++ padded 6 (w.seq + 1))
    call.eventType call.payload cfg.runId (some (call.sourceIds.getD [])) call.confidence
    (w.seq + 1) w.chainHead call.now

/-- `create_event`; `_writer.py:361-381`. -/
def createEvent (c : Codecs) (cfg : WriterConfig) (call : Call) : WriterM EvidenceEvent := do
  let w ← get
  let event ← Raising.ofExcept (buildEvent c cfg w call)
  writeEvent c cfg call event
  return event

/-- The writer after one call, whether it returned or raised. -/
def step (c : Codecs) (cfg : WriterConfig) (w : EvidenceWriter) (call : Call) : EvidenceWriter :=
  (Raising.exec (createEvent c cfg call) w).2

/-- The event that a call returns, if it returns. -/
def returned (c : Codecs) (cfg : WriterConfig) (w : EvidenceWriter) (call : Call) :
    Option EvidenceEvent :=
  (Raising.exec (createEvent c cfg call) w).1.toOption

/-- The events that a sequence of calls returns, from a state on. -/
def created (c : Codecs) (cfg : WriterConfig) : EvidenceWriter → List Call → List EvidenceEvent
  | _, [] => []
  | w, call :: rest => (returned c cfg w call).toList ++ created c cfg (step c cfg w call) rest

/-! ### The query -/

/-- The bound of the query's deque; `_query.py:51`. -/
def maxEvents : Nat := 10000

/-- The events an `EvidenceQuery` keeps. -/
structure EvidenceQuery where
  events : Deque EvidenceEvent maxEvents

/-- `EvidenceQuery(run_id, events)`; `_query.py:44-58`. -/
def EvidenceQuery.ofEvents (events : List EvidenceEvent) : EvidenceQuery := ⟨Deque.ofList events⟩

/-- What `verify_all` reports. -/
structure VerifyReport where
  total : Nat
  valid : Nat
  invalid : Nat
  brokenChains : List String
  verified : Bool
  deriving DecidableEq

/-- The loop of `verify_all`: the counts and the broken events, from a previous hash on. -/
def verifyLoop (c : Codecs) :
    Option String → List EvidenceEvent → Except PyError (Nat × Nat × List String)
  | _, [] => .ok (0, 0, [])
  | prevHash, event :: rest => do
    let ok ← event.verifyIntegrity c
    let expected := computeChainHash prevHash event.contentHash event.eventId
    let (valid, invalid, broken) ← verifyLoop c (some event.chainHash) rest
    return (valid + (if ok then 1 else 0), invalid + (if ok then 0 else 1),
      (if expected = event.chainHash then [] else [event.eventId]) ++ broken)

/-- `verify_all`; `_query.py:186-211`. -/
def verifyAll (c : Codecs) (q : EvidenceQuery) : Except PyError VerifyReport := do
  let (valid, invalid, broken) ← verifyLoop c none q.events.toList
  return {
    total := q.events.length
    valid := valid
    invalid := invalid
    brokenChains := broken
    verified := invalid == 0 && broken.length == 0 }

/-! ### Sample codecs -/

/-- The low bytes of a number, most significant first. -/
def bigEndian (count n : Nat) : Bytes :=
  (List.range count).map fun i => UInt8.ofNat (n / 256 ^ (count - 1 - i) % 256)

/-- The bits of a float that is a positive integer below `2 ^ 53`. -/
def float64Bits (q : ℚ) : Option Nat :=
  if q.den = 1 ∧ 0 < q.num ∧ q.num < 2 ^ 53 then
    let n := q.num.toNat
    let e := n.log2
    some ((1023 + e) * 2 ^ 52 + (n * 2 ^ (52 - e) - 2 ^ 52))
  else none

/-- A length with its MessagePack tag: in the tag, in one byte, in two, or in four. -/
def packLength (fix limit tag8 tag16 tag32 n : Nat) : Bytes :=
  if n < limit then [UInt8.ofNat (fix + n)]
  else if n < 2 ^ 8 then UInt8.ofNat tag8 :: bigEndian 1 n
  else if n < 2 ^ 16 then UInt8.ofNat tag16 :: bigEndian 2 n
  else UInt8.ofNat tag32 :: bigEndian 4 n

/-- A string in MessagePack. -/
def packStr (s : String) : Bytes :=
  packLength 0xA0 32 0xD9 0xDA 0xDB (encode s).length ++ encode s

mutual

/-- MessagePack of the values that the sample events hold. -/
def pack : PyVal → Except PyError Bytes
  | .str s => .ok (packStr s)
  | .int (.ofNat n) => .ok (packLength 0 128 0xCC 0xCD 0xCE n)
  | .float q =>
    match float64Bits q with
    | some bits => .ok (0xCB :: bigEndian 8 bits)
    | none => .error ⟨.typeError, "Encoding this float is not sampled"⟩
  | .list xs => return packLength 0x90 16 0xDC 0xDC 0xDD xs.length ++ (← packValues xs)
  | .dict d => return packLength 0x80 16 0xDE 0xDE 0xDF d.length ++ (← packItems d)
  | _ => .error ⟨.typeError, "Encoding this value is not sampled"⟩

/-- The elements of an array. -/
def packValues : List PyVal → Except PyError Bytes
  | [] => .ok []
  | x :: xs => return (← pack x) ++ (← packValues xs)

/-- The entries of a map. -/
def packItems : List (String × PyVal) → Except PyError Bytes
  | [] => .ok []
  | (k, v) :: rest => return packStr k ++ (← pack v) ++ (← packItems rest)

end

/-- Codecs that agree with the real ones on events with the empty payload and no sources. -/
def splitCodecs : Codecs :=
  { plainCodecs with
    packb := pack
    str := fun
      | .list [] => "[]"
      | .bytes b => "b'" ++ decodeReplace b ++ "'"
      | value => plainCodecs.str value }

end Hledac.Evidence.Split
