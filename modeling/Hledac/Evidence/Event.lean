import Hledac.Evidence.Payload

/-!
# Evidence events

`EvidenceEvent` of `evidence/_log.py`, its content hash and the link it carries to the event
before it.
-/

namespace Hledac.Evidence

open Hledac.Lib Hledac.Py

/-- `EvidenceEvent`; `_log.py:1086-1104`. -/
structure EvidenceEvent where
  eventId : String
  eventType : String
  timestamp : ℚ
  payload : Bytes
  sourceIds : List String
  confidence : ℚ
  contentHash : String
  runId : String
  seqNo : Int := 0
  prevChainHash : Option String := none
  chainHash : Option String := none
  deriving DecidableEq

/-- An optional string as a payload value. -/
def optStr : Option String → PyVal
  | some s => .str s
  | none => .none

/-- The truth value of an optional string: neither missing nor empty. -/
def truthy : Option String → Bool
  | some s => s != ""
  | none => false

/-- `hashlib.sha256(text.encode()).hexdigest()`. -/
def sha256Text (text : String) : String := Digest.sha256 (encode text)

/-- The text a chain hash is taken of; `_log.py:2995`. -/
def chainInput (prevHash contentHash eventId : String) : String :=
  prevHash ++ ":" ++ contentHash ++ ":" ++ eventId

/-- `_compute_chain_hash`; `_log.py:2993-2996`. -/
def computeChainHash (prevHash contentHash eventId : String) : String :=
  sha256Text (chainInput prevHash contentHash eventId)

namespace EvidenceEvent

/-- `_calculate_hash`; `_log.py:1164-1190`. -/
def calculateHashOf (c : Codecs) (e : EvidenceEvent) (payload : PyVal) :
    Except PyError String := do
  let json ← c.dumpsSorted (.dict
    [("event_id", .str e.eventId), ("event_type", .str e.eventType),
      ("timestamp", .float e.timestamp), ("payload", payload),
      ("source_ids", .list ((sortStrings e.sourceIds).map .str)),
      ("confidence", .float (roundTo 6 e.confidence)), ("run_id", .str e.runId)])
  return Digest.sha256 json

/-- `calculate_hash`; `_log.py:1192-1202`. -/
def calculateHash (c : Codecs) (e : EvidenceEvent) : Except PyError String := do
  calculateHashOf c e (← c.loads e.payload)

/-- `verify_integrity`; `_log.py:1209-1211`. -/
def verifyIntegrity (c : Codecs) (e : EvidenceEvent) : Except PyError Bool := do
  return (← e.calculateHash c) == e.contentHash

/-- `to_dict`; `_log.py:1213-1232`. Chain fields that are not set are left out. -/
def toDict (c : Codecs) (e : EvidenceEvent) : Except PyError (List (String × PyVal)) := do
  let timestamp ← utcIsoformat e.timestamp
  let payload ← c.loads e.payload
  return [("event_id", .str e.eventId), ("event_type", .str e.eventType),
      ("timestamp", .str timestamp), ("payload", payload),
      ("source_ids", .list (e.sourceIds.map .str)), ("confidence", .float e.confidence),
      ("content_hash", .str e.contentHash), ("run_id", .str e.runId)] ++
    (if e.seqNo > 0 then [("seq_no", .int e.seqNo)] else []) ++
    (if truthy e.prevChainHash then [("prev_chain_hash", optStr e.prevChainHash)] else []) ++
    (if truthy e.chainHash then [("chain_hash", optStr e.chainHash)] else [])

/-- `to_jsonl_line`, encoded; `_log.py:1257-1259`. -/
def toJsonlLine (c : Codecs) (e : EvidenceEvent) : Except PyError Bytes := do
  return (← c.dumps (.dict (← e.toDict c))) ++ encode "\n"

/-- `to_bytes`; `_log.py:1261-1285`. -/
def toBytes (c : Codecs) (e : EvidenceEvent) : Except PyError Bytes :=
  c.packb (.tuple
    [.str e.eventId, .str e.eventType, .float e.timestamp, .bytes e.payload,
      .list (e.sourceIds.map .str), .float e.confidence, .str e.contentHash, .str e.runId,
      .int e.seqNo, optStr e.prevChainHash, optStr e.chainHash])

/-- The event linked to a chain head: the event half of `_update_chain_state`. -/
def link (head : String) (e : EvidenceEvent) : EvidenceEvent :=
  { e with
    prevChainHash := some head
    chainHash := some (computeChainHash head e.contentHash e.eventId) }

/-! ### What the content hash depends on -/

end EvidenceEvent

end Hledac.Evidence
