import Hledac.Lib.Deque
import Hledac.Lib.Raising
import Hledac.Evidence.Event

/-!
# The evidence log

`EvidenceLog` of `evidence/_log.py`: the ring buffer with its two indexes, the counters and the
chain head, and the operations that add events. Appended events are values: an object is
appended once and not written to by others. What a call reads from outside the log (clock,
random numbers, lifecycle flags, the channels' answers) is an argument of the call.
-/

namespace Hledac.Evidence

open Hledac.Lib Hledac.Py

/-- What the constructor fixes; `_log.py:1941-2040`. -/
structure LogConfig where
  runId : String
  silentFailure : Bool := false
  sampleRate : ℚ := 1
  enablePersist : Bool := true
  persistPath : Option String := none
  createdAt : String := ""
  deriving DecidableEq

/-- `EvidenceLog.MAX_RAM_EVENTS`. -/
def maxRamEvents : Nat := 50

/-- The event types that have an index; `_log.py:1981-1988`. -/
def indexedTypes : List String :=
  ["tool_call", "observation", "synthesis", "error", "decision", "evidence_packet"]

/-- Positions in the ring buffer, oldest first. -/
abbrev Positions := Deque Nat maxRamEvents

/-- What has happened to the log since it was built, for the statements only: no operation reads
it. -/
structure History where
  /-- Events that the persist channel or its fallback took, oldest first. -/
  persisted : List EvidenceEvent := []
  /-- Events that entered the ring buffer, oldest first. -/
  stored : List EvidenceEvent := []
  /-- Texts hashed for the chain, oldest first. -/
  digested : List String := []
  deriving DecidableEq

/-- The mutable state of an `EvidenceLog`. -/
structure EvidenceLog where
  log : Deque EvidenceEvent maxRamEvents
  indexByType : List (String × Positions)
  indexBySource : List (String × Positions)
  totalCount : Nat
  droppedCount : Nat
  seq : Nat
  chainHead : String
  history : History
  deriving DecidableEq

/-- The text the genesis hash is taken of; `_log.py:1996`. -/
def genesisInput (runId : String) : String := "GENESIS:" ++ runId

/-- `_genesis_hash`; `_log.py:1996`. -/
def genesisHash (runId : String) : String := sha256Text (genesisInput runId)

/-- The empty index by type, one queue for each type; `_log.py:1981-1988, 3034-3041`. -/
def emptyIndex : List (String × Positions) := indexedTypes.map fun t => (t, Deque.empty)

/-- A log as the constructor leaves it. -/
def EvidenceLog.fresh (cfg : LogConfig) : EvidenceLog where
  log := Deque.empty
  indexByType := emptyIndex
  indexBySource := []
  totalCount := 0
  droppedCount := 0
  seq := 0
  chainHead := genesisHash cfg.runId
  history := {}

/-- Methods of the log. -/
abbrev LogM := Raising PyError EvidenceLog

/-- The branch `_send_to_mpsc` takes. -/
inductive Sink where
  /-- Initialised with a running flush task: the event goes to the SQLite channel. -/
  | queue
  /-- Not initialised but a database is open: a thread inserts the event. -/
  | syncSqlite
  /-- Neither. -/
  | off
  deriving DecidableEq

/-- What becomes of a line handed to the persist channel. -/
inductive Delivery where
  /-- The channel took it, or the synchronous fallback wrote it. -/
  | accepted
  /-- The channel was full and the fallback has no open file. -/
  | lost
  /-- The channel or the fallback raised. -/
  | failed (reason : String)
  deriving DecidableEq

/-- What one creating or appending call reads from outside the log. -/
structure Env where
  frozen : Bool := false
  closed : Bool := false
  closing : Bool := false
  sink : Sink := .off
  delivery : Delivery := .accepted
  /-- `random.random()`. -/
  draw : ℚ := 0
  /-- `datetime.now(UTC).timestamp()`. -/
  now : ℚ
  /-- `uuid.uuid4().hex[:12]`. -/
  hex : String
  deriving DecidableEq

/-! ### The ring buffer and its indexes -/

/-- `self._index_by_type[type].append(position)`, for a type that has an index. -/
def pushPosition (index : List (String × Positions)) (key : String) (position : Nat) :
    List (String × Positions) :=
  index.map fun p => if p.1 = key then (p.1, p.2.append position) else p

/-- One round of the source loop: the index of a new source is created empty. -/
def indexSource (index : List (String × Positions)) (position : Nat) (source : String) :
    List (String × Positions) :=
  let index := if index.any (·.1 == source) then index else index ++ [(source, Deque.empty)]
  pushPosition index source position

/-- `type in self._index_by_type`. -/
def EvidenceLog.HasIndex (s : EvidenceLog) (eventType : String) : Prop :=
  s.indexByType.any (·.1 == eventType) = true

instance (s : EvidenceLog) (eventType : String) : Decidable (s.HasIndex eventType) :=
  inferInstanceAs (Decidable (_ = true))

/-- The indexing of one event, written out in `_update_indexes`, in `_update_indexes_batch` and in
the loop of `_rebuild_indexes`. A type without an index raises before any source is indexed. -/
def indexEvent (position : Nat) (event : EvidenceEvent) : LogM Unit := do
  let s ← get
  if s.HasIndex event.eventType then
    set { s with
      indexByType := pushPosition s.indexByType event.eventType position
      indexBySource := event.sourceIds.foldl (indexSource · position) s.indexBySource }
  else throw ⟨.keyError, event.eventType⟩

/-- The loop of `_rebuild_indexes`, from a position on. -/
def indexEvents : Nat → List EvidenceEvent → LogM Unit
  | _, [] => pure ()
  | position, event :: rest => do
    indexEvent position event
    indexEvents (position + 1) rest

/-- `_rebuild_indexes`; `_log.py:3032-3048`. -/
def rebuildIndexes : LogM Unit := do
  modify fun s => { s with indexByType := emptyIndex, indexBySource := [] }
  let s ← get
  indexEvents 0 s.log.toList

/-- The event enters the ring buffer and is counted. -/
def EvidenceLog.store (s : EvidenceLog) (event : EvidenceEvent) : EvidenceLog :=
  { s with
    log := s.log.append event
    totalCount := s.totalCount + 1
    history := { s.history with stored := s.history.stored ++ [event] } }

/-- `_update_indexes` and `_update_indexes_batch`; `_log.py:2949-2966, 3141-3158`. -/
def updateIndexes (event : EvidenceEvent) : LogM Unit := do
  let s ← get
  let wasFull := s.log.length = maxRamEvents
  modify (·.store event)
  if wasFull then
    modify fun s => { s with droppedCount := s.droppedCount + 1 }
    Raising.swallow rebuildIndexes
  else
    let s ← get
    indexEvent (s.log.length - 1) event

/-! ### Appending -/

/-- `_validate_event`; `_log.py:3019-3030`. -/
def validateEvent (cfg : LogConfig) (env : Env) (event : EvidenceEvent) : Except PyError Unit :=
  if cfg.silentFailure then .ok ()
  else if env.frozen then .error ⟨.runtimeError, "Cannot append to frozen EvidenceLog"⟩
  else if env.closed then .error ⟨.runtimeError, "Cannot append to closed EvidenceLog"⟩
  else if env.closing then
    .error ⟨.runtimeError, "Cannot append while EvidenceLog is closing"⟩
  else if event.runId ≠ cfg.runId then .error ⟨.valueError, "Event run_id mismatch"⟩
  else .ok ()

/-- The log half of `_update_chain_state`: a linked event becomes the chain head. -/
def EvidenceLog.advance (s : EvidenceLog) (linked : EvidenceEvent) : EvidenceLog :=
  { s with
    chainHead := computeChainHash s.chainHead linked.contentHash linked.eventId
    history := { s.history with
      digested := s.history.digested ++
        [chainInput s.chainHead linked.contentHash linked.eventId] } }

/-- `_update_chain_state`; `_log.py:2998-3002`. -/
def updateChainState (event : EvidenceEvent) : LogM EvidenceEvent := do
  let s ← get
  set (s.advance event)
  return event.link s.chainHead

/-- `_send_to_mpsc`; `_log.py:2871-2910`. A full SQLite channel and a failing insert are only
logged; the serialisation before them can raise. -/
def sendToMpsc (c : Codecs) (env : Env) (event : EvidenceEvent) : Except PyError Unit :=
  match env.sink with
  | .queue => do
    let _ ← event.toBytes c
    return ()
  | .syncSqlite => do
    let _ ← event.toDict c
    return ()
  | .off => .ok ()

/-- `_persist_event`; `_log.py:2912-2947`. -/
def persistEvent (c : Codecs) (env : Env) (event : EvidenceEvent) : LogM Unit := do
  let _ ← Raising.ofExcept (event.toJsonlLine c)
  match env.delivery with
  | .accepted =>
    modify fun s =>
      { s with history := { s.history with persisted := s.history.persisted ++ [event] } }
  | .lost => pure ()
  | .failed reason =>
    throw ⟨.runtimeError, "EvidenceLog SWAL write failed: " ++ reason⟩

/-- The stages of `append` that hand the event to the channels; `_log.py:3009-3011`. -/
def handToChannels (c : Codecs) (cfg : LogConfig) (env : Env) (event : EvidenceEvent) :
    LogM Unit := do
  Raising.ofExcept (sendToMpsc c env event)
  if cfg.enablePersist then persistEvent c env event

/-- `append`; `_log.py:3004-3017`. Returns the event as the call leaves it. The analytics hook
reads the event, and what it raises is swallowed. -/
def append (c : Codecs) (cfg : LogConfig) (env : Env) (event : EvidenceEvent) :
    LogM EvidenceEvent := do
  Raising.ofExcept (validateEvent cfg env event)
  modify fun s => { s with seq := s.seq + 1 }
  let s ← get
  let event := { event with seqNo := s.seq }
  let event ← updateChainState event
  handToChannels c cfg env event
  let event := { event with payload := trimPayloadFast c event.payload }
  let contentHash ← Raising.ofExcept (event.calculateHash c)
  let event := { event with contentHash := contentHash }
  let event ← updateChainState event
  updateIndexes event
  return event

/-! ### Creating events -/

/-- Arguments of `create_event`. -/
structure CreateArgs where
  eventType : String
  payload : List (String × PyVal)
  sourceIds : Option (List String) := none
  confidence : ℚ := 1
  correlation : Option (List (String × Option String)) := none

/-- The sampling decision: errors and fully sampled logs always pass; `_log.py:3076-3080`. -/
def sampledOut (cfg : LogConfig) (draw : ℚ) (eventType : String) : Bool :=
  eventType ≠ "error" && cfg.sampleRate < 1 && cfg.sampleRate < draw

/-- The payload with a non-empty correlation added; `_log.py:3084-3085`. -/
def CreateArgs.fullPayload (args : CreateArgs) : List (String × PyVal) :=
  match args.correlation with
  | some (p :: ps) =>
    dictSet args.payload "_correlation" (.dict ((p :: ps).map fun q => (q.1, optStr q.2)))
  | _ => args.payload

/-- The event object that `create_event` builds; `_log.py:3083-3095`. -/
def buildEvent (c : Codecs) (cfg : LogConfig) (env : Env) (args : CreateArgs) :
    Except PyError EvidenceEvent := do
  let payload ← c.dumps (.dict args.fullPayload)
  let event : EvidenceEvent :=
    { eventId := cfg.runId ++ "_" ++ env.hex
      eventType := args.eventType
      timestamp := env.now
      payload := payload
      sourceIds := args.sourceIds.getD []
      confidence := args.confidence
      contentHash := ""
      runId := cfg.runId }
  let contentHash ← event.calculateHash c
  return { event with contentHash := contentHash }

/-- `create_event`; `_log.py:3050-3096`. -/
def createEvent (c : Codecs) (cfg : LogConfig) (env : Env) (args : CreateArgs) :
    LogM (Option EvidenceEvent) := do
  if cfg.silentFailure then return none
  if sampledOut cfg env.draw args.eventType then return none
  if env.closed then throw ⟨.runtimeError, "Cannot create event in closed EvidenceLog"⟩
  let event ← Raising.ofExcept (buildEvent c cfg env args)
  let event ← append c cfg env event
  return some event

/-- The arguments with which `create_decision_event` calls `create_event`. -/
def decisionArgs (c : Codecs) (kind : String) (summary : List (String × PyVal))
    (reasons : List String) (refs : List (String × List String)) (confidence : ℚ) :
    CreateArgs where
  eventType := "decision"
  payload := decisionPayload c kind summary reasons refs
  sourceIds := some []
  confidence := confidence

/-- `create_decision_event`; `_log.py:3700-3719`. -/
def createDecisionEvent (c : Codecs) (cfg : LogConfig) (env : Env) (kind : String)
    (summary : List (String × PyVal)) (reasons : List String)
    (refs : List (String × List String)) (confidence : ℚ) : LogM (Option EvidenceEvent) :=
  createEvent c cfg env (decisionArgs c kind summary reasons refs confidence)

/-- The arguments with which `create_evidence_packet_event` calls `create_event`. -/
def packetArgs (evidenceId packetPath : String) (summary : List (String × PyVal))
    (sourceIds : Option (List String)) (confidence : ℚ) : CreateArgs where
  eventType := "evidence_packet"
  payload := [("evidence_id", .str evidenceId), ("packet_path", .str packetPath),
    ("summary", .dict summary)]
  sourceIds := sourceIds
  confidence := confidence

/-- `create_evidence_packet_event`; `_log.py:3282-3308`. -/
def createEvidencePacketEvent (c : Codecs) (cfg : LogConfig) (env : Env)
    (evidenceId packetPath : String) (summary : List (String × PyVal))
    (sourceIds : Option (List String)) (confidence : ℚ) : LogM (Option EvidenceEvent) :=
  createEvent c cfg env (packetArgs evidenceId packetPath summary sourceIds confidence)

/-- The arguments with which `attach_forensic_analysis` calls `create_event`, if it does;
`_log.py:3603-3629`. `confidence` is what `float` makes of the argument, if it returns. -/
def forensicArgs (c : Codecs) (attachedAt findingId : String) (result : PyVal)
    (sourceId : Option String) (confidence : Option ℚ) : Option CreateArgs :=
  if findingId = "" then none
  else
    match result with
    | .dict d =>
      some
        { eventType := "evidence_packet"
          payload := forensicPayload c findingId d attachedAt
          sourceIds := some
            [takeStr 128 (if truthy sourceId then sourceId.getD findingId else findingId)]
          confidence := match confidence with
            | some q => max 0 (min 1 q)
            | none => 95 / 100 }
    | _ => none

/-- `attach_forensic_analysis`; `_log.py:3573-3633`. -/
def attachForensicAnalysis (c : Codecs) (cfg : LogConfig) (env : Env)
    (attachedAt findingId : String) (result : PyVal) (sourceId : Option String)
    (confidence : Option ℚ) : LogM (Option EvidenceEvent) := do
  match forensicArgs c attachedAt findingId result sourceId confidence with
  | some args =>
    tryCatch (createEvent c cfg env args) fun err =>
      if err.kind = .runtimeError ∨ err.kind = .valueError then return none else throw err
  | none => return none

/-! ### Creating a batch of events -/

/-- One tuple of a batch, with the random number, the clock and the identifier read for it. -/
structure BatchItem where
  eventType : String
  payload : List (String × PyVal)
  sourceIds : Option (List String) := none
  confidence : ℚ := 1
  draw : ℚ := 0
  now : ℚ
  hex : String

/-- The event object of one batch tuple, before it is linked; `_log.py:3114-3135`. The scrubber is
never loaded on this path, so scrubbing is the identity. -/
def buildBatchEvent (c : Codecs) (cfg : LogConfig) (item : BatchItem) :
    Except PyError EvidenceEvent := do
  let normalized ← normalizePayload item.payload
  let payload ← c.dumps normalized
  let event : EvidenceEvent :=
    { eventId := cfg.runId ++ "_" ++ item.hex
      eventType := item.eventType
      timestamp := item.now
      payload := payload
      sourceIds := item.sourceIds.getD []
      confidence := item.confidence
      contentHash := ""
      runId := cfg.runId }
  let contentHash ← event.calculateHash c
  return { event with contentHash := contentHash }

/-- `_create_single_event_batch`; `_log.py:3098-3139`. -/
def createSingleEventBatch (c : Codecs) (cfg : LogConfig) (item : BatchItem) (head : String) :
    LogM (Option EvidenceEvent × String) := do
  if sampledOut cfg item.draw item.eventType then return (none, head)
  let event ← Raising.ofExcept (buildBatchEvent c cfg item)
  modify fun s =>
    { s with history := { s.history with
        digested := s.history.digested ++ [chainInput head event.contentHash event.eventId] } }
  return (some (event.link head), computeChainHash head event.contentHash event.eventId)

/-- The loop of `create_events_batch`; the chain head is a local variable of it. -/
def batchLoop (c : Codecs) (cfg : LogConfig) :
    List BatchItem → String → LogM (List EvidenceEvent × String)
  | [], head => return ([], head)
  | item :: rest, head => do
    let (event?, head) ← createSingleEventBatch c cfg item head
    match event? with
    | none => batchLoop c cfg rest head
    | some event => do
      updateIndexes event
      let (created, head) ← batchLoop c cfg rest head
      return (event :: created, head)

/-- What a batch call reads from outside the log. `backpressure` is the answer of
`_check_backpressure`, and `taken` how many lines the persist channel and its fallback take. -/
structure BatchEnv where
  closed : Bool := false
  /-- Initialised, with a running flush task, and not closing. -/
  flushing : Bool := false
  backpressure : Bool := false
  taken : Nat := 0
  deriving DecidableEq

/-- The payloads that `_send_to_mpsc_channels` prepares before it looks at the channels;
`_log.py:3187-3194`. -/
def channelPayloads (c : Codecs) (cfg : LogConfig) (created : List EvidenceEvent) :
    Except PyError Unit := do
  let _ ← created.mapM (·.toBytes c)
  if cfg.enablePersist then
    let _ ← created.mapM (·.toJsonlLine c)
  return ()

/-- The channels' answer: under backpressure the whole batch counts as one drop. A raise of the
persist channel is swallowed; `_log.py:3196-3224`. -/
def EvidenceLog.channelsTake (cfg : LogConfig) (env : BatchEnv) (created : List EvidenceEvent)
    (s : EvidenceLog) : EvidenceLog :=
  if env.backpressure then { s with droppedCount := s.droppedCount + 1 }
  else if cfg.enablePersist then
    { s with history := { s.history with
        persisted := s.history.persisted ++ created.take env.taken } }
  else s

/-- `_send_to_mpsc_channels`; `_log.py:3177-3224`. -/
def sendToMpscChannels (c : Codecs) (cfg : LogConfig) (env : BatchEnv)
    (created : List EvidenceEvent) : LogM Unit := do
  if env.flushing then
    Raising.ofExcept (channelPayloads c cfg created)
    modify (·.channelsTake cfg env created)

/-- `create_events_batch`; `_log.py:3251-3280`. -/
def createEventsBatch (c : Codecs) (cfg : LogConfig) (env : BatchEnv)
    (events : List BatchItem) : LogM (List EvidenceEvent) := do
  if events.isEmpty || cfg.silentFailure then return []
  else if env.closed then throw ⟨.runtimeError, "Cannot create events in closed EvidenceLog"⟩
  else
    let s ← get
    let (created, head) ← batchLoop c cfg events s.chainHead
    modify fun s => { s with chainHead := head }
    if created.isEmpty then return created
    else
      sendToMpscChannels c cfg env created
      return created

/-! ### Runs -/

/-- The operations that add events. -/
inductive Op where
  | append (env : Env) (event : EvidenceEvent)
  | createEvent (env : Env) (args : CreateArgs)
  | createDecisionEvent (env : Env) (kind : String) (summary : List (String × PyVal))
      (reasons : List String) (refs : List (String × List String)) (confidence : ℚ)
  | createEvidencePacketEvent (env : Env) (evidenceId packetPath : String)
      (summary : List (String × PyVal)) (sourceIds : Option (List String)) (confidence : ℚ)
  | attachForensicAnalysis (env : Env) (attachedAt findingId : String) (result : PyVal)
      (sourceId : Option String) (confidence : Option ℚ)
  | createEventsBatch (env : BatchEnv) (events : List BatchItem)

/-- The event that `create_event` hands to `append`, if it gets that far. -/
def createHands (c : Codecs) (cfg : LogConfig) (env : Env) (args : CreateArgs) :
    Option EvidenceEvent :=
  if cfg.silentFailure || sampledOut cfg env.draw args.eventType || env.closed then none
  else (buildEvent c cfg env args).toOption

/-- The event that an operation hands to `append`, with what the call reads. -/
def Op.appends (c : Codecs) (cfg : LogConfig) : Op → Option (Env × EvidenceEvent)
  | .append env event => some (env, event)
  | .createEvent env args => (createHands c cfg env args).map (env, ·)
  | .createDecisionEvent env kind summary reasons refs confidence =>
    (createHands c cfg env (decisionArgs c kind summary reasons refs confidence)).map (env, ·)
  | .createEvidencePacketEvent env evidenceId packetPath summary sourceIds confidence =>
    (createHands c cfg env
      (packetArgs evidenceId packetPath summary sourceIds confidence)).map (env, ·)
  | .attachForensicAnalysis env attachedAt findingId result sourceId confidence =>
    (forensicArgs c attachedAt findingId result sourceId confidence).bind fun args =>
      (createHands c cfg env args).map (env, ·)
  | .createEventsBatch _ _ => none

/-- The log after one operation, whether it returned or raised. -/
def step (c : Codecs) (cfg : LogConfig) (s : EvidenceLog) : Op → EvidenceLog
  | .append env event => (Raising.exec (append c cfg env event) s).2
  | .createEvent env args => (Raising.exec (createEvent c cfg env args) s).2
  | .createDecisionEvent env kind summary reasons refs confidence =>
    (Raising.exec (createDecisionEvent c cfg env kind summary reasons refs confidence) s).2
  | .createEvidencePacketEvent env evidenceId packetPath summary sourceIds confidence =>
    (Raising.exec
      (createEvidencePacketEvent c cfg env evidenceId packetPath summary sourceIds confidence) s).2
  | .attachForensicAnalysis env attachedAt findingId result sourceId confidence =>
    (Raising.exec
      (attachForensicAnalysis c cfg env attachedAt findingId result sourceId confidence) s).2
  | .createEventsBatch env events => (Raising.exec (createEventsBatch c cfg env events) s).2

/-- The log after a run of operations on a fresh one. -/
abbrev run (c : Codecs) (cfg : LogConfig) (ops : List Op) : EvidenceLog :=
  ops.foldl (step c cfg) (EvidenceLog.fresh cfg)

end Hledac.Evidence
