import Hledac.Lib.Words
import Hledac.Lib.Machine
import Hledac.Py.Text

/-!
# The batching JSONL writer

`LZ4JSONLWriter` of `utils/jsonl_lz4_writer.py`: callers queue lines, a background task gathers them into batches and
appends each batch to one of two files, and `close` sends a `None` through the same bounded queue. An event is what
happens between two suspensions; a producer that waits for room goes on at any time at which there is room.
-/

namespace Hledac.Utils

open Hledac.Lib Hledac.Py

/-- `b"\n"`. -/
def lineEnd : UInt8 := 10

/-- The arguments of the constructor, the threshold of the module, and the encoders and the compressor that it finds;
lines 68-74, 129-156. -/
structure JsonlSettings (Obj : Type) where
  compress : Bool := true
  batchSize : Nat := 256
  queueMax : Nat := 1000
  flushBytes : Nat := 32 * 1024
  minCompress : ℤ := 512
  jsonEncode : Obj → Except PyError Bytes
  orjsonDumps : Obj → Except PyError Bytes
  lz4Compress : Bytes → Bytes

/-- Where the background task is: not started, in its loop, waiting for the thread that compresses a batch, the last one
or not, or at its end. -/
inductive WriterTask where
  | absent
  | looping
  | compressing (lines : List Bytes) (last : Bool)
  | ended
  deriving DecidableEq

/-- Where `close` is: not called, waiting for room, waiting for the background task, or back. -/
inductive ClosePhase where
  | notCalled
  | putting
  | joining
  | returned
  deriving DecidableEq

/-- The writer, its files and the calls that wait for room, each with its line. `accepted` are the lines for which
`write_line` has returned `True`, in the order of the queue, and `batches` what has been flushed, to the compressed file
or not. -/
structure LZ4JSONLWriter where
  closed : Bool := false
  queue : List (Option Bytes) := []
  writerTask : WriterTask := .absent
  pendingLines : List Bytes := []
  pendingBytes : Nat := 0
  fileZst : List Bytes := []
  fileJsonl : Bytes := []
  putters : List (Nat × Bytes) := []
  closePhase : ClosePhase := .notCalled
  accepted : List Bytes := []
  batches : List (Bool × List Bytes) := []
  deriving DecidableEq

/-- What happens. A call is known by its number. -/
inductive WriterEvent (Obj : Type) where
  | writeLine (call : Nat) (obj : Obj)
  | proceed (call : Nat)
  | giveUp (call : Nat)
  | close
  | proceedClose
  | closeReturns
  | get
  | compressed

namespace LZ4JSONLWriter

variable {Obj : Type} (cfg : JsonlSettings Obj) (w : LZ4JSONLWriter)

/-! ### Callers -/

/-- `json.encode`, or `orjson.dumps` where it raises; lines 166-170. -/
def encodeLine (obj : Obj) : Except PyError Bytes :=
  match cfg.jsonEncode obj with
  | .ok line => .ok line
  | .error _ => cfg.orjsonDumps obj

/-- `asyncio.Queue.full`. -/
def full : Bool := decide (0 < cfg.queueMax) && decide (cfg.queueMax ≤ w.queue.length)

/-- `put_nowait` of a line, after which `write_line` returns `True`. -/
def putLine (line : Bytes) : LZ4JSONLWriter :=
  { w with queue := w.queue ++ [some line], accepted := w.accepted ++ [line] }

/-- `_ensure_writer_started`; lines 222-225. -/
def ensureWriterStarted : LZ4JSONLWriter := if w.writerTask = .absent then { w with writerTask := .looping } else w

/-- `write_line`, up to where it returns, raises or waits for room; lines 158-181. -/
def writeLine (call : Nat) (obj : Obj) : LZ4JSONLWriter :=
  if w.closed then w
  else
    match encodeLine cfg obj with
    | .error _ => w
    | .ok line =>
      let w := w.ensureWriterStarted
      if w.full cfg then { w with putters := w.putters ++ [(call, line)] } else w.putLine line

/-- A `write_line` that has waited puts its line. -/
def proceed (call : Nat) : LZ4JSONLWriter :=
  match w.putters.find? fun p => p.1 = call with
  | none => w
  | some p => if w.full cfg then w else { w with putters := w.putters.erase p }.putLine p.2

/-- A `write_line` that has waited times out and returns `False`. -/
def giveUp (call : Nat) : LZ4JSONLWriter := { w with putters := w.putters.filter fun p => p.1 ≠ call }

/-- `put_nowait(None)`. -/
def putSentinel : LZ4JSONLWriter := { w with queue := w.queue ++ [none], closePhase := .joining }

/-- `close`, up to where it returns or waits; lines 207-220. -/
def close : LZ4JSONLWriter :=
  if w.closed then w
  else
    let w := { w with closed := true }
    if w.writerTask = .absent then { w with closePhase := .returned }
    else if w.full cfg then { w with closePhase := .putting }
    else w.putSentinel

/-- A `close` that has waited puts its `None`. -/
def proceedClose : LZ4JSONLWriter := if w.closePhase = .putting ∧ w.full cfg = false then w.putSentinel else w

/-- The background task that `close` waits for has ended. -/
def closeReturns : LZ4JSONLWriter :=
  if w.closePhase = .joining ∧ w.writerTask = .ended then { w with closePhase := .returned } else w

/-! ### The background task -/

/-- `_should_compress`; lines 263-264. -/
def shouldCompress : Bool := decide (cfg.minCompress ≤ w.pendingBytes)

/-- `_write_raw_batch`; lines 292-305. -/
def writeRawBatch (lines : List Bytes) : LZ4JSONLWriter :=
  { w with
    fileJsonl := w.fileJsonl ++ lines.flatMap fun line => encode (decodeReplace line) ++ [lineEnd]
    batches := w.batches ++ [(false, lines)] }

/-- `_write_lz4_batch`; lines 266-290. Either compressor is given the joined lines. -/
def writeLz4Batch (lines : List Bytes) : LZ4JSONLWriter :=
  { w with
    fileZst := w.fileZst ++ [cfg.lz4Compress ([lineEnd].intercalate lines)]
    batches := w.batches ++ [(true, lines)] }

/-- The loop goes on, or closes the files and ends. -/
def afterFlush (last : Bool) : LZ4JSONLWriter := { w with writerTask := if last then .ended else .looping }

/-- `_flush_pending`, up to where it returns or waits for the thread; lines 245-261. -/
def flushPending (last : Bool) : LZ4JSONLWriter :=
  if w.pendingLines = [] then w.afterFlush last
  else
    let lines := w.pendingLines
    let w := { w with pendingLines := [], pendingBytes := 0 }
    if cfg.compress && w.shouldCompress cfg then { w with writerTask := .compressing lines last }
    else (w.writeRawBatch lines).afterFlush last

/-- The item is added to the batch. -/
def pend (item : Bytes) : LZ4JSONLWriter :=
  { w with pendingLines := w.pendingLines ++ [item], pendingBytes := w.pendingBytes + item.length }

/-- The batch is large enough. -/
def batchDue : Bool := decide (cfg.batchSize ≤ w.pendingLines.length) || decide (cfg.flushBytes ≤ w.pendingBytes)

/-- One round of `_writer_loop`; lines 227-243. -/
def get : LZ4JSONLWriter :=
  match w.writerTask, w.queue with
  | .looping, none :: rest => { w with queue := rest }.flushPending cfg true
  | .looping, some item :: rest =>
    let w := { w with queue := rest }.pend item
    if w.batchDue cfg then w.flushPending cfg false else w
  | _, _ => w

/-- The thread has compressed the batch. -/
def compressed : LZ4JSONLWriter :=
  match w.writerTask with
  | .compressing lines last => (w.writeLz4Batch cfg lines).afterFlush last
  | _ => w

/-- What an event does, if anything. -/
def step : WriterEvent Obj → LZ4JSONLWriter
  | .writeLine call obj => w.writeLine cfg call obj
  | .proceed call => w.proceed cfg call
  | .giveUp call => w.giveUp call
  | .close => w.close cfg
  | .proceedClose => w.proceedClose cfg
  | .closeReturns => w.closeReturns
  | .get => w.get cfg
  | .compressed => w.compressed cfg

/-- The writer after the events. -/
def run (events : List (WriterEvent Obj)) : LZ4JSONLWriter := events.foldl (step cfg) {}

end LZ4JSONLWriter

end Hledac.Utils
