import Hledac.Lib.ByteSearch
import Hledac.Py.Parse

/-!
# WARC files

`WARCWriter.write_response` and `write_raw` of `evidence/_archiver.py`, and `warc_seek` of
`evidence/_log.py`, which reads a file in chunks and hunts for the start of a record. Compression
is lossless and left out: a file is its decompressed content, and what the file system says about
compressed sizes is an argument of the call.
-/

namespace Hledac.Evidence.Warc

open Hledac.Lib Hledac.Lib.ByteSearch Hledac.Py

/-- `b"\r\n"`. -/
def crlf : Bytes := [13, 10]

/-- `b"\r\n\r\n"`. -/
def crlf2 : Bytes := [13, 10, 13, 10]

/-- `b"\n\n"`. -/
def lf2 : Bytes := [10, 10]

/-- `b"WARC/1."`. -/
def marker : Bytes := [0x57, 0x41, 0x52, 0x43, 0x2F, 0x31, 0x2E]

/-! ### Records -/

/-- What `str(uuid.uuid4())` gives. -/
structure Uuid where
  text : String
  wf : ∀ ch ∈ text.toList, Digest.IsHex ch ∨ ch = '-'
  deriving DecidableEq

/-- The value of `WARC-Record-ID`. -/
def Uuid.recordId (u : Uuid) : String := "<urn:uuid:" ++ u.text ++ ">"

/-- A record as the writer lays it out: header fields after the version line, and a body. -/
structure Record where
  fields : List (String × String)
  body : Bytes

namespace Record

/-- The lines of the header; `_archiver.py:139-162, 224-235`. -/
def lines (r : Record) : List String := "WARC/1.1" :: r.fields.map fun f => f.1 ++ ": " ++ f.2

/-- The header, encoded, with its blank line. -/
def header (r : Record) : Bytes :=
  encode (String.join (r.lines.map (· ++ "\r\n")) ++ "\r\n")

/-- The bytes of the record, up to the end of its body. -/
def bytes (r : Record) : Bytes := r.header ++ r.body

/-- The block that is written: the record and a line break. -/
def block (r : Record) : Bytes := r.bytes ++ crlf

end Record

/-- The arguments that both write methods have, the identifier they draw, and the size of the
compressed file before and after the call. -/
structure WriteArgs where
  url : String
  /-- `timestamp.isoformat()`. -/
  date : String
  response : Bytes
  uuid : Uuid
  sizeBefore : Nat := 0
  sizeAfter : Nat := 0

/-- `sha1:` and the digest of the response. -/
def payloadDigest (response : Bytes) : String := "sha1:" ++ Digest.sha1 response

/-- The request record of `write_response`; `_archiver.py:153-162`. -/
def requestRecord (args : WriteArgs) (request : Bytes) (uuid : Uuid) (length : String) :
    Record where
  fields := [("WARC-Type", "request"), ("WARC-Target-URI", args.url),
    ("WARC-Date", args.date ++ "Z"), ("WARC-Record-ID", uuid.recordId),
    ("Content-Length", length), ("Content-Type", "application/http;msgtype=request")]
  body := request

/-- The response record of `write_response`; `_archiver.py:139-151`. -/
def responseRecord (name : String) (args : WriteArgs) (length : String) : Record where
  fields := [("WARC-Type", "response"), ("WARC-Target-URI", args.url),
    ("WARC-Date", args.date ++ "Z"), ("WARC-Record-ID", args.uuid.recordId),
    ("Content-Length", length), ("Content-Type", "application/http;msgtype=response"),
    ("WARC-Payload-Digest", payloadDigest args.response),
    ("WARC-Identified-Payload-Type", "application/http;msgtype=response"),
    ("WARC-Filename", name)]
  body := args.response

/-- The record of `write_raw`; `_archiver.py:224-235`. -/
def rawRecord (name contentType : String) (args : WriteArgs) (length : String) : Record where
  fields := [("WARC-Type", "response"), ("WARC-Target-URI", args.url),
    ("WARC-Date", args.date ++ "Z"), ("WARC-Record-ID", args.uuid.recordId),
    ("Content-Length", length), ("Content-Type", contentType),
    ("WARC-Payload-Digest", payloadDigest args.response), ("WARC-Filename", name)]
  body := args.response

/-! ### The writer -/

/-- The state of a `WARCWriter`: its current file and the files it has rotated away. -/
structure WARCWriter where
  directory : String
  name : String
  maxSize : Nat
  content : Bytes := []
  currentSize : Nat := 0
  recordCounter : Nat := 0
  closed : List (String × Bytes) := []

/-- `WarcWriteResult`; `_archiver.py:71-85`. -/
structure WarcWriteResult where
  recordId : String := ""
  byteOffset : Nat := 0
  byteLength : Nat := 0
  warcPath : String := ""
  success : Bool := false
  url : String := ""
  timestamp : String := ""
  warcType : String := "response"
  payloadDigest : String := ""
  status : Int := 0
  compressedOffset : Nat := 0
  compressedSize : Int := 0

/-- `_MIN_PAYLOAD_SIZE`. -/
def minPayloadSize : Nat := 50

/-- `_rotate_unlocked`; `_archiver.py:276-287`. Names end in `.warc.gz`, and the stem leaves `.gz`
off. -/
def WARCWriter.rotate (w : WARCWriter) : WARCWriter :=
  { w with
    name := takeStr (w.name.length - 3) w.name ++ "_" ++ toString (w.closed.length + 1) ++
      ".warc.gz"
    content := []
    currentSize := 0
    closed := w.closed ++ [(w.name, w.content)] }

/-- The bytes are written, and the file is rotated if it has become too large. -/
def WARCWriter.put (w : WARCWriter) (bytes : Bytes) : WARCWriter :=
  let w := { w with
    content := w.content ++ bytes
    currentSize := w.currentSize + bytes.length
    recordCounter := w.recordCounter + 1 }
  if w.currentSize > w.maxSize then w.rotate else w

/-- The status of a response whose status line starts with `HTTP/`. -/
def statusOf (line : String) : Int :=
  match splitOnce ' ' line with
  | some (version, rest) =>
    if "HTTP/".toList <+: version.toList then
      (readInt (((splitOnce ' ' rest).map Prod.fst).getD rest)).getD 0
    else 0
  | none => 0

/-- `_parse_http_status`; `_archiver.py:264-274`. -/
def parseHttpStatus (response : Bytes) : Int :=
  statusOf (decodeReplace (match find crlf response with
    | some i => response.take i
    | none => response.dropLast))

/-- What the two write methods return for a record that they have written. -/
def WARCWriter.result (w : WARCWriter) (args : WriteArgs) (byteLength : Nat) (status : Int) :
    WarcWriteResult where
  recordId := args.uuid.recordId
  byteOffset := w.currentSize
  byteLength := byteLength
  warcPath := w.directory ++ "/" ++ w.name
  success := true
  url := args.url
  timestamp := args.date ++ "Z"
  warcType := "response"
  payloadDigest := payloadDigest args.response
  status := status
  compressedOffset := args.sizeBefore
  compressedSize := (args.sizeAfter : Int) - args.sizeBefore

/-- `write_response`; `_archiver.py:118-197`. A length that has no decimal text raises, which is
logged. -/
def writeResponse (args : WriteArgs) (request : Bytes) (requestUuid : Uuid) (w : WARCWriter) :
    Option WarcWriteResult × WARCWriter :=
  if args.response.length < minPayloadSize then (some {}, w)
  else
    match natText args.response.length, natText request.length with
    | some length, some requestLength =>
      let requestBlock := (requestRecord args request requestUuid requestLength).block
      let responseBlock := (responseRecord w.name args length).block
      (some (w.result args (requestBlock.length + responseBlock.length)
        (parseHttpStatus args.response)), w.put (requestBlock ++ responseBlock))
    | _, _ => (none, { w with recordCounter := w.recordCounter + 1 })

/-- `write_raw`; `_archiver.py:199-262`. -/
def writeRaw (args : WriteArgs) (contentType : String) (w : WARCWriter) :
    Option WarcWriteResult × WARCWriter :=
  if args.response.length < minPayloadSize then (some {}, w)
  else
    match natText args.response.length with
    | some length =>
      let block := (rawRecord w.name contentType args length).block
      (some (w.result args block.length 0), w.put block)
    | none => (none, { w with recordCounter := w.recordCounter + 1 })

/-! ### Parsing a record -/

/-- Where the header ends, and the line break it uses; `_log.py:556-563, 624-629`. -/
def headerEnd (data : Bytes) : Option (Nat × Bytes) :=
  match find crlf2 data with
  | some i => some (i, crlf)
  | none => (find lf2 data).map fun i => (i, [10])

/-- The lines of a header that ends there, decoded. -/
def headerLines (data : Bytes) (stop : Nat) (lineEnd : Bytes) : List String :=
  (split lineEnd (data.take stop)).map decodeReplace

/-- Length of the blank line after a header. -/
def blankLength (lineEnd : Bytes) : Nat := if lineEnd = crlf then 4 else 2

/-- `xs[start:stop]` for a start that is not negative. -/
def slice (xs : Bytes) (start : Nat) (stop : Int) : Bytes :=
  (xs.take (if 0 ≤ stop then stop.toNat else (xs.length + stop).toNat)).drop start

/-- One round of the loop over the header lines; `_log.py:570-580`. -/
def scanLine (acc : Int × Option String) (line : String) : Int × Option String :=
  match splitOnce ':' line with
  | none => acc
  | some (key, value) =>
    if lower (strip key) = "content-length" then ((readInt (strip value)).getD acc.1, acc.2)
    else if lower (strip key) = "warc-record-id" then (acc.1, some (strip value))
    else acc

/-- The dictionary of a header; `_log.py:631-638`. -/
def headerDict (lines : List String) : List (String × String) :=
  lines.foldl (fun d line => match splitOnce ':' line with
    | none => d
    | some (key, value) => dictSet d (lower (strip key)) (strip value)) []

/-- What a record is parsed to; `_log.py:671-681`. -/
structure WarcRecord where
  httpResponse : Bytes
  httpRequest : Bytes
  url : String
  timestamp : String
  recordId : String
  warcType : String
  payloadDigest : String
  status : Int
  contentLength : Int
  deriving DecidableEq

/-- `d.get(key, default)`. -/
def getField (d : List (String × String)) (key fallback : String) : String :=
  (d.lookup key).getD fallback

/-- The status in the first line of a body; `_log.py:657-669`. -/
def bodyStatus (body : Bytes) : Int :=
  match find crlf body, find [10] body with
  | some i, _ => statusOf (decodeReplace (body.take i))
  | none, some i => statusOf (decodeReplace (body.take i))
  | none, none => 0

/-- `_parse_warc_record_from_bytes`; `_log.py:603-685`. -/
def parseWarcRecordFromBytes (data : Bytes) (expectedRecordId : String) : Option WarcRecord := do
  let pos ← find marker data
  let recordData := data.drop pos
  let headers := match headerEnd recordData with
    | some (stop, lineEnd) => headerDict (headerLines recordData stop lineEnd)
    | none => []
  let bodyStart := match headerEnd recordData with
    | some (stop, lineEnd) => stop + blankLength lineEnd
    | none => 1
  let warcType := getField headers "warc-type" "response"
  let contentLength ← readInt (getField headers "content-length" "0")
  let recordId := getField headers "warc-record-id" ""
  if expectedRecordId ≠ "" ∧ recordId ≠ expectedRecordId then none
  else
    let body := slice recordData bodyStart (bodyStart + contentLength)
    some
      { httpResponse := if warcType = "response" then body else []
        httpRequest := if warcType = "request" then body else []
        url := getField headers "warc-target-uri" ""
        timestamp := getField headers "warc-date" ""
        recordId := recordId
        warcType := warcType
        payloadDigest := getField headers "warc-payload-digest" ""
        status := if warcType = "response" ∧ body ≠ [] then bodyStatus body else 0
        contentLength := contentLength }

/-- `_try_parse_warc_record`; `_log.py:536-600`. -/
def tryParseWarcRecord (expectedRecordId : String) (data : Bytes) : Option WarcRecord := do
  let pos ← find marker data
  let recordData := data.drop pos
  let (stop, lineEnd) ← headerEnd recordData
  let (contentLength, recordId) :=
    (headerLines recordData stop lineEnd).foldl scanLine (0, none)
  let totalSize : Int := (stop + blankLength lineEnd : Nat) + contentLength
  if (recordData.length : Int) < totalSize then none
  else if recordId.getD "" ≠ "" ∧ recordId ≠ some expectedRecordId then none
  else parseWarcRecordFromBytes (slice recordData 0 totalSize) expectedRecordId

/-! ### Seeking a record -/

/-- The inner loop of `warc_seek`, on data that starts with the marker: the record, or what stays
in the buffer. Each round drops a byte at least, so the length of the data is enough fuel. -/
def tryRecords (recordId : String) : Nat → Bytes → WarcRecord ⊕ Bytes
  | 0, data => .inr data
  | fuel + 1, data =>
    match tryParseWarcRecord recordId data with
    | some r => .inl r
    | none =>
      match find marker (data.drop 1) with
      | none => .inr data
      | some next => tryRecords recordId fuel (data.drop (next + 1))

/-- The loop of `warc_seek` over the chunks that reading the file gives, from a buffer on. -/
def seekLoop (recordId : String) : Bytes → List Bytes → Option WarcRecord
  | _, [] => none
  | buffer, chunk :: rest =>
    if chunk = [] then none
    else
      let data := buffer ++ chunk
      match find marker data with
      | none => seekLoop recordId data rest
      | some pos =>
        match tryRecords recordId data.length (data.drop pos) with
        | .inl r => some r
        | .inr buffer => seekLoop recordId buffer rest

/-- `warc_seek` on a file that exists; `_log.py:432-533`. -/
def warcSeek (recordId : String) (chunks : List Bytes) : Option WarcRecord :=
  if recordId = "" then none else seekLoop recordId [] chunks

end Hledac.Evidence.Warc
