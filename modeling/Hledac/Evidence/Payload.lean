import Hledac.Py.Text

/-!
# Evidence payloads

What `evidence/_log.py` does to a payload before it is serialised: normalising it for the hash,
trimming it for the ring buffer, and bounding the payloads of forensic and decision events. The
encoders are third-party code and enter as parameters.
-/

namespace Hledac.Evidence

open Hledac.Lib Hledac.Py

/-- The encoders the evidence code calls, and `str` on arbitrary values. -/
structure Codecs where
  /-- `orjson.loads`. -/
  loads : Bytes → Except PyError PyVal
  /-- `orjson.dumps`. -/
  dumps : PyVal → Except PyError Bytes
  /-- `orjson.dumps(…, option=orjson.OPT_SORT_KEYS)`. -/
  dumpsSorted : PyVal → Except PyError Bytes
  /-- `msgspec.msgpack.encode`. -/
  packb : PyVal → Except PyError Bytes
  /-- `str`. -/
  str : PyVal → String

/-! ### Normalisation -/

/-- `_payload_needs_normalization`; `_log.py:1323-1344`. -/
def payloadNeedsNormalization (payload : List (String × PyVal)) : Bool :=
  payload.any fun p =>
    match p.2 with
    | .none | .bool _ | .int _ | .float _ | .str _ | .instanceOf _ => false
    | _ => true

/-- The frame of `_normalize_payload` around its loop: the fast path at depth 0, and the depth
limit. -/
def finishPayload (depth : Nat) (payload : List (String × PyVal))
    (loop : Except PyError (List (String × PyVal))) : Except PyError PyVal :=
  if depth = 0 ∧ !payloadNeedsNormalization payload then .ok (.dict (sortItems payload))
  else if depth > 8 then .ok (.dict [("_tel03_truncated", .str "depth>8")])
  else return .dict (sortItems (← loop))

/-- The frame of `_normalize_list` around its loop. -/
def finishList (depth : Nat) (loop : Except PyError (List PyVal)) : Except PyError PyVal :=
  if depth > 8 then .ok (.list [.str "[truncated:depth>8]"])
  else return .list (← loop)

/-- The branches of `_normalize_single` for values that are no struct; `_log.py:1422-1427,
1438-1449`. -/
def normalizePlain : PyVal → Except PyError PyVal
  | .float q => .ok (.float (roundTo 6 q))
  | .set sorted => .ok (.list sorted)
  | .unsortedSet _ => .error ⟨.typeError, "'<' not supported between instances"⟩
  | .bytes b => .ok (.str (decodeReplace b))
  | .array asList => .ok asList
  | value => .ok value

mutual

/-- The loop body that `_normalize_payload` and `_normalize_list` share;
`_log.py:1362-1383, 1393-1412`. -/
def normalizeItem (depth : Nat) : PyVal → Except PyError PyVal
  | .datetime isoformat => .ok (.str isoformat)
  | .struct (.dict d) => finishPayload (depth + 1) d (normalizeItems (depth + 1) d)
  | .struct (.list xs) => finishList (depth + 1) (normalizeValues (depth + 1) xs)
  | .struct converted => normalizeSingle converted
  | .list xs => finishList (depth + 1) (normalizeValues (depth + 1) xs)
  | .tuple xs => finishList (depth + 1) (normalizeValues (depth + 1) xs)
  | .dict d => finishPayload (depth + 1) d (normalizeItems (depth + 1) d)
  | value => normalizePlain value

/-- `_normalize_single`; `_log.py:1417-1449`. -/
def normalizeSingle : PyVal → Except PyError PyVal
  | .struct (.dict d) => finishPayload 0 d (normalizeItems 0 d)
  | .struct (.list xs) => finishList 0 (normalizeValues 0 xs)
  | .struct converted => normalizeSingle converted
  | value => normalizePlain value

/-- The loop of `_normalize_list`. -/
def normalizeValues (depth : Nat) : List PyVal → Except PyError (List PyVal)
  | [] => .ok []
  | x :: xs => do
    let y ← normalizeItem depth x
    let ys ← normalizeValues depth xs
    return y :: ys

/-- The loop of `_normalize_payload`, in the order of the items; the source takes the keys in
sorted order, and `finishPayload` sorts the result. -/
def normalizeItems (depth : Nat) :
    List (String × PyVal) → Except PyError (List (String × PyVal))
  | [] => .ok []
  | (k, v) :: rest => do
    let w ← normalizeItem depth v
    let ws ← normalizeItems depth rest
    return (k, w) :: ws

end

/-- `_normalize_payload` at depth 0; `_log.py:1347-1384`. -/
def normalizePayload (payload : List (String × PyVal)) : Except PyError PyVal :=
  finishPayload 0 payload (normalizeItems 0 payload)

/-! ### Trimming -/

/-- `EvidenceLog.MAX_PAYLOAD_PREVIEW`. -/
def maxPayloadPreview : Nat := 200

/-- The keys whose long texts are cut to a preview; `_log.py:2812`. -/
def largeFields : List String :=
  ["content", "fulltext", "html", "body", "text", "raw_data", "document", "finding_text"]

/-- The preview that stands for a long text; `_log.py:2814-2817`. -/
def preview (value : String) : String :=
  if value.length > maxPayloadPreview then
    "[preview:" ++ takeStr 16 (Digest.sha256 (encode value)) ++ "] " ++
      takeStr maxPayloadPreview value ++ "..."
  else value

/-- A list cut to its first ten elements and a mark; `_log.py:2822-2823`. -/
def trimList (value : List PyVal) : List PyVal :=
  if value.length > 10 then
    value.take 10 ++ [.str ("... (" ++ toString (value.length - 10) ++ " more)")]
  else value

mutual

/-- One round of the loop of `_trim_payload`; `_log.py:2811-2825`. -/
def trimValue (key : String) : PyVal → PyVal
  | .str value => .str (if key ∈ largeFields then preview value else value)
  | .dict value => .dict (trimPayload value)
  | .list value => .list (trimList value)
  | value => value

/-- `_trim_payload`; `_log.py:2801-2826`. -/
def trimPayload : List (String × PyVal) → List (String × PyVal)
  | [] => []
  | (key, value) :: rest => (key, trimValue key value) :: trimPayload rest

end

/-- `_trim_payload_fast`; `_log.py:2828-2844`. Whatever fails leaves the bytes as they are, and so
does a decoded value that is no dictionary: a falsy one is its own trim, a truthy one has no
`items`. -/
def trimPayloadFast (c : Codecs) (payload : Bytes) : Bytes :=
  match c.loads payload with
  | .ok (.dict decoded) =>
    if pyEq (.dict (trimPayload decoded)) (.dict decoded) then payload
    else
      match c.dumps (.dict (trimPayload decoded)) with
      | .ok trimmed => trimmed
      | .error _ => payload
  | _ => payload

/-! ### Forensic and decision payloads -/

/-- A text cut to a length, with a mark when something was cut. -/
def cutText (n : Nat) (s : String) : String :=
  takeStr n s ++ (if s.length > n then "..." else "")

/-- The mark for the items that `_bound_forensic_list` leaves out. -/
def truncatedMark (left : Nat) : List PyVal :=
  if left > 0 then [.str ("[..." ++ toString left ++ "_more_items_truncated]")] else []

mutual

/-- `_bound_forensic_value`; `_log.py:3540-3552`. -/
def boundForensicValue (c : Codecs) (depth : Nat) (value : PyVal) : PyVal :=
  if depth > 3 then .str "[depth_truncated]"
  else
    match value with
    | .none | .bool _ | .int _ | .float _ => value
    | .str s => .str (cutText 1000 s)
    | .list xs => .list (boundForensicItems c depth 20 xs ++ truncatedMark (xs.length - 20))
    | .tuple xs => .list (boundForensicItems c depth 20 xs ++ truncatedMark (xs.length - 20))
    | .dict d => .dict (boundForensicDict c depth 30 [] d)
    | other => .str (takeStr 1000 (c.str other))

/-- `_bound_forensic_list`; `_log.py:3554-3561`. -/
def boundForensicItems (c : Codecs) (depth : Nat) : Nat → List PyVal → List PyVal
  | 0, _ => []
  | _, [] => []
  | n + 1, x :: xs => boundForensicValue c (depth + 1) x :: boundForensicItems c depth n xs

/-- `_bound_forensic_dict`; `_log.py:3563-3571`, with the items still allowed. -/
def boundForensicDict (c : Codecs) (depth : Nat) :
    Nat → List (String × PyVal) → List (String × PyVal) → List (String × PyVal)
  | _, out, [] => out
  | 0, out, rest => dictSet out "_truncated_keys" (.list ((rest.map (.str ·.1)).take 5))
  | n + 1, out, (k, v) :: rest =>
    boundForensicDict c depth n
      (dictSet out (takeStr 80 k) (boundForensicValue c (depth + 1) v)) rest

end

/-- The payload of `attach_forensic_analysis`; `_log.py:3620-3625`. -/
def forensicPayload (c : Codecs) (findingId : String) (result : List (String × PyVal))
    (attachedAt : String) : List (String × PyVal) :=
  [("kind", .str "forensic_analysis"), ("finding_id", .str (takeStr 128 findingId)),
    ("forensic_result", boundForensicValue c 0 (.dict result)), ("attached_at", .str attachedAt)]

/-- The decision kinds; `_log.py:3709`. -/
def validKinds : List String :=
  ["bandit", "playbook", "backpressure", "delta", "alignment", "primary_chase", "drift"]

/-- `_trim_summary`; `_log.py:3667-3677`. -/
def trimSummary (c : Codecs) (summary : List (String × PyVal)) : List (String × PyVal) :=
  (summary.take 20).map fun p => (p.1, .str (cutText 200 (c.str p.2)))

/-- `_trim_reasons`; `_log.py:3679-3686`. -/
def trimReasons (reasons : List String) : List PyVal :=
  (reasons.take 8).map fun r => .str (cutText 120 r)

/-- `_trim_refs`; `_log.py:3688-3694`. -/
def trimRefs (refs : List (String × List String)) : List (String × PyVal) :=
  ["evidence_ids", "cluster_ids", "url_hashes"].map fun key =>
    (key, .list ((((refs.lookup key).getD []).take 10).map .str))

/-- The payload of `create_decision_event`; `_log.py:3709-3718`. -/
def decisionPayload (c : Codecs) (kind : String) (summary : List (String × PyVal))
    (reasons : List String) (refs : List (String × List String)) : List (String × PyVal) :=
  [("kind", .str (if kind ∈ validKinds then kind else "drift")),
    ("summary", .dict (trimSummary c summary)), ("reasons", .list (trimReasons reasons)),
    ("refs", .dict (trimRefs refs))]

/-! ### An encoder for closed examples -/

/-- Shortest decimal form of a float with at most six decimal places. -/
def floatText (q : ℚ) : String :=
  let micros := (q * 1000000).floor
  let n := micros.natAbs
  let digits := (padded 6 (n % 1000000)).toList
  let trimmed := (digits.reverse.dropWhile (· = '0')).reverse
  (if micros < 0 then "-" else "") ++ toString (n / 1000000) ++ "." ++
    (if trimmed = [] then "0" else String.ofList trimmed)

/-- An object's members, joined; sorted by key on demand. -/
def objectText (sorted : Bool) (members : List (String × String)) : String :=
  let members := if sorted then sortItems members else members
  "\x7b" ++ ",".intercalate (members.map fun p => "\"" ++ p.1 ++ "\":" ++ p.2) ++ "\x7d"

mutual

/-- Compact JSON of values whose texts need no escape and whose floats have at most six decimal
places. -/
def jsonText (sorted : Bool) : PyVal → Except PyError String
  | .none => .ok "null"
  | .bool b => .ok (if b then "true" else "false")
  | .int i => .ok (toString i)
  | .float q => .ok (floatText q)
  | .str s => .ok ("\"" ++ s ++ "\"")
  | .list xs => return "[" ++ ",".intercalate (← jsonTexts sorted xs) ++ "]"
  | .dict d => return objectText sorted (← jsonMembers sorted d)
  | _ => .error ⟨.typeError, "Type is not JSON serializable"⟩

/-- The elements of an array. -/
def jsonTexts (sorted : Bool) : List PyVal → Except PyError (List String)
  | [] => .ok []
  | x :: xs => return (← jsonText sorted x) :: (← jsonTexts sorted xs)

/-- The members of an object. -/
def jsonMembers (sorted : Bool) :
    List (String × PyVal) → Except PyError (List (String × String))
  | [] => .ok []
  | (k, v) :: rest => return (k, ← jsonText sorted v) :: (← jsonMembers sorted rest)

end

/-- Codecs that agree with the real ones on the empty dictionary and on events that hold it. -/
def plainCodecs : Codecs where
  loads bs := if bs = encode "\x7b\x7d" then .ok (.dict [])
    else .error ⟨.valueError, "unexpected character"⟩
  dumps v := encode <$> jsonText false v
  dumpsSorted v := encode <$> jsonText true v
  packb _ := .error ⟨.typeError, "Encoding objects of this type is unsupported"⟩
  str
    | .str s => s
    | .none => "None"
    | .bool b => if b then "True" else "False"
    | .int i => toString i
    | .float q => floatText q
    | _ => "object"

end Hledac.Evidence
