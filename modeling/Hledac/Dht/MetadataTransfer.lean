import Hledac.Dht.Responses
import Hledac.Lib.Chunks

/-!
# Torrent metadata over the wire

The two loops of `src/dht/metadata_fetcher.py` that read extension messages. Both take six bytes for the header of a
message, of which four are its length, and then as many bytes as the length says: the first two bytes of a message
are lost, and its last two are taken from the next one. So a handshake is never recognised, and of the pieces none
arrives; and the content of a piece is looked up in the dictionary of its message and not behind it.
-/

namespace Hledac.Dht

open Hledac.Lib Hledac.Py

/-! ### Reading -/

/-- What a connection delivers before it is closed, or falls silent for longer than a call waits. -/
structure Stream where
  data : Bytes
  closes : Bool

/-- What a call raises. -/
inductive TransferError where
  | timeout
  | incompleteRead
  | attributeError
  | structError
  | exc (e : ExcClass)
  deriving DecidableEq

/-- `readexactly` under a timeout. -/
def readExactly (n : Nat) (s : Stream) : Except TransferError (Bytes × Stream) :=
  if n ≤ s.data.length then .ok (s.data.take n, ⟨s.data.drop n, s.closes⟩)
  else .error (if s.closes then .incompleteRead else .timeout)

/-- The head of both loops, lines 120-128 and 151-157: a header of six bytes, then a message; nothing
where the length is too large. -/
def readMessage (maxLength : Nat) (s : Stream) : Except TransferError (Option Bytes × Stream) := do
  let (header, s) ← readExactly 6 s
  let length := fromBytes (header.take 4)
  if maxLength < length then
    return (none, s)
  else
    let (data, s) ← readExactly length s
    return (some data, s)

/-- `msg_data[0] if msg_data else 0`. -/
def messageId (data : Bytes) : UInt8 := data.head?.getD 0

/-! ### Messages -/

/-- `struct.pack(">I", n)`. -/
def uint32 (n : Nat) : Bytes :=
  [UInt8.ofNat (n / 16777216), UInt8.ofNat (n / 65536), UInt8.ofNat (n / 256), UInt8.ofNat n]

/-- A byte as `bytes([msg_id])` takes it. -/
def byteOf : BVal → Except TransferError UInt8
  | .int i => if 0 ≤ i ∧ i < 256 then .ok (UInt8.ofNat i.toNat) else .error (.exc .valueError)
  | _ => .error (.exc .typeError)

/-- `_build_extended_message`; lines 199-203. -/
def buildExtendedMessage (msgId payload : BVal) : Except TransferError Bytes := do
  let bencoded ← (fetcherBencode payload).mapError .exc
  let id ← byteOf msgId
  if 4294967296 ≤ bencoded.length + 1 then
    throw .structError
  return uint32 (bencoded.length + 1) ++ id :: bencoded

/-- `d.get(b"name", d.get("text", default))`. -/
def getOr (entries : List (BKey × BVal)) (name text : String) (default : BVal) : BVal :=
  (lookup entries (wireKey name)).getD ((lookup entries (.str text)).getD default)

/-- `_parse_extended_handshake`; lines 205-217. -/
def parseExtendedHandshake (limit : Nat) (data : Bytes) : BVal × BVal :=
  match decodeBencode limit data with
  | .ok (.dict decoded) =>
    match getOr decoded "m" "m" (.dict []) with
    | .dict m =>
      match getOr m "ut_metadata" "ut_metadata" .none with
      | .none => (.none, .none)
      | utId => (getOr decoded "metadata_size" "metadata_size" .none, utId)
    | _ => (.none, .none)
  | _ => (.none, .none)

/-- The value is the integer 1. -/
def isOne : BVal → Bool
  | .int i => i = 1
  | _ => false

/-- `_parse_metadata_piece`; lines 219-232. -/
def parseMetadataPiece (limit : Nat) (data : Bytes) : BVal × BVal :=
  match decodeBencode limit data with
  | .ok (.dict decoded) =>
    if isOne (getOr decoded "msg_type" "msg_type" (.int 1)) then
      (getOr decoded "piece" "piece" (.int 0), getOr decoded "metadata" "metadata" (.bytes []))
    else (.int 0, .bytes [])
  | _ => (.int 0, .bytes [])

/-! ### The two loops -/

/-- The loop of `_handshake_extended`; a pass takes at least six bytes. -/
def handshakeLoop (limit : Nat) : Nat → Stream → Except TransferError ((BVal × BVal) × Stream)
  | 0, s => .ok ((.none, .none), s)
  | fuel + 1, s =>
    match readMessage (1024 * 1024) s with
    | .error .timeout => .ok ((.none, .none), s)
    | .error e => .error e
    | .ok (none, s) => .ok ((.none, .none), s)
    | .ok (some data, s) =>
      if messageId data = 20 then .ok (parseExtendedHandshake limit data.tail, s)
      else handshakeLoop limit fuel s

/-- `_handshake_extended`, lines 113-135: `metadata_size` and the id of `ut_metadata`. -/
def handshakeExtended (limit : Nat) (s : Stream) : Except TransferError ((BVal × BVal) × Stream) := do
  let _ ← buildExtendedMessage (.int 20) (.dict [(wireKey "m", .dict [(wireKey "ut_metadata", .int 1)])])
  handshakeLoop limit (s.data.length + 1) s

/-- The value is `b""`. -/
def isEmptyBytes : BVal → Bool
  | .bytes b => b = []
  | _ => false

/-- The loop of `_request_all_pieces`, with the pieces so far and how many remain. -/
def requestLoop (limit : Nat) (utId : Int) : Nat → List BVal → Nat → Stream → Except TransferError (List BVal)
  | 0, pieces, _, _ => .ok pieces
  | _, pieces, 0, _ => .ok pieces
  | fuel + 1, pieces, remaining + 1, s =>
    match readMessage (16384 + 100) s with
    | .error .timeout => .ok pieces
    | .error e => .error e
    | .ok (none, _) => .ok pieces
    | .ok (some data, s) =>
      if (messageId data).toNat = utId then
        match parseMetadataPiece limit data.tail with
        | (.int idx, content) =>
          if 0 ≤ idx ∧ idx < pieces.length ∧ isEmptyBytes (pieces.getD idx.toNat .none) then
            requestLoop limit utId fuel (pieces.set idx.toNat content) remaining s
          else requestLoop limit utId fuel pieces (remaining + 1) s
        | _ => .error (.exc .typeError)
      else requestLoop limit utId fuel pieces (remaining + 1) s

/-- `_request_all_pieces`, lines 137-165. The requests are sent before anything is read. -/
def requestAllPieces (limit : Nat) (s : Stream) (numPieces : Nat) (utId : BVal) :
    Except TransferError (List BVal) := do
  let _ ← (List.range numPieces).mapM fun i =>
    buildExtendedMessage utId (.dict [(wireKey "msg_type", .int 0), (wireKey "piece", .int i)])
  match utId with
  | .int utId => requestLoop limit utId (s.data.length + 1) (List.replicate numPieces (.bytes [])) numPieces s
  | _ => return List.replicate numPieces (.bytes [])

/-- `b"".join(pieces)`. -/
def joinPieces : List BVal → Except TransferError Bytes
  | [] => .ok []
  | .bytes b :: rest => (joinPieces rest).map (b ++ ·)
  | _ :: _ => .error (.exc .typeError)

/-- How many pieces metadata of a size have. -/
def pieceCount (size : Nat) : Nat := (size + 16384 - 1) / 16384

/-! ### What a peer sends -/

/-- An extension message: a dictionary with entries, and bytes behind it. Its length has a byte or two, and is not
below 16. -/
structure ExtensionMessage where
  id : UInt8
  entries : List (BKey × BVal)
  text : Bytes
  rest : Bytes
  nonempty : entries ≠ []
  encodes : ∃ n, Encodes n (.value (.dict entries)) text
  long : 16 ≤ text.length + rest.length + 1
  short : text.length + rest.length + 1 < 65536

/-- The message with its length before it, as `_build_extended_message` frames one. -/
def ExtensionMessage.bytes (m : ExtensionMessage) : Bytes :=
  uint32 (m.text.length + m.rest.length + 1) ++ m.id :: (m.text ++ m.rest)

/-- A BEP-9 data message with piece number `i` of the metadata. -/
def IsPiece (metadata : Bytes) (dataId : UInt8) (i : Nat) (m : ExtensionMessage) : Prop :=
  m.id = dataId ∧ lookup m.entries (wireKey "msg_type") = some (.int 1) ∧
    lookup m.entries (wireKey "piece") = some (.int i) ∧ m.rest = chunk 16384 metadata i

/-- What a peer delivers: its handshake among other messages, and then the pieces in any order, once or more often,
among other messages. -/
structure Delivery (metadata : Bytes) where
  utId : UInt8
  dataId : UInt8
  before : List ExtensionMessage
  handshake : ExtensionMessage
  after : List ExtensionMessage
  messages : List ExtensionMessage
  nonempty : metadata ≠ []
  known : utId ≠ 0 ∧ (dataId = utId ∨ dataId = 1)
  announces : handshake.id = 20 ∧ handshake.rest = [] ∧
    lookup handshake.entries (wireKey "metadata_size") = some (.int metadata.length) ∧
    ∃ m, lookup handshake.entries (wireKey "m") = some (.dict m) ∧
      lookup m (wireKey "ut_metadata") = some (.int utId.toNat)
  foreign : (∀ m ∈ before ++ after, m.id ≠ 20) ∧
    ∀ m ∈ messages, m.id = dataId → ∃ i < pieceCount metadata.length, IsPiece metadata dataId i m
  covers : ∀ i < pieceCount metadata.length, ∃ m ∈ messages, IsPiece metadata dataId i m

/-- The handshake gives the peer's size and id, on what the peer sends until then. -/
def Delivery.Greets {metadata : Bytes} (limit : Nat) (d : Delivery metadata) (closes : Bool) : Prop :=
  ∃ s, handshakeExtended limit ⟨(d.before ++ d.handshake :: d.after).flatMap ExtensionMessage.bytes, closes⟩ =
    .ok ((.int metadata.length, .int d.utId.toNat), s)

/-- The pieces that are collected make up the metadata. -/
def Delivery.Arrives {metadata : Bytes} (limit : Nat) (d : Delivery metadata) (closes : Bool) : Prop :=
  ∃ pieces, requestAllPieces limit ⟨d.messages.flatMap ExtensionMessage.bytes, closes⟩ (pieceCount metadata.length)
    (.int d.utId.toNat) = .ok pieces ∧ joinPieces pieces = .ok metadata

/-! ### The loops end -/

section Ending

variable {s t : Stream}

theorem length_of_readExactly {n : Nat} {data : Bytes} (h : readExactly n s = .ok (data, t)) :
    t.data.length + n = s.data.length := by
  rw [readExactly] at h
  split at h
  · next hle =>
    cases h
    rw [List.length_drop]
    omega
  · cases h

theorem length_of_readMessage {maxLength : Nat} {data : Option Bytes} (h : readMessage maxLength s = .ok (data, t)) :
    t.data.length < s.data.length := by
  rw [readMessage] at h
  obtain ⟨⟨header, u⟩, hheader, h⟩ := Raising.bind_eq_ok_iff.1 h
  have hfirst := length_of_readExactly hheader
  dsimp only at h
  split at h
  · cases h
    omega
  · obtain ⟨⟨body, v⟩, hbody, h⟩ := Raising.bind_eq_ok_iff.1 h
    have hsecond := length_of_readExactly hbody
    cases h
    show v.data.length < s.data.length
    omega

theorem handshakeLoop_bound (limit : Nat) {fuel : Nat} (h : s.data.length < fuel) :
    handshakeLoop limit (fuel + 1) s = handshakeLoop limit fuel s := by
  induction fuel generalizing s with
  | zero => omega
  | succ fuel ih =>
    rw [handshakeLoop, handshakeLoop]
    cases hread : readMessage (1024 * 1024) s with
    | error e => cases e <;> rfl
    | ok p =>
      obtain ⟨data, t⟩ := p
      have hless := length_of_readMessage hread
      cases data with
      | none => rfl
      | some data =>
        dsimp only
        rw [ih (s := t) (by omega)]

theorem requestLoop_bound (limit : Nat) (utId : Int) {fuel : Nat} (pieces : List BVal) (remaining : Nat)
    (h : s.data.length < fuel) :
    requestLoop limit utId (fuel + 1) pieces remaining s = requestLoop limit utId fuel pieces remaining s := by
  induction fuel generalizing s pieces remaining with
  | zero => omega
  | succ fuel ih =>
    cases remaining with
    | zero => rfl
    | succ remaining =>
      rw [requestLoop, requestLoop]
      cases hread : readMessage (16384 + 100) s with
      | error e => cases e <;> rfl
      | ok p =>
        obtain ⟨data, t⟩ := p
        have hless := length_of_readMessage hread
        cases data with
        | none => rfl
        | some data =>
          have hrest : t.data.length < fuel := by omega
          dsimp only
          simp only [ih _ _ hrest]

end Ending

/-! ### Misaligned reads -/

section Reading

variable {limit maxLength : Nat} {closes : Bool}

theorem readExactly_append {n : Nat} {front rest : Bytes} (h : front.length = n) :
    readExactly n ⟨front ++ rest, closes⟩ = .ok (front, ⟨rest, closes⟩) := by
  have hle : n ≤ (front ++ rest).length := by
    rw [List.length_append]
    omega
  rw [readExactly, if_pos hle, List.take_left' h, List.drop_left' h]

/-- A digit or a colon, as they follow the first digit of the length of a key. -/
def BeginsKey (x : UInt8) : Prop := isAsciiDigit x = true ∨ x = ascii ':'

/-- The shape of a message: a length of two bytes, the id, the start of a dictionary and of the length of a key. -/
theorem ExtensionMessage.bytes_eq (m : ExtensionMessage) : ∃ hi lo digit next tail,
    m.bytes = [0, 0, hi, lo, m.id, ascii 'd'] ++ (digit :: next :: tail) ∧
      hi.toNat * 256 + lo.toNat = tail.length + 4 ∧ 16 ≤ tail.length + 4 ∧
      isAsciiDigit digit = true ∧ BeginsKey next := by
  have hlong := m.long
  have hshort := m.short
  obtain ⟨n, henc⟩ := m.encodes
  obtain ⟨digit, next, tail, htext, hdigit, hnext⟩ :
      ∃ digit next tail, m.text = ascii 'd' :: digit :: next :: tail ∧ isAsciiDigit digit = true ∧ BeginsKey next := by
    have hne := m.nonempty
    generalize m.entries = entries at henc hne
    generalize m.text = text at henc
    cases henc with
    | dict hbody hkeys =>
      cases hbody with
      | noEntries => exact absurd rfl hne
      | entry hfirst hsecond hrest =>
        cases hfirst with
        | bytes hlength =>
          obtain ⟨hne, hall, -, -⟩ := digitsValue_eq_some hlength
          obtain ⟨digit, digits, rfl⟩ := List.exists_cons_of_ne_nil hne
          cases digits with
          | nil => exact ⟨digit, ascii ':', _, rfl, hall _ List.mem_cons_self, .inr rfl⟩
          | cons next digits =>
            exact ⟨digit, next, _, rfl, hall _ List.mem_cons_self,
              .inl (hall _ (List.mem_cons_of_mem _ List.mem_cons_self))⟩
  have hlength : m.text.length + m.rest.length + 1 = (tail ++ m.rest).length + 4 := by
    rw [htext, List.length_append]
    simp only [List.length_cons]
    omega
  rw [hlength] at hlong hshort
  refine ⟨UInt8.ofNat (((tail ++ m.rest).length + 4) / 256), UInt8.ofNat ((tail ++ m.rest).length + 4), digit, next,
    tail ++ m.rest, ?_, ?_, hlong, hdigit, hnext⟩
  · have hzero : ((tail ++ m.rest).length + 4) / 16777216 = 0 := Nat.div_eq_of_lt (by omega)
    have hzero' : ((tail ++ m.rest).length + 4) / 65536 = 0 := Nat.div_eq_of_lt hshort
    rw [ExtensionMessage.bytes, uint32, hlength, hzero, hzero', htext]
    rfl
  · simp only [UInt8.toNat_ofNat']
    omega

theorem readMessage_nil : readMessage maxLength ⟨[], closes⟩ = .error (if closes then .incompleteRead else .timeout) :=
  rfl

theorem readMessage_misaligned (hmax : maxLength ≤ 1048576) (m : ExtensionMessage) (more : Bytes) :
    ∃ s, readMessage maxLength ⟨m.bytes.drop 2 ++ more, closes⟩ = .ok (none, s) := by
  obtain ⟨hi, lo, digit, next, tail, hbytes, hlength, hlong, -, -⟩ := m.bytes_eq
  have hdata : m.bytes.drop 2 ++ more = [hi, lo, m.id, ascii 'd', digit, next] ++ (tail ++ more) := by
    rw [hbytes]
    rfl
  have hlarge : maxLength < fromBytes [hi, lo, m.id, ascii 'd'] := by
    have hd : (ascii 'd').toNat = 100 := rfl
    simp only [fromBytes, List.foldl_cons, List.foldl_nil, hd]
    omega
  have hheader : readExactly 6 ⟨[hi, lo, m.id, ascii 'd', digit, next] ++ (tail ++ more), closes⟩ =
      .ok ([hi, lo, m.id, ascii 'd', digit, next], ⟨tail ++ more, closes⟩) := readExactly_append rfl
  refine ⟨⟨tail ++ more, closes⟩, ?_⟩
  rw [hdata, readMessage, hheader]
  exact if_pos hlarge

theorem readMessage_bytes (maxLength : Nat) (closes : Bool) (m : ExtensionMessage) (rest : List ExtensionMessage) :
    let data := (m :: rest).flatMap ExtensionMessage.bytes
    (∃ s, readMessage maxLength ⟨data, closes⟩ = .ok (none, s)) ∨
      readMessage maxLength ⟨data, closes⟩ = .error (if closes then .incompleteRead else .timeout) ∨
      ∃ digit next tail s, readMessage maxLength ⟨data, closes⟩ = .ok (some (digit :: next :: tail), s) ∧
        isAsciiDigit digit = true ∧ BeginsKey next ∧
          ∀ max ≤ 1048576, ∃ t, readMessage max s = .ok (none, t) := by
  intro data
  obtain ⟨hi, lo, digit, next, tail, hbytes, hlength, hlong, hdigit, hnext⟩ := m.bytes_eq
  have hdata : data = [0, 0, hi, lo, m.id, ascii 'd'] ++
      (digit :: next :: tail ++ rest.flatMap ExtensionMessage.bytes) := by
    rw [← List.append_assoc, ← hbytes]
    exact List.flatMap_cons
  have hvalue : fromBytes [0, 0, hi, lo] = tail.length + 4 := by
    rw [← hlength]
    simp [fromBytes]
  have hheader : readExactly 6 ⟨data, closes⟩ =
      .ok ([0, 0, hi, lo, m.id, ascii 'd'],
        ⟨digit :: next :: tail ++ rest.flatMap ExtensionMessage.bytes, closes⟩) := by
    rw [hdata]
    exact readExactly_append rfl
  have hread : readMessage maxLength ⟨data, closes⟩ =
      if maxLength < tail.length + 4 then
        .ok (none, ⟨digit :: next :: tail ++ rest.flatMap ExtensionMessage.bytes, closes⟩)
      else do
        let (data, s) ← readExactly (tail.length + 4)
          ⟨digit :: next :: tail ++ rest.flatMap ExtensionMessage.bytes, closes⟩
        return (some data, s) := by
    rw [readMessage, hheader, ← hvalue]
    rfl
  rw [hread]
  by_cases hmax : maxLength < tail.length + 4
  · rw [if_pos hmax]
    exact .inl ⟨_, rfl⟩
  · rw [if_neg hmax]
    right
    cases rest with
    | nil =>
      left
      have hshort : ¬ tail.length + 4 ≤ (digit :: next :: tail ++ []).length := by
        simp only [List.append_nil, List.length_cons]
        omega
      rw [List.flatMap_nil, readExactly, if_neg hshort]
      rfl
    | cons m' rest =>
      right
      obtain ⟨hi', lo', digit', next', tail', hbytes', -⟩ := m'.bytes_eq
      have htwo : (m' :: rest).flatMap ExtensionMessage.bytes =
          [0, 0] ++ (m'.bytes.drop 2 ++ rest.flatMap ExtensionMessage.bytes) := by
        rw [List.flatMap_cons, hbytes']
        rfl
      have hsplit : digit :: next :: tail ++ (m' :: rest).flatMap ExtensionMessage.bytes =
          digit :: next :: (tail ++ [0, 0]) ++ (m'.bytes.drop 2 ++ rest.flatMap ExtensionMessage.bytes) := by
        rw [htwo]
        simp
      have hcount : (digit :: next :: (tail ++ [0, 0])).length = tail.length + 4 := by simp
      rw [hsplit, readExactly_append hcount]
      exact ⟨digit, next, tail ++ [0, 0], _, rfl, hdigit, hnext, fun max hmax => readMessage_misaligned hmax m' _⟩

theorem decodeBencode_ne_dict (limit : Nat) {x : UInt8} (hx : BeginsKey x) (data : Bytes)
    (entries : List (BKey × BVal)) :
    decodeBencode limit (x :: data) ≠ .ok (.dict entries) := by
  have hother : ∀ ch : Char, isAsciiDigit (ascii ch) = false → ascii ch ≠ ascii ':' → x ≠ ascii ch := by
    rintro ch hdigit hcolon rfl
    cases hx with
    | inl h =>
      rw [hdigit] at h
      cases h
    | inr h => exact hcolon h
  intro h
  obtain ⟨rest, hread⟩ : ∃ rest, fetcherReader.read limit (x :: data) = .ok (.dict entries, rest) := by
    rw [decodeBencode] at h
    cases hr : fetcherReader.read limit (x :: data) with
    | error e =>
      rw [hr] at h
      cases h
    | ok p =>
      obtain ⟨v, rest⟩ := p
      rw [hr] at h
      cases h
      exact ⟨rest, rfl⟩
  cases limit with
  | zero => cases hread
  | succ limit =>
    rw [Reader.read, if_neg (hother 'd' (by decide) (by decide)), if_neg (hother 'l' (by decide) (by decide)),
      if_neg (hother 'i' (by decide) (by decide))] at hread
    split at hread
    · obtain ⟨p, -, hread⟩ := Raising.bind_eq_ok_iff.1 hread
      obtain ⟨length, -, hread⟩ := Raising.bind_eq_ok_iff.1 hread
      obtain ⟨q, -, hread⟩ := Raising.bind_eq_ok_iff.1 hread
      cases hread
    · cases hread

theorem parseMetadataPiece_beginsKey {x : UInt8} (hx : BeginsKey x) (data : Bytes) :
    parseMetadataPiece limit (x :: data) = (.int 0, .bytes []) := by
  have hnot := decodeBencode_ne_dict limit hx data
  rw [parseMetadataPiece]
  split
  · next decoded hdecoded => exact absurd hdecoded (hnot decoded)
  · rfl

theorem handshakeLoop_bytes (limit : Nat) (closes : Bool) (fuel : Nat) (messages : List ExtensionMessage) :
    (∃ s, handshakeLoop limit fuel ⟨messages.flatMap ExtensionMessage.bytes, closes⟩ = .ok ((.none, .none), s)) ∨
      handshakeLoop limit fuel ⟨messages.flatMap ExtensionMessage.bytes, closes⟩ = .error .incompleteRead := by
  have hend : ∀ n s, readMessage (1024 * 1024) s = .error (if closes then .incompleteRead else .timeout) →
      (∃ t, handshakeLoop limit (n + 1) s = .ok ((.none, .none), t)) ∨
        handshakeLoop limit (n + 1) s = .error .incompleteRead := by
    intro n s hread
    rw [handshakeLoop, hread]
    cases closes with
    | true => exact .inr rfl
    | false => exact .inl ⟨_, rfl⟩
  cases fuel with
  | zero => exact .inl ⟨_, rfl⟩
  | succ fuel =>
    cases messages with
    | nil => exact hend fuel _ readMessage_nil
    | cons m rest =>
      rcases readMessage_bytes (1024 * 1024) closes m rest with ⟨s, hread⟩ | hread |
        ⟨digit, next, tail, s, hread, hdigit, -, hafter⟩
      · rw [handshakeLoop, hread]
        exact .inl ⟨_, rfl⟩
      · exact hend fuel _ hread
      · left
        have hid : messageId (digit :: next :: tail) ≠ 20 := by
          show digit ≠ 20
          rintro rfl
          exact absurd hdigit (by decide)
        rw [handshakeLoop, hread]
        dsimp only
        rw [if_neg hid]
        cases fuel with
        | zero => exact ⟨_, rfl⟩
        | succ fuel =>
          obtain ⟨t, hread⟩ := hafter (1024 * 1024) (by decide)
          rw [handshakeLoop, hread]
          exact ⟨_, rfl⟩

/-- No piece arrives. -/
theorem requestLoop_bytes (limit : Nat) (closes : Bool) (utId : Int) (fuel count : Nat)
    (messages : List ExtensionMessage) :
    requestLoop limit utId fuel (List.replicate count (.bytes [])) count
        ⟨messages.flatMap ExtensionMessage.bytes, closes⟩ = .ok (List.replicate count (.bytes [])) ∨
      requestLoop limit utId fuel (List.replicate count (.bytes [])) count
        ⟨messages.flatMap ExtensionMessage.bytes, closes⟩ = .error .incompleteRead := by
  have hend : ∀ n pieces remaining s,
      readMessage (16384 + 100) s = .error (if closes then .incompleteRead else .timeout) →
      requestLoop limit utId n pieces remaining s = .ok pieces ∨
        requestLoop limit utId n pieces remaining s = .error .incompleteRead := by
    intro n pieces remaining s hread
    cases n with
    | zero => exact .inl rfl
    | succ n =>
      cases remaining with
      | zero => exact .inl rfl
      | succ remaining =>
        rw [requestLoop, hread]
        cases closes with
        | true => exact .inr rfl
        | false => exact .inl rfl
  -- after a message that is read with the wrong bytes, the next one seems too long
  have hstop : ∀ n pieces remaining s, (∃ t, readMessage (16384 + 100) s = .ok (none, t)) →
      requestLoop limit utId n pieces remaining s = .ok pieces := by
    intro n pieces remaining s hread
    obtain ⟨t, hread⟩ := hread
    cases n with
    | zero => rfl
    | succ n =>
      cases remaining with
      | zero => rfl
      | succ remaining => rw [requestLoop, hread]
  cases messages with
  | nil => exact hend fuel _ _ _ readMessage_nil
  | cons m rest =>
    rcases readMessage_bytes (16384 + 100) closes m rest with hread | hread |
      ⟨digit, next, tail, s, hread, -, hnext, hafter⟩
    · exact .inl (hstop fuel _ _ _ hread)
    · exact hend fuel _ _ _ hread
    · left
      have hnone := hafter (16384 + 100) (by decide)
      cases fuel with
      | zero => rfl
      | succ fuel =>
        cases count with
        | zero => rfl
        | succ count =>
          have hsame : (List.replicate (count + 1) (BVal.bytes [])).set 0 (.bytes []) =
              List.replicate (count + 1) (.bytes []) := rfl
          rw [requestLoop, hread]
          dsimp only [List.tail_cons]
          rw [parseMetadataPiece_beginsKey hnext]
          dsimp only
          rw [Int.toNat_zero, hsame]
          split
          · split
            · exact hstop fuel _ _ _ hnone
            · exact hstop fuel _ _ _ hnone
          · exact hstop fuel _ _ _ hnone

theorem joinPieces_replicate (n : Nat) : joinPieces (List.replicate n (.bytes [])) = .ok [] := by
  induction n with
  | zero => rfl
  | succ n ih =>
    rw [List.replicate_succ, joinPieces, ih]
    rfl

theorem Delivery.not_greets {metadata : Bytes} (d : Delivery metadata) : ¬ d.Greets limit closes := by
  intro ⟨s, h⟩
  rw [handshakeExtended] at h
  obtain ⟨sent, -, h⟩ := Raising.bind_eq_ok_iff.1 h
  rcases handshakeLoop_bytes limit closes _ (d.before ++ d.handshake :: d.after) with
    ⟨t, hloop⟩ | hloop
  · cases hloop.symm.trans h
  · cases hloop.symm.trans h

theorem Delivery.not_arrives {metadata : Bytes} (d : Delivery metadata) : ¬ d.Arrives limit closes := by
  intro ⟨pieces, h, hjoin⟩
  rw [requestAllPieces] at h
  obtain ⟨sent, -, h⟩ := Raising.bind_eq_ok_iff.1 h
  rcases requestLoop_bytes limit closes _ _ (pieceCount metadata.length) d.messages with
    hloop | hloop
  · have hpieces := Except.ok.inj (hloop.symm.trans h)
    rw [← hpieces, joinPieces_replicate] at hjoin
    exact d.nonempty (Except.ok.inj hjoin).symm
  · cases hloop.symm.trans h

end Reading

/-! ### A plain delivery -/

section Plain

variable {metadata : Bytes} {n : Nat}

/-- ASCII text as bytes. -/
def wire (text : String) : Bytes := text.toList.map ascii

/-- An integer that is not negative, as it is encoded. -/
def intText (n : Nat) : Bytes := ascii 'i' :: ((Nat.toDigits 10 n).map ascii ++ [ascii 'e'])

theorem one_lt_bound : 1 < 10 ^ maxStrDigits := Nat.one_lt_pow (by decide) (by decide)

theorem length_intText (h : n < 10 ^ maxStrDigits) : (intText n).length ≤ maxStrDigits + 2 := by
  have hdigits := (Nat.length_toDigits_le_iff (b := 10) (by decide) (show 0 < maxStrDigits by decide)).2 h
  simp only [intText, List.length_cons, List.length_append, List.length_map, List.length_nil]
  omega

theorem encodes_intText (h : n < 10 ^ maxStrDigits) (depth : Nat) :
    Encodes (depth + 1) (.value (.int n)) (intText n) := by
  apply Encodes.int
  apply strictInt_of_intBytes
  have hdigits := (Nat.length_toDigits_le_iff (b := 10) (by decide) (show 0 < maxStrDigits by decide)).2 h
  have hlength : (toString n).length ≤ maxStrDigits := by
    rwa [Nat.toString_eq_ofList_toDigits, String.length_ofList]
  show natBytes n = _
  rw [natBytes, natText, if_pos hlength, Option.map_some, Nat.toString_eq_ofList_toDigits, String.toList_ofList]

/-- The header of piece `i` of metadata of a size. -/
def headerText (i size : Nat) : Bytes :=
  ascii 'd' :: ((wire "8" ++ ascii ':' :: wire "msg_type") ++ (intText 1 ++
    ((wire "5" ++ ascii ':' :: wire "piece") ++ (intText i ++
      ((wire "10" ++ ascii ':' :: wire "total_size") ++ (intText size ++ []))))) ++ [ascii 'e'])

/-- The entries of the header. -/
def headerEntries (i size : Nat) : List (BKey × BVal) :=
  [(wireKey "msg_type", .int (1 : Nat)), (wireKey "piece", .int i), (wireKey "total_size", .int size)]

theorem encodes_headerText {i size : Nat} (hi : i < 10 ^ maxStrDigits) (hsize : size < 10 ^ maxStrDigits) :
    Encodes 2 (.value (.dict (headerEntries i size))) (headerText i size) := by
  apply Encodes.dict
  · apply Encodes.entry (.bytes rfl) (encodes_intText one_lt_bound 0)
    apply Encodes.entry (.bytes rfl) (encodes_intText hi 0)
    exact Encodes.entry (.bytes rfl) (encodes_intText hsize 0) .noEntries
  · simp [headerEntries, wireKey, ascii]

/-- The text of a handshake that announces the id 1 and a size. -/
def greetingText (size : Nat) : Bytes :=
  ascii 'd' :: ((wire "1" ++ ascii ':' :: wire "m") ++
    ((ascii 'd' :: ((wire "11" ++ ascii ':' :: wire "ut_metadata") ++ (intText 1 ++ []) ++ [ascii 'e'])) ++
      ((wire "13" ++ ascii ':' :: wire "metadata_size") ++ (intText size ++ []))) ++ [ascii 'e'])

/-- The entries of the handshake. -/
def greetingEntries (size : Nat) : List (BKey × BVal) :=
  [(wireKey "m", .dict [(wireKey "ut_metadata", .int (1 : Nat))]), (wireKey "metadata_size", .int size)]

theorem encodes_greetingText {size : Nat} (hsize : size < 10 ^ maxStrDigits) :
    Encodes 3 (.value (.dict (greetingEntries size))) (greetingText size) := by
  apply Encodes.dict
  · apply Encodes.entry (.bytes rfl)
    · apply Encodes.dict
      · exact Encodes.entry (.bytes rfl) (encodes_intText one_lt_bound 0) .noEntries
      · exact List.nodup_singleton _
    · exact Encodes.entry (.bytes rfl) (encodes_intText hsize 1) .noEntries
  · simp [greetingEntries, wireKey, ascii]

/-- A message with a piece of the metadata. -/
def pieceMessage (hsize : metadata.length < 10 ^ maxStrDigits) (i : Nat) (hi : i < 10 ^ maxStrDigits) :
    ExtensionMessage where
  id := 1
  entries := headerEntries i metadata.length
  text := headerText i metadata.length
  rest := chunk 16384 metadata i
  nonempty := List.cons_ne_nil _ _
  encodes := ⟨2, encodes_headerText hi hsize⟩
  long := by
    simp only [headerText, List.length_cons, List.length_append, wire, List.length_map]
    have : "msg_type".toList.length = 8 := rfl
    have : "total_size".toList.length = 10 := rfl
    omega
  short := by
    have hchunk : (chunk 16384 metadata i).length ≤ 16384 := List.length_take_le _ _
    have hpiece := length_intText hi
    have htotal := length_intText hsize
    have hone : (intText 1).length = 3 := rfl
    have hmax : maxStrDigits = 4300 := rfl
    have hheader : (headerText i metadata.length).length =
        32 + (intText 1).length + (intText i).length + (intText metadata.length).length := by
      simp only [headerText, List.length_cons, List.length_append, List.length_nil]
      have h1 : (wire "8").length = 1 := rfl
      have h2 : (wire "msg_type").length = 8 := rfl
      have h3 : (wire "5").length = 1 := rfl
      have h4 : (wire "piece").length = 5 := rfl
      have h5 : (wire "10").length = 2 := rfl
      have h6 : (wire "total_size").length = 10 := rfl
      omega
    omega

/-- The peer's handshake. -/
def greetingMessage (hsize : metadata.length < 10 ^ maxStrDigits) : ExtensionMessage where
  id := 20
  entries := greetingEntries metadata.length
  text := greetingText metadata.length
  rest := []
  nonempty := List.cons_ne_nil _ _
  encodes := ⟨3, encodes_greetingText hsize⟩
  long := by
    simp only [greetingText, List.length_cons, List.length_append, wire, List.length_map]
    have : "ut_metadata".toList.length = 11 := rfl
    have : "metadata_size".toList.length = 13 := rfl
    omega
  short := by
    have htotal := length_intText hsize
    have hone : (intText 1).length = 3 := rfl
    have hmax : maxStrDigits = 4300 := rfl
    have h1 : (wire "1").length = 1 := rfl
    have h2 : (wire "m").length = 1 := rfl
    have h3 : (wire "11").length = 2 := rfl
    have h4 : (wire "ut_metadata").length = 11 := rfl
    have h5 : (wire "13").length = 2 := rfl
    have h6 : (wire "metadata_size").length = 13 := rfl
    simp only [greetingText, List.length_cons, List.length_append, List.length_nil]
    omega

theorem le_of_lt_pieceCount {i size : Nat} (h : i < pieceCount size) : i ≤ size := by
  rw [pieceCount] at h
  omega

/-- All pieces in order, with nothing between them. -/
def plainDelivery (hne : metadata ≠ []) (hsize : metadata.length < 10 ^ maxStrDigits) : Delivery metadata where
  utId := 1
  dataId := 1
  before := []
  handshake := greetingMessage hsize
  after := []
  messages := (List.finRange (pieceCount metadata.length)).map fun i =>
    pieceMessage hsize i.1 (Nat.lt_of_le_of_lt (le_of_lt_pieceCount i.2) hsize)
  nonempty := hne
  known := ⟨by decide, .inl rfl⟩
  announces := ⟨rfl, rfl, rfl, _, rfl, rfl⟩
  foreign := by
    constructor
    · intro m hm
      cases hm
    · intro m hm _
      obtain ⟨i, -, rfl⟩ := List.mem_map.1 hm
      exact ⟨i.1, i.2, rfl, rfl, rfl, rfl⟩
  covers := by
    intro i hi
    exact ⟨_, List.mem_map_of_mem (List.mem_finRange ⟨i, hi⟩), rfl, rfl, rfl, rfl⟩

end Plain

end Hledac.Dht
