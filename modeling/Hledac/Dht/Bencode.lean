import Mathlib.Data.List.Lex
import Hledac.Py.Parse

/-!
# The three bencode codecs

`bencode` and `bdecode` of the DHT node, `_bencode` and `_bdecode` of the same class, and `_bencode` and
`_decode_bencode` of the metadata fetcher. The encoders differ in the order of the entries and in what they
make of `None`, the decoders in what they do with malformed data. A number is the count of nested calls that
the interpreter allows. Booleans and `bytearray` are left out.
-/

namespace Hledac.Dht

open Hledac.Lib Hledac.Py

/-- The keys of dictionaries: values that have a hash. -/
inductive BKey where
  | none
  | int (i : Int)
  | bytes (b : Bytes)
  | str (s : String)
  deriving DecidableEq

/-- Values that are encoded, or that a decoder returns. -/
inductive BVal where
  | none
  | int (i : Int)
  | bytes (b : Bytes)
  | list (items : List BVal)
  | dict (entries : List (BKey × BVal))

/-- The classes of the exceptions. -/
inductive ExcClass where
  | valueError
  | indexError
  | typeError
  | recursionError
  deriving DecidableEq

/-- The byte of an ASCII character. -/
def ascii (ch : Char) : UInt8 := UInt8.ofNat ch.toNat

/-! ### Numbers -/

/-- The character of a byte, as far as ASCII goes. -/
def latin (x : UInt8) : Char := Char.ofNat x.toNat

/-- The blanks that `int` skips in bytes. -/
def isByteSpace (ch : Char) : Bool := (9 ≤ ch.toNat && ch.toNat ≤ 13) || ch.toNat == 32

/-- `int` of bytes. -/
def intOfBytes (text : Bytes) : Option Int :=
  let cs := ((text.map latin).dropWhile isByteSpace).rdropWhile isByteSpace
  if cs.head? = some '-' then (readNat cs.tail).map fun n : Nat => -(n : Int)
  else if cs.head? = some '+' then (readNat cs.tail).map fun n : Nat => (n : Int)
  else (readNat cs).map fun n : Nat => (n : Int)

/-- The decimal digits of a number; `none` where it has too many for `str`. -/
def natBytes (n : Nat) : Option Bytes := (natText n).map fun text => text.toList.map ascii

/-- `str(i).encode()`. -/
def intBytes : Int → Option Bytes
  | .ofNat n => natBytes n
  | .negSucc n => (natBytes (n + 1)).map (ascii '-' :: ·)

/-! ### Encoders -/

/-- Keys of one type. -/
def BKey.rank : BKey → Nat
  | .none => 0
  | .int _ => 1
  | .bytes _ => 2
  | .str _ => 3

/-- The order that `sorted` uses on keys of one type. -/
def BKey.le : BKey → BKey → Bool
  | .int i, .int j => i ≤ j
  | .bytes a, .bytes b => a.map UInt8.toNat ≤ b.map UInt8.toNat
  | .str s, .str t => s.toList.map Char.toNat ≤ t.toList.map Char.toNat
  | a, b => a.rank ≤ b.rank

/-- `sorted` can compare the keys. -/
def comparable (keys : List BKey) : Bool := keys.all fun a => keys.all fun b => a.rank == b.rank

/-- Entries in the order of their keys, where they are sorted. -/
def arrange {β : Type} (sorts : Bool) (entries : List (BKey × β)) : List (BKey × β) :=
  if sorts then entries.insertionSort fun a b => a.1.le b.1 = true else entries

/-- What an encoder writes for `None`, and whether it sorts the keys. -/
structure Writer where
  none : Except ExcClass Bytes
  sorts : Bool

namespace Writer

variable (w : Writer)

/-- A number that is written, or is too long. -/
def text (bytes : Option Bytes) : Except ExcClass Bytes :=
  match bytes with
  | some bytes => .ok bytes
  | .none => .error .valueError

/-- `f"i{obj}e".encode()`. -/
def int (i : Int) : Except ExcClass Bytes := do
  let digits ← text (intBytes i)
  return ascii 'i' :: (digits ++ [ascii 'e'])

/-- `f"{len(obj)}:".encode() + obj`. -/
def bytes (b : Bytes) : Except ExcClass Bytes := do
  let digits ← text (natBytes b.length)
  return digits ++ ascii ':' :: b

/-- A key. -/
def key : BKey → Except ExcClass Bytes
  | .none => w.none
  | .int i => int i
  | .bytes b => bytes b
  | .str s => bytes (encode s)

/-- `sorted(obj.keys())` raises where keys have no common order. -/
def check (keys : List BKey) : Except ExcClass Unit :=
  if w.sorts && !comparable keys then .error .typeError else .ok ()

mutual

/-- The encoding of a value. -/
def write : BVal → Except ExcClass Bytes
  | .none => w.none
  | .int i => int i
  | .bytes b => bytes b
  | .list items => do
    let body ← writeItems items
    return ascii 'l' :: (body ++ [ascii 'e'])
  | .dict entries => do
    w.check (entries.map Prod.fst)
    let entries ← writeEntries entries
    return ascii 'd' :: (((arrange w.sorts entries).map Prod.snd).flatten ++ [ascii 'e'])

/-- The encodings of the items of a list, joined. -/
def writeItems : List BVal → Except ExcClass Bytes
  | [] => .ok []
  | v :: rest => do
    let first ← write v
    let rest ← writeItems rest
    return first ++ rest

/-- The encodings of the entries of a dictionary, with their keys. -/
def writeEntries : List (BKey × BVal) → Except ExcClass (List (BKey × Bytes))
  | [] => .ok []
  | (k, v) :: rest => do
    let first ← w.key k
    let second ← write v
    let rest ← writeEntries rest
    return (k, first ++ second) :: rest

end

end Writer

/-- `bencode`; `dht/kademlia_node.py:345-371`. -/
def bencode : BVal → Except ExcClass Bytes := Writer.write ⟨.error .typeError, false⟩

/-- `KademliaNode._bencode`; `kademlia_node.py:1684-1702`. -/
def nodeBencode : BVal → Except ExcClass Bytes := Writer.write ⟨.ok [], true⟩

/-- `TorrentMetadataFetcher._bencode`; `dht/metadata_fetcher.py:234-253`. -/
def fetcherBencode : BVal → Except ExcClass Bytes := Writer.write ⟨Writer.bytes (encode "None"), true⟩

/-! ### Decoders -/

/-- How a decoder goes on where data are malformed. -/
structure Reader (ε : Type) where
  /-- Too many nested calls. -/
  tooDeep : ε
  /-- A terminator is not found. -/
  missing : ε
  /-- A value is wanted at the end of the data. -/
  atEnd : Except ε BVal
  /-- The data end in a container. -/
  unclosed : Except ε Unit
  /-- The data end in a string. -/
  short : Except ε Unit
  /-- A string starts with such a byte. -/
  isDigit : UInt8 → Bool
  /-- No value starts with the byte. -/
  unknown : Except ε BVal
  int : Bytes → Except ε Int
  length : Bytes → Except ε Nat
  /-- The key for a value, or none where the entry is left out. -/
  key : BVal → Except ε (Option BKey)
  /-- A key comes again. -/
  again : Except ε Unit

/-- `d[key] = value`: an existing key keeps its place. -/
def assignEntry (entries : List (BKey × BVal)) (key : BKey) (value : BVal) : List (BKey × BVal) :=
  if key ∈ entries.map Prod.fst then entries.map fun e => if e.1 = key then (key, value) else e
  else entries ++ [(key, value)]

namespace Reader

variable {ε : Type} (r : Reader ε)

/-- What stands before a terminator and after it. -/
def upTo (stop : UInt8) (data : Bytes) : Except ε (Bytes × Bytes) :=
  match data.dropWhile (· ≠ stop) with
  | [] => .error r.missing
  | _ :: rest => .ok (data.takeWhile (· ≠ stop), rest)

/-- A number of bytes. -/
def slice (length : Nat) (data : Bytes) : Except ε (Bytes × Bytes) := do
  if data.length < length then r.short
  return (data.take length, data.drop length)

/-- The loop over the items of a list; the first argument reads a value, the number bounds the loop. -/
def items (value : Bytes → Except ε (BVal × Bytes)) : Nat → Bytes → Except ε (List BVal × Bytes)
  | bound + 1, ch :: rest =>
    if ch = ascii 'e' then .ok ([], rest)
    else do
      let (first, data) ← value (ch :: rest)
      let (more, data) ← items value bound data
      return (first :: more, data)
  | _, _ => do
    r.unclosed
    return ([], [])

/-- The entries after one more. -/
def assign (entries : List (BKey × BVal)) (key value : BVal) : Except ε (List (BKey × BVal)) := do
  let key ← r.key key
  match key with
  | none => return entries
  | some key =>
    if key ∈ entries.map Prod.fst then r.again
    return assignEntry entries key value

/-- The loop over the entries of a dictionary, after those that are read already. -/
def entries (value : Bytes → Except ε (BVal × Bytes)) :
    Nat → List (BKey × BVal) → Bytes → Except ε (List (BKey × BVal) × Bytes)
  | bound + 1, before, ch :: rest =>
    if ch = ascii 'e' then .ok (before, rest)
    else do
      let (first, data) ← value (ch :: rest)
      let (second, data) ← value data
      let before ← r.assign before first second
      entries value bound before data
  | _, before, _ => do
    r.unclosed
    return (before, [])

/-- A value and the data after it. -/
def read : Nat → Bytes → Except ε (BVal × Bytes)
  | 0, _ => .error r.tooDeep
  | _ + 1, [] => do
    let v ← r.atEnd
    return (v, [])
  | depth + 1, ch :: rest =>
    if ch = ascii 'd' then do
      let (entries, data) ← r.entries (read depth) rest.length [] rest
      return (.dict entries, data)
    else if ch = ascii 'l' then do
      let (items, data) ← r.items (read depth) rest.length rest
      return (.list items, data)
    else if ch = ascii 'i' then do
      let (text, data) ← r.upTo (ascii 'e') rest
      let i ← r.int text
      return (.int i, data)
    else if r.isDigit ch then do
      let (text, data) ← r.upTo (ascii ':') (ch :: rest)
      let length ← r.length text
      let (b, data) ← r.slice length data
      return (.bytes b, data)
    else do
      let v ← r.unknown
      return (v, rest)

end Reader

/-- `bytes.isdigit` of one byte. -/
def isAsciiDigit (x : UInt8) : Bool := ascii '0' ≤ x && x ≤ ascii '9'

/-- `str.isdigit` of one character up to 255: the superscripts are digits too. -/
def isLatinDigit (x : UInt8) : Bool := isAsciiDigit x || x = 0xB2 || x = 0xB3 || x = 0xB9

/-- `int`, and the error where it raises. -/
def intOr {ε : Type} (e : ε) (text : Bytes) : Except ε Int :=
  match intOfBytes text with
  | some i => .ok i
  | none => .error e

/-- A value as a key; lists and dictionaries have no hash. -/
def asKey : BVal → Except ExcClass BKey
  | .none => .ok .none
  | .int i => .ok (.int i)
  | .bytes b => .ok (.bytes b)
  | .list _ => .error .typeError
  | .dict _ => .error .typeError

/-- `_rec` of `bdecode`. -/
def bdecodeReader : Reader ExcClass where
  tooDeep := .recursionError
  missing := .valueError
  atEnd := .error .valueError
  unclosed := .ok ()
  short := .ok ()
  isDigit := isAsciiDigit
  unknown := .error .valueError
  int := intOr .valueError
  length text := (intOr .valueError text).map Int.toNat
  key v := (asKey v).map some
  again := .ok ()

/-- `bdecode`; `kademlia_node.py:374-408`. -/
def bdecode (limit : Nat) (data : Bytes) : Except ExcClass BVal := (bdecodeReader.read limit data).map Prod.fst

/-- `safe_bdecode`; `kademlia_node.py:411-428`. -/
def safeBdecode (limit : Nat) (data : Bytes) : Except ExcClass (Option BVal) :=
  match bdecode limit data with
  | .ok (.dict entries) => .ok (some (.dict entries))
  | .ok _ => .ok none
  | .error .valueError => .ok none
  | .error .indexError => .ok none
  | .error e => .error e

/-- `_bdecode_recursive`; `kademlia_node.py:1711-1738`. -/
def nodeReader : Reader ExcClass where
  tooDeep := .recursionError
  missing := .valueError
  atEnd := .ok .none
  unclosed := .ok ()
  short := .ok ()
  isDigit := isAsciiDigit
  unknown := .ok .none
  int := intOr .valueError
  length text := (intOr .valueError text).map Int.toNat
  key v := (asKey v).map fun k => if k = .none then none else some k
  again := .ok ()

/-- `KademliaNode._bdecode`; `kademlia_node.py:1704-1709`. -/
def nodeBdecode (limit : Nat) (data : Bytes) : BVal :=
  match nodeReader.read limit data with
  | .ok (v, _) => v
  | .error _ => .dict []

/-- `_decode_bencode_iter`; `metadata_fetcher.py:259-287`. -/
def fetcherReader : Reader ExcClass where
  tooDeep := .recursionError
  missing := .valueError
  atEnd := .ok .none
  unclosed := .error .indexError
  short := .ok ()
  isDigit := isLatinDigit
  unknown := .ok .none
  int := intOr .valueError
  length text := (intOr .valueError text).map Int.toNat
  key v := (asKey v).map some
  again := .ok ()

/-- `TorrentMetadataFetcher._decode_bencode`; `metadata_fetcher.py:255-257`. -/
def decodeBencode (limit : Nat) (data : Bytes) : Except ExcClass BVal := (fetcherReader.read limit data).map Prod.fst

end Hledac.Dht
