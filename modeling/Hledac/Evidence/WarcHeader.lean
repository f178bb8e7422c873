import Hledac.Evidence.Warc

/-!
# Reading the headers that the writer writes

A header whose fields have no line breaks is taken apart into its fields again, whatever follows
it, and a part of one is not taken for a header. So a record is parsed once its body is complete.
-/

namespace Hledac.Evidence.Warc

open Hledac.Lib Hledac.Lib.ByteSearch Hledac.Py

/-- The text has no line break in it. -/
def NoBreak (text : String) : Prop := ∀ ch ∈ text.toList, ch ≠ '\r' ∧ ch ≠ '\n'

instance (text : String) : Decidable (NoBreak text) :=
  List.decidableBAll _ text.toList

/-- The key of a header field: not empty, without line break, colon or whitespace. -/
def PlainKey (key : String) : Prop :=
  key ≠ "" ∧ NoBreak key ∧ ':' ∉ key.toList ∧ ∀ ch ∈ key.toList, isSpace ch = false

instance (key : String) : Decidable (PlainKey key) :=
  letI : Decidable (∀ ch ∈ key.toList, isSpace ch = false) := List.decidableBAll _ key.toList
  inferInstanceAs (Decidable (_ ∧ NoBreak key ∧ _ ∧ _))

/-- A field as a reader sees it. -/
def seenField (f : String × String) : String × String := (lower f.1, strip f.2)

/-- The fields as a reader sees them. -/
def Record.dict (r : Record) : List (String × String) := r.fields.map seenField

/-- A record that can be read back: plain keys, each once, no line breaks, the length of its body,
and its identifier. -/
structure Record.Readable (r : Record) (recordId : String) : Prop where
  plain : ∀ f ∈ r.fields, PlainKey f.1
  noBreak : ∀ f ∈ r.fields, NoBreak f.2
  nodup : (r.dict.map Prod.fst).Nodup
  length_eq : (r.dict.lookup "content-length").bind readInt = some (r.body.length : Int)
  recordId_eq : r.dict.lookup "warc-record-id" = some recordId
  ne_empty : recordId ≠ ""

/-- The identifier that a record names. -/
def Record.recordId (r : Record) : String := getField r.dict "warc-record-id" ""

theorem Record.Readable.recordId_eq_self {r : Record} {recordId : String}
    (h : r.Readable recordId) : r.recordId = recordId := by
  rw [Record.recordId, getField, h.recordId_eq]
  rfl

/-! ### Lines -/

/-- The encoded lines of the header. -/
def Record.byteLines (r : Record) : List Bytes := r.lines.map encode

theorem encode_join (lines : List String) :
    encode (String.join (lines.map (· ++ "\r\n"))) = (lines.map encode).flatMap (· ++ crlf) := by
  induction lines with
  | nil => rfl
  | cons line lines ih =>
    rw [List.map_cons, String.join_cons, encode_append, encode_append, ih]
    rfl

theorem flatMap_eq_joinLines {lines : List Bytes} (h : lines ≠ []) :
    lines.flatMap (· ++ crlf) = joinLines crlf lines ++ crlf := by
  induction lines with
  | nil => exact absurd rfl h
  | cons line lines ih =>
    cases lines with
    | nil => simp [joinLines]
    | cons next lines =>
      rw [List.flatMap_cons, ih (List.cons_ne_nil _ _), joinLines_cons_cons]
      simp

theorem header_eq (r : Record) : r.header = joinLines crlf r.byteLines ++ crlf2 := by
  rw [Record.header, encode_append, encode_join, ← Record.byteLines,
    flatMap_eq_joinLines (by simp [Record.byteLines, Record.lines]), List.append_assoc]
  rfl

theorem ne_of_noBreak {text : String} (h : NoBreak text) :
    (13 : UInt8) ∉ encode text ∧ (10 : UInt8) ∉ encode text := by
  constructor
  · intro hmem
    exact (h _ (mem_encode (by decide) hmem)).1 (by decide)
  · intro hmem
    exact (h _ (mem_encode (by decide) hmem)).2 (by decide)

theorem encode_ne_nil {text : String} (h : text ≠ "") : encode text ≠ [] := by
  intro hnil
  have hd := decodeReplace_encode text
  rw [hnil] at hd
  exact h hd.symm

theorem Record.Readable.noBreak_lines {r : Record} {recordId : String} (h : r.Readable recordId) :
    ∀ line ∈ r.lines, line ≠ "" ∧ NoBreak line := by
  intro line hline
  rcases List.mem_cons.1 hline with rfl | hline
  · decide
  · obtain ⟨f, hf, rfl⟩ := List.mem_map.1 hline
    obtain ⟨hne, hk, _⟩ := h.plain f hf
    refine ⟨fun he => hne ?_, fun ch hch => ?_⟩
    · have hl := congrArg String.toList he
      simp only [String.toList_append, List.append_assoc, String.toList_empty,
        List.append_eq_nil_iff] at hl
      exact String.toList_inj.1 hl.1
    · simp only [String.toList_append, List.mem_append] at hch
      rcases hch with (hch | hch) | hch
      · exact hk ch hch
      · exact (by decide : NoBreak ": ") ch hch
      · exact h.noBreak f hf ch hch

theorem Record.Readable.byteLines {r : Record} {recordId : String} (h : r.Readable recordId) :
    ∀ line ∈ r.byteLines, line ≠ [] ∧ (13 : UInt8) ∉ line ∧ (10 : UInt8) ∉ line := by
  intro line hline
  obtain ⟨text, htext, rfl⟩ := List.mem_map.1 hline
  obtain ⟨hne, hnb⟩ := h.noBreak_lines text htext
  exact ⟨encode_ne_nil hne, ne_of_noBreak hnb⟩

theorem find_header {r : Record} {recordId : String} (h : r.Readable recordId) (rest : Bytes) :
    find crlf2 (r.header ++ rest) = some (joinLines crlf r.byteLines).length := by
  rw [header_eq, List.append_assoc]
  exact find_blankLine (by decide) (by simp [Record.byteLines, Record.lines]) fun line hline =>
    ⟨(h.byteLines line hline).1, (h.byteLines line hline).2.1⟩

theorem headerEnd_header {r : Record} {recordId : String} (h : r.Readable recordId)
    (rest : Bytes) :
    headerEnd (r.header ++ rest) = some ((joinLines crlf r.byteLines).length, crlf) := by
  rw [headerEnd, find_header h]

theorem headerEnd_of_isPrefix {r : Record} {recordId : String} (h : r.Readable recordId)
    {a : Bytes} (ha : a <+: r.header) (hl : a.length < r.header.length) : headerEnd a = none := by
  have hcrlf : find crlf2 a = none := by
    refine find_eq_none_of_prefix (ha.trans (List.prefix_append _ [])) (find_header h []) ?_
    rw [header_eq, List.length_append] at hl
    exact hl
  have hlf : find lf2 a = none := by
    rw [find_eq_none_iff]
    intro hin
    have hnone : find lf2 r.header = none := by
      rw [header_eq]
      exact find_doubled_eq_none (by decide) fun line hline =>
        ⟨(h.byteLines line hline).1, (h.byteLines line hline).2.2⟩
    exact find_eq_none_iff.1 hnone (hin.trans ha.isInfix)
  rw [headerEnd, hcrlf, hlf]
  rfl

theorem headerLines_header {r : Record} {recordId : String} (h : r.Readable recordId)
    (rest : Bytes) :
    headerLines (r.header ++ rest) (joinLines crlf r.byteLines).length crlf = r.lines := by
  have hsplit : split crlf (joinLines crlf r.byteLines) = r.byteLines :=
    split_joinLines (by simp [Record.byteLines, Record.lines]) fun line hline =>
      (h.byteLines line hline).2.1
  rw [headerLines, header_eq, List.append_assoc, List.take_left, hsplit, Record.byteLines,
    List.map_map]
  exact List.map_id'' (fun line => decodeReplace_encode line) r.lines

/-! ### Fields -/

theorem splitOnce_line {f : String × String} (h : PlainKey f.1) :
    splitOnce ':' (f.1 ++ ": " ++ f.2) = some (f.1, " " ++ f.2) := by
  have hline : f.1 ++ ": " ++ f.2 = f.1 ++ String.singleton ':' ++ (" " ++ f.2) := by
    simp only [← String.toList_inj, String.toList_append, List.append_assoc]
    rfl
  rw [hline]
  exact splitOnce_append h.2.2.1 _

theorem lookup_eq_none {d : List (String × String)} {key : String} (h : key ∉ d.map Prod.fst) :
    d.lookup key = none := by
  rw [List.lookup_eq_none_iff]
  intro p hp
  rw [bne_iff_ne]
  rintro rfl
  exact h (List.mem_map_of_mem hp)

theorem scanLine_line {f : String × String} (h : PlainKey f.1) (acc : Int × Option String) :
    scanLine acc (f.1 ++ ": " ++ f.2) =
      if (seenField f).1 = "content-length" then ((readInt (seenField f).2).getD acc.1, acc.2)
      else if (seenField f).1 = "warc-record-id" then (acc.1, some (seenField f).2)
      else acc := by
  rw [scanLine, splitOnce_line h]
  simp only [strip_of_forall h.2.2.2, strip_blank_append, seenField]
  rfl

theorem foldl_scanLine {fields : List (String × String)} (hp : ∀ f ∈ fields, PlainKey f.1)
    (hn : ((fields.map seenField).map Prod.fst).Nodup) (acc : Int × Option String) :
    (fields.map fun f => f.1 ++ ": " ++ f.2).foldl scanLine acc =
      ((((fields.map seenField).lookup "content-length").bind readInt).getD acc.1,
        ((fields.map seenField).lookup "warc-record-id").or acc.2) := by
  induction fields generalizing acc with
  | nil => rfl
  | cons f fields ih =>
    obtain ⟨hf, hfs⟩ := List.forall_mem_cons.1 hp
    obtain ⟨hnot, hnodup⟩ := List.nodup_cons.1 hn
    rw [List.map_cons, List.foldl_cons, scanLine_line hf, ih hfs hnodup, List.map_cons]
    generalize seenField f = g at hnot ⊢
    obtain ⟨key, value⟩ := g
    by_cases hl : key = "content-length"
    · subst hl
      simp [List.lookup_cons, lookup_eq_none hnot]
    · by_cases hi : key = "warc-record-id"
      · subst hi
        simp [List.lookup_cons, lookup_eq_none hnot]
      · have hl' : ("content-length" == key) = false := beq_eq_false_iff_ne.2 (Ne.symm hl)
        have hi' : ("warc-record-id" == key) = false := beq_eq_false_iff_ne.2 (Ne.symm hi)
        simp [List.lookup_cons, hl, hi, hl', hi']

theorem dictSet_of_notMem {d : List (String × String)} {key value : String}
    (h : key ∉ d.map Prod.fst) : dictSet d key value = d ++ [(key, value)] := by
  have hany : ¬ (d.any (·.1 == key)) = true := by
    rw [List.any_eq_true]
    rintro ⟨p, hp, heq⟩
    rw [beq_iff_eq] at heq
    exact h (heq ▸ List.mem_map_of_mem hp)
  rw [dictSet, if_neg hany]

theorem foldl_dictSet {fields : List (String × String)} (hp : ∀ f ∈ fields, PlainKey f.1)
    (d : List (String × String)) (hn : ((d ++ fields.map seenField).map Prod.fst).Nodup) :
    (fields.map fun f => f.1 ++ ": " ++ f.2).foldl (fun d line => match splitOnce ':' line with
      | none => d
      | some (key, value) => dictSet d (lower (strip key)) (strip value)) d =
      d ++ fields.map seenField := by
  induction fields generalizing d with
  | nil => simp
  | cons f fields ih =>
    obtain ⟨hf, hfs⟩ := List.forall_mem_cons.1 hp
    have hnew : (seenField f).1 ∉ d.map Prod.fst := by
      intro hmem
      rw [List.map_append, List.map_cons, List.map_cons] at hn
      exact (List.nodup_append.1 hn).2.2 _ hmem _ List.mem_cons_self rfl
    have hset : dictSet d (lower (strip f.1)) (strip (" " ++ f.2)) = d ++ [seenField f] := by
      rw [strip_of_forall hf.2.2.2, strip_blank_append]
      exact dictSet_of_notMem hnew
    rw [List.map_cons, List.foldl_cons, splitOnce_line hf]
    simp only [hset]
    rw [ih hfs _ (by simpa using hn)]
    simp

theorem foldl_scanLine_lines {r : Record} {recordId : String} (h : r.Readable recordId) :
    r.lines.foldl scanLine (0, none) = ((r.body.length : Int), some recordId) := by
  have hversion : scanLine (0, none) "WARC/1.1" = (0, none) := by decide
  rw [Record.lines, List.foldl_cons, hversion, foldl_scanLine h.plain h.nodup, ← Record.dict,
    h.length_eq, h.recordId_eq]
  rfl

theorem headerDict_lines {r : Record} {recordId : String} (h : r.Readable recordId) :
    headerDict r.lines = r.dict := by
  have hversion : splitOnce ':' "WARC/1.1" = none := by decide
  rw [headerDict, Record.lines, List.foldl_cons, hversion]
  exact foldl_dictSet h.plain [] h.nodup

/-! ### Records -/

/-- What a record is parsed to. -/
def Record.parsed (r : Record) (recordId : String) : WarcRecord where
  httpResponse := if getField r.dict "warc-type" "response" = "response" then r.body else []
  httpRequest := if getField r.dict "warc-type" "response" = "request" then r.body else []
  url := getField r.dict "warc-target-uri" ""
  timestamp := getField r.dict "warc-date" ""
  recordId := recordId
  warcType := getField r.dict "warc-type" "response"
  payloadDigest := getField r.dict "warc-payload-digest" ""
  status :=
    if getField r.dict "warc-type" "response" = "response" ∧ r.body ≠ [] then bodyStatus r.body
    else 0
  contentLength := r.body.length

theorem marker_prefix_header (r : Record) : marker <+: r.header := by
  have hversion : encode ("WARC/1.1" ++ "\r\n") = marker ++ [0x31, 13, 10] := by decide
  rw [Record.header, Record.lines, List.map_cons, String.join_cons, encode_append, encode_append,
    hversion]
  simp only [List.append_assoc]
  exact List.prefix_append _ _

theorem find_marker (r : Record) (rest : Bytes) : find marker (r.header ++ rest) = some 0 :=
  find_of_isPrefix ((marker_prefix_header r).trans (List.prefix_append _ _))

theorem length_header (r : Record) :
    r.header.length = (joinLines crlf r.byteLines).length + blankLength crlf := by
  rw [header_eq, List.length_append]
  rfl

theorem tryParse_header {r : Record} {recordId : String} (h : r.Readable recordId)
    (expected : String) (rest : Bytes) :
    tryParseWarcRecord expected (r.header ++ rest) =
      if rest.length < r.body.length then none
      else if recordId ≠ expected then none
      else parseWarcRecordFromBytes (r.header ++ rest.take r.body.length) expected := by
  have hsize : ((r.header ++ rest).length : Int) < ((joinLines crlf r.byteLines).length +
      blankLength crlf : Nat) + (r.body.length : Int) ↔ rest.length < r.body.length := by
    rw [← length_header, List.length_append]
    omega
  have hslice : slice (r.header ++ rest) 0 (((joinLines crlf r.byteLines).length +
      blankLength crlf : Nat) + (r.body.length : Int)) = r.header ++ rest.take r.body.length := by
    rw [← length_header, slice, if_pos (by omega), List.drop_zero,
      show ((r.header.length : Int) + (r.body.length : Int)).toNat =
        r.header.length + r.body.length by omega, List.take_length_add_append]
  simp only [tryParseWarcRecord, find_marker, Option.bind_eq_bind, Option.bind_some,
    List.drop_zero, headerEnd_header h, headerLines_header h, foldl_scanLine_lines h, hsize,
    hslice, Option.getD_some, ne_eq, h.ne_empty, not_false_eq_true, true_and, Option.some.injEq]

theorem tryParse_bytes {r : Record} {recordId : String} (h : r.Readable recordId) (rest : Bytes) :
    tryParseWarcRecord recordId (r.bytes ++ rest) = some (r.parsed recordId) := by
  have hlen : readInt (getField r.dict "content-length" "0") = some (r.body.length : Int) := by
    obtain ⟨text, htext, hread⟩ := Option.bind_eq_some_iff.1 h.length_eq
    rw [getField, htext]
    exact hread
  have hid : getField r.dict "warc-record-id" "" = recordId := h.recordId_eq_self
  have hslice : slice (r.header ++ r.body) ((joinLines crlf r.byteLines).length +
      blankLength crlf) (((joinLines crlf r.byteLines).length + blankLength crlf : Nat) +
        (r.body.length : Int)) = r.body := by
    rw [← length_header, slice, if_pos (by omega),
      show ((r.header.length : Int) + (r.body.length : Int)).toNat =
        r.header.length + r.body.length by omega, List.take_length_add_append, List.take_length,
      List.drop_left]
  rw [Record.bytes, List.append_assoc, tryParse_header h, if_neg (by simp),
    if_neg (not_not_intro rfl), List.take_left]
  simp only [parseWarcRecordFromBytes, find_marker, Option.bind_eq_bind, Option.bind_some,
    List.drop_zero, headerEnd_header h, headerLines_header h, headerDict_lines h, hlen, hid,
    hslice, Record.parsed]
  simp

theorem prefix_header_append {r : Record} {a more : Bytes} (ha : a <+: r.header ++ more) :
    (a <+: r.header ∧ a.length < r.header.length) ∨
      ∃ rest, a = r.header ++ rest ∧ rest <+: more := by
  rcases List.prefix_or_prefix_of_prefix ha (List.prefix_append r.header more) with hp | hp
  · rcases Nat.lt_or_ge a.length r.header.length with hl | hl
    · exact .inl ⟨hp, hl⟩
    · have heq : a = r.header := hp.eq_of_length (Nat.le_antisymm hp.length_le hl)
      exact .inr ⟨[], by simpa using heq, List.nil_prefix⟩
  · obtain ⟨rest, rfl⟩ := hp
    exact .inr ⟨rest, rfl, (List.prefix_append_right_inj _).1 ha⟩

theorem tryParse_of_headerEnd_eq_none {a : Bytes} (hm : marker <+: a) (h : headerEnd a = none)
    (expected : String) : tryParseWarcRecord expected a = none := by
  simp only [tryParseWarcRecord, find_of_isPrefix hm, Option.bind_eq_bind, Option.bind_some,
    List.drop_zero, h, Option.bind_none]

theorem tryParse_of_prefix {r : Record} {recordId : String} (h : r.Readable recordId)
    (expected : String) {a : Bytes} (hm : marker <+: a) (ha : a <+: r.bytes)
    (hl : a.length < r.bytes.length) : tryParseWarcRecord expected a = none := by
  rcases prefix_header_append ha with ⟨hp, hlt⟩ | ⟨rest, rfl, _⟩
  · exact tryParse_of_headerEnd_eq_none hm (headerEnd_of_isPrefix h hp hlt) expected
  · rw [tryParse_header h, if_pos]
    simpa [Record.bytes] using hl

theorem tryParse_of_ne {r : Record} {recordId expected : String} (h : r.Readable recordId)
    (hne : recordId ≠ expected) {a more : Bytes} (hm : marker <+: a)
    (ha : a <+: r.bytes ++ more) : tryParseWarcRecord expected a = none := by
  rw [Record.bytes, List.append_assoc] at ha
  rcases prefix_header_append ha with ⟨hp, hlt⟩ | ⟨rest, rfl, _⟩
  · exact tryParse_of_headerEnd_eq_none hm (headerEnd_of_isPrefix h hp hlt) expected
  · rw [tryParse_header h, if_pos hne]
    exact ite_self none

/-! ### The records of the writer -/

theorem noBreak_append {s t : String} (hs : NoBreak s) (ht : NoBreak t) : NoBreak (s ++ t) := by
  intro ch hch
  rw [String.toList_append, List.mem_append] at hch
  exact hch.elim (hs ch) (ht ch)

theorem forall_mem_of_all {p : Char → Prop} [DecidablePred p] {s : List Char}
    (h : s.all (fun ch => decide (p ch)) = true) : ∀ ch ∈ s, p ch :=
  fun ch hch => of_decide_eq_true (List.all_eq_true.1 h ch hch)

private theorem isHex_or_dash {ch : Char} (h : Digest.IsHex ch ∨ ch = '-') :
    ch ≠ '\r' ∧ ch ≠ '\n' ∧ isSpace ch = false := by
  rcases h with hx | rfl
  · exact forall_mem_of_all (p := fun ch => ch ≠ '\r' ∧ ch ≠ '\n' ∧ isSpace ch = false)
      (by decide) ch hx
  · decide

theorem noBreak_of_isHex {s : String} (h : ∀ ch ∈ s.toList, Digest.IsHex ch ∨ ch = '-') :
    NoBreak s := fun ch hch => ⟨(isHex_or_dash (h ch hch)).1, (isHex_or_dash (h ch hch)).2.1⟩

theorem noBreak_natText {n : Nat} {text : String} (h : natText n = some text) : NoBreak text := by
  intro ch hch
  have hd := isDigit_of_mem_natText h ch hch
  constructor
  · rintro rfl
    exact absurd hd (by decide)
  · rintro rfl
    exact absurd hd (by decide)

theorem Uuid.noBreak_recordId (u : Uuid) : NoBreak u.recordId :=
  noBreak_append (noBreak_append (by decide) (noBreak_of_isHex u.wf)) (by decide)

theorem noBreak_payloadDigest (response : Bytes) : NoBreak (payloadDigest response) :=
  noBreak_append (by decide)
    (noBreak_of_isHex fun ch hch => .inl (Digest.isHex_of_mem_sha1 response ch hch))

theorem Uuid.strip_recordId (u : Uuid) : strip u.recordId = u.recordId := by
  refine strip_of_forall fun ch hch => ?_
  simp only [Uuid.recordId, String.toList_append, List.mem_append] at hch
  rcases hch with (hch | hch) | hch
  · exact forall_mem_of_all (p := fun ch => isSpace ch = false) (by decide) ch hch
  · exact (isHex_or_dash (u.wf ch hch)).2.2
  · exact forall_mem_of_all (p := fun ch => isSpace ch = false) (by decide) ch hch

theorem Uuid.recordId_ne_empty (u : Uuid) : u.recordId ≠ "" := by
  intro h
  have hl := congrArg String.toList h
  simp [Uuid.recordId] at hl

/-- The fields that each record of the writer starts with. -/
def leadFields (type url date recordId length contentType : String) : List (String × String) :=
  [("WARC-Type", type), ("WARC-Target-URI", url), ("WARC-Date", date),
    ("WARC-Record-ID", recordId), ("Content-Length", length), ("Content-Type", contentType)]

theorem seen_leadFields (type url date recordId length contentType : String) :
    (leadFields type url date recordId length contentType).map seenField =
      [("warc-type", strip type), ("warc-target-uri", strip url), ("warc-date", strip date),
        ("warc-record-id", strip recordId), ("content-length", strip length),
        ("content-type", strip contentType)] := by
  simp only [leadFields, seenField, List.map_cons, List.map_nil, List.cons.injEq, Prod.mk.injEq,
    and_true]
  decide

theorem readable_of_leadFields {type url date length contentType : String} {uuid : Uuid}
    {m : List (String × String)} {body : Bytes} (keys : List String)
    (hvalues : NoBreak type ∧ NoBreak url ∧ NoBreak date ∧ NoBreak contentType)
    (hl : natText body.length = some length)
    (hmore : ∀ f ∈ m, PlainKey f.1 ∧ NoBreak f.2)
    (hkeys : (m.map seenField).map Prod.fst = keys)
    (hnodup : (["warc-type", "warc-target-uri", "warc-date", "warc-record-id", "content-length",
      "content-type"] ++ keys).Nodup) :
    Record.Readable ⟨leadFields type url date uuid.recordId length contentType ++ m, body⟩
      uuid.recordId where
  plain := by
    refine List.forall_mem_append.2 ⟨?_, fun f hf => (hmore f hf).1⟩
    simp only [leadFields, List.forall_mem_cons]
    decide
  noBreak := by
    refine List.forall_mem_append.2 ⟨?_, fun f hf => (hmore f hf).2⟩
    simp only [leadFields, List.forall_mem_cons]
    exact ⟨hvalues.1, hvalues.2.1, hvalues.2.2.1, uuid.noBreak_recordId, noBreak_natText hl,
      hvalues.2.2.2, by simp⟩
  nodup := by
    rw [Record.dict, List.map_append, seen_leadFields, List.map_append, hkeys]
    exact hnodup
  length_eq := by
    have hlook : (Record.dict ⟨leadFields type url date uuid.recordId length contentType ++ m,
        body⟩).lookup "content-length" = some (strip length) := by
      rw [Record.dict, List.map_append, seen_leadFields]
      rfl
    rw [hlook, Option.bind_some, readInt_strip, readInt_natText hl]
  recordId_eq := by
    rw [Record.dict, List.map_append, seen_leadFields, uuid.strip_recordId]
    rfl
  ne_empty := uuid.recordId_ne_empty

theorem readable_rawRecord {name contentType length : String} {args : WriteArgs}
    (hurl : NoBreak args.url) (hdate : NoBreak args.date) (hname : NoBreak name)
    (htype : NoBreak contentType) (hl : natText args.response.length = some length) :
    (rawRecord name contentType args length).Readable args.uuid.recordId := by
  refine readable_of_leadFields ["warc-payload-digest", "warc-filename"]
    ⟨by decide, hurl, noBreak_append hdate (by decide), htype⟩ hl ?_ ?_ (by decide)
  · simp only [List.forall_mem_cons]
    exact ⟨⟨by decide, noBreak_payloadDigest _⟩, ⟨by decide, hname⟩, by simp⟩
  · simp only [List.map_cons, List.map_nil, seenField]
    decide

theorem readable_responseRecord {name length : String} {args : WriteArgs} (hurl : NoBreak args.url)
    (hdate : NoBreak args.date) (hname : NoBreak name)
    (hl : natText args.response.length = some length) :
    (responseRecord name args length).Readable args.uuid.recordId := by
  refine readable_of_leadFields
    ["warc-payload-digest", "warc-identified-payload-type", "warc-filename"]
    ⟨by decide, hurl, noBreak_append hdate (by decide), by decide⟩ hl ?_ ?_ (by decide)
  · simp only [List.forall_mem_cons]
    exact ⟨⟨by decide, noBreak_payloadDigest _⟩, ⟨by decide, by decide⟩, ⟨by decide, hname⟩,
      by simp⟩
  · simp only [List.map_cons, List.map_nil, seenField]
    decide

theorem readable_requestRecord {length : String} {args : WriteArgs} (request : Bytes) (uuid : Uuid)
    (hurl : NoBreak args.url) (hdate : NoBreak args.date)
    (hl : natText request.length = some length) :
    (requestRecord args request uuid length).Readable uuid.recordId :=
  readable_of_leadFields (m := []) [] ⟨by decide, hurl, noBreak_append hdate (by decide), by decide⟩ hl
    (by simp) rfl (by decide)

theorem parsed_of_leadFields (url date recordId length contentType expected : String)
    (more : List (String × String)) (body : Bytes) :
    let r := Record.parsed
      ⟨leadFields "response" url date recordId length contentType ++ more, body⟩ expected
    r.httpResponse = body ∧ r.url = strip url := by
  have htype : getField (Record.dict
      ⟨leadFields "response" url date recordId length contentType ++ more, body⟩)
      "warc-type" "response" = "response" := by
    rw [Record.dict, List.map_append, seen_leadFields]
    calc
      _ = strip "response" := rfl
      _ = "response" := by decide
  have hurl : getField (Record.dict
      ⟨leadFields "response" url date recordId length contentType ++ more, body⟩)
      "warc-target-uri" "" = strip url := by
    rw [Record.dict, List.map_append, seen_leadFields]
    rfl
  intro r
  constructor
  · simp only [r, Record.parsed, htype, if_true]
  · exact hurl

/-! ### The marker -/

/-- The marker occurs in no field. -/
def Record.FieldsFree (r : Record) : Prop :=
  ∀ f ∈ r.fields, ¬ marker <:+: encode f.1 ∧ ¬ marker <:+: encode f.2

theorem not_marker_of_notMem {text : String} (h : 'W' ∉ text.toList) :
    ¬ marker <:+: encode text := by
  intro hin
  exact h (mem_encode (by decide) (hin.subset (by decide : (0x57 : UInt8) ∈ marker)))

theorem not_marker_lines {fields : List (String × String)}
    (h : ∀ f ∈ fields, ¬ marker <:+: encode f.1 ∧ ¬ marker <:+: encode f.2) :
    ¬ marker <:+: ((fields.map fun f => f.1 ++ ": " ++ f.2).map encode).flatMap (· ++ crlf) := by
  induction fields with
  | nil => decide
  | cons f fields ih =>
    obtain ⟨⟨hkey, hvalue⟩, hfs⟩ := List.forall_mem_cons.1 h
    intro hin
    have hline :
        (((f :: fields).map fun f => f.1 ++ ": " ++ f.2).map encode).flatMap (· ++ crlf) = encode f.1 ++
          58 :: ([] ++ 32 :: (encode f.2 ++ 13 :: ([] ++ 10 ::
            ((fields.map fun f => f.1 ++ ": " ++ f.2).map encode).flatMap (· ++ crlf)))) := by
      simp only [List.map_cons, List.flatMap_cons, encode_append, List.append_assoc]
      rfl
    rw [hline] at hin
    -- no occurrence goes over the colon, the blank or the line break
    rcases isInfix_append_cons (by decide) hin with hin | hin
    · exact hkey hin
    rcases isInfix_append_cons (by decide) hin with hin | hin
    · exact absurd hin (by decide)
    rcases isInfix_append_cons (by decide) hin with hin | hin
    · exact hvalue hin
    rcases isInfix_append_cons (by decide) hin with hin | hin
    · exact absurd hin (by decide)
    · exact ih hfs hin

theorem marker_at_header {r : Record} (h : r.FieldsFree) {rest : Bytes} {q : Nat}
    (hq : marker <+: (r.header ++ rest).drop q) :
    q = 0 ∨ (r.header.length ≤ q ∧ marker <+: rest.drop (q - r.header.length)) := by
  obtain ⟨lines, hlines, hheader⟩ : ∃ lines, ¬ marker <:+: lines ∧ r.header =
      0x57 :: (([0x41, 0x52, 0x43, 0x2F, 0x31, 0x2E, 0x31] ++ 13 :: ([] ++ 10 ::
        (lines ++ 13 :: []))) ++ [10]) := by
    refine ⟨_, not_marker_lines h, ?_⟩
    have hversion : encode "WARC/1.1" = [0x57, 0x41, 0x52, 0x43, 0x2F, 0x31, 0x2E, 0x31] := by
      decide
    have hend : encode "\r\n" = [13, 10] := by decide
    rw [Record.header, encode_append, encode_join, Record.lines, List.map_cons, List.flatMap_cons,
      hversion, hend]
    simp [crlf]
  cases q with
  | zero => exact .inl rfl
  | succ q =>
    right
    rw [hheader, List.cons_append, List.drop_succ_cons, List.append_assoc, List.singleton_append]
      at hq
    rcases prefix_drop_append_cons (by decide) hq with hin | ⟨hlt, hrest⟩
    · exfalso
      have hin := hin.isInfix.trans (List.drop_suffix _ _).isInfix
      rcases isInfix_append_cons (by decide) hin with hin | hin
      · exact absurd hin (by decide)
      rcases isInfix_append_cons (by decide) hin with hin | hin
      · exact absurd hin (by decide)
      rcases isInfix_append_cons (by decide) hin with hin | hin
      · exact hlines hin
      · exact absurd hin (by decide)
    · have hlen := congrArg List.length hheader
      rw [List.length_cons, List.length_append, List.length_singleton] at hlen
      rw [hlen]
      constructor
      · omega
      · rwa [Nat.add_sub_add_right]

end Hledac.Evidence.Warc
