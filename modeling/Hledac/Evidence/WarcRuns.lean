import Hledac.Evidence.WarcSeek
import Hledac.Lib.Machine

/-!
# Writing a file and seeking in it

Calls of `write_response` and `write_raw` on one writer, as moves. While no file is rotated away, the
file consists of the records of the calls, so what `warc_seek` gives for each of them is known.
-/

namespace Hledac.Evidence.Warc

open Hledac.Lib Hledac.Lib.ByteSearch Hledac.Lib.ChunkSearch Hledac.Py

/-- A call of one of the two write methods. -/
inductive Write where
  | response (args : WriteArgs) (request : Bytes) (requestUuid : Uuid)
  | raw (args : WriteArgs) (contentType : String)

/-- The text of a length. -/
def lengthText (n : Nat) : String := (natText n).getD ""

namespace Write

/-- The arguments that both methods have. -/
def args : Write → WriteArgs
  | response args _ _ => args
  | raw args _ => args

/-- What the call returns, and the writer after it. -/
def apply (w : WARCWriter) : Write → Option WarcWriteResult × WARCWriter
  | response args request requestUuid => writeResponse args request requestUuid w
  | raw args contentType => writeRaw args contentType w

/-- The record that the call writes before the one it returns. -/
def lead : Write → List Record
  | response args request requestUuid =>
    [requestRecord args request requestUuid (lengthText request.length)]
  | raw _ _ => []

/-- The record whose identifier the call returns. -/
def record (name : String) : Write → Record
  | response args _ _ => responseRecord name args (lengthText args.response.length)
  | raw args contentType => rawRecord name contentType args (lengthText args.response.length)

/-- All that the call writes. -/
def records (name : String) (x : Write) : List Record := x.lead ++ [x.record name]

/-- The identifiers of these records. -/
def recordIds : Write → List String
  | response args _ requestUuid => [requestUuid.recordId, args.uuid.recordId]
  | raw args _ => [args.uuid.recordId]

/-- No line break in what the headers take from the call. -/
def NoBreaks : Write → Prop
  | response args _ _ => NoBreak args.url ∧ NoBreak args.date
  | raw args contentType => NoBreak args.url ∧ NoBreak args.date ∧ NoBreak contentType

/-- Where the record starts and ends when the call is made in this state. -/
def start (w : WARCWriter) (x : Write) : Nat := w.content.length + (fileBytes x.lead).length

@[inherit_doc start]
def stop (w : WARCWriter) (x : Write) : Nat := x.start w + (x.record w.name).bytes.length

end Write

/-- One call on the writer. -/
def write (w : WARCWriter) (x : Write) : WARCWriter := (x.apply w).2

/-- The call returns a result with `success=True`. -/
def Succeeds (w : WARCWriter) (x : Write) : Prop :=
  (x.apply w).1.map WarcWriteResult.success = some true

instance (w : WARCWriter) (x : Write) : Decidable (Succeeds w x) :=
  inferInstanceAs (Decidable (_ = _))

/-- A new writer and calls on it that all succeed, under identifiers drawn once each, without a
rotation. -/
structure Archived (w : WARCWriter) (writes : List Write) : Prop where
  content_eq : w.content = []
  closed_eq : w.closed = []
  noBreak : NoBreak w.name
  noBreaks : ∀ x ∈ writes, x.NoBreaks
  succeeds : StepsMeet write Succeeds w writes
  nodup : (writes.flatMap Write.recordIds).Nodup
  unrotated : (writes.foldl write w).closed = []

/-- What reading the file chunk by chunk gives. -/
structure Reads (chunks : List Bytes) (content : Bytes) : Prop where
  flatten_eq : chunks.flatten = content
  ne_nil : ∀ chunk ∈ chunks, chunk ≠ []

/-- Seeking the record that the call returns gives its response and its url. -/
def SeeksRight (chunks : List Bytes) (w : WARCWriter) (x : Write) : Prop :=
  ∃ result, (x.apply w).1 = some result ∧ ∃ r, warcSeek result.recordId chunks = some r ∧
    r.httpResponse = x.args.response ∧ r.url = x.args.url

/-! ### One call -/

theorem lengthText_eq {n : Nat} {text : String} (h : natText n = some text) :
    lengthText n = text := by
  rw [lengthText, h]
  rfl

theorem writeRaw_of_succeeds {w : WARCWriter} {args : WriteArgs} {contentType : String}
    (h : Succeeds w (.raw args contentType)) :
    ∃ length, natText args.response.length = some length ∧
      writeRaw args contentType w =
        (some (w.result args (rawRecord w.name contentType args length).block.length 0),
          w.put (rawRecord w.name contentType args length).block) := by
  unfold Succeeds Write.apply at h
  simp only [writeRaw] at h ⊢
  split at h
  · simp at h
  · next hlong =>
    cases hl : natText args.response.length with
    | none => simp [hl] at h
    | some length => exact ⟨length, rfl, if_neg hlong⟩

theorem writeResponse_of_succeeds {w : WARCWriter} {args : WriteArgs} {request : Bytes}
    {requestUuid : Uuid} (h : Succeeds w (.response args request requestUuid)) :
    ∃ length requestLength, natText args.response.length = some length ∧
      natText request.length = some requestLength ∧
      ∃ result, result.recordId = args.uuid.recordId ∧
      writeResponse args request requestUuid w =
        (some result, w.put ((requestRecord args request requestUuid requestLength).block ++
          (responseRecord w.name args length).block)) := by
  unfold Succeeds Write.apply at h
  simp only [writeResponse] at h ⊢
  split at h
  · simp at h
  · next hlong =>
    cases hl : natText args.response.length with
    | none => simp [hl] at h
    | some length =>
      cases hr : natText request.length with
      | none => simp [hl, hr] at h
      | some requestLength =>
        exact ⟨length, requestLength, rfl, rfl, _, rfl, if_neg hlong⟩

theorem write_of_succeeds {w : WARCWriter} {x : Write} (h : Succeeds w x) :
    write w x = w.put (fileBytes (x.records w.name)) := by
  cases x with
  | response args request requestUuid =>
    obtain ⟨length, requestLength, hl, hr, _, _, happly⟩ := writeResponse_of_succeeds h
    rw [write, Write.apply, happly, Write.records, Write.lead, Write.record, lengthText_eq hl,
      lengthText_eq hr]
    simp [fileBytes]
  | raw args contentType =>
    obtain ⟨length, hl, happly⟩ := writeRaw_of_succeeds h
    rw [write, Write.apply, happly, Write.records, Write.lead, Write.record, lengthText_eq hl]
    simp [fileBytes]

theorem recordId_of_succeeds {w : WARCWriter} {x : Write} (h : Succeeds w x) :
    ∃ result, (x.apply w).1 = some result ∧ result.recordId = x.args.uuid.recordId := by
  cases x with
  | response args request requestUuid =>
    obtain ⟨_, _, _, _, result, hid, happly⟩ := writeResponse_of_succeeds h
    rw [Write.apply, happly]
    exact ⟨result, rfl, hid⟩
  | raw args contentType =>
    obtain ⟨_, _, happly⟩ := writeRaw_of_succeeds h
    rw [Write.apply, happly]
    exact ⟨_, rfl, rfl⟩

theorem readable_of_succeeds {w : WARCWriter} {x : Write} (h : Succeeds w x)
    (hname : NoBreak w.name) (hx : x.NoBreaks) :
    (x.record w.name).Readable x.args.uuid.recordId ∧
      (∀ r ∈ x.records w.name, r.Readable r.recordId) ∧
      (x.records w.name).map Record.recordId = x.recordIds := by
  cases x with
  | response args request requestUuid =>
    obtain ⟨length, requestLength, hl, hr, _⟩ := writeResponse_of_succeeds h
    rw [← lengthText_eq hl] at hl
    rw [← lengthText_eq hr] at hr
    have hrecord : (Write.record w.name (.response args request requestUuid)).Readable
        args.uuid.recordId := readable_responseRecord hx.1 hx.2 hname hl
    have hrequest := readable_requestRecord request requestUuid hx.1 hx.2 hr
    refine ⟨hrecord, ?_, ?_⟩
    · simp only [Write.records, Write.lead, List.cons_append, List.nil_append,
        List.forall_mem_cons]
      rw [hrequest.recordId_eq_self, hrecord.recordId_eq_self]
      exact ⟨hrequest, hrecord, by simp⟩
    · simp only [Write.records, Write.lead, List.cons_append, List.nil_append, List.map_cons,
        List.map_nil, hrequest.recordId_eq_self, hrecord.recordId_eq_self]
      rfl
  | raw args contentType =>
    obtain ⟨length, hl, _⟩ := writeRaw_of_succeeds h
    rw [← lengthText_eq hl] at hl
    have hrecord : (Write.record w.name (.raw args contentType)).Readable args.uuid.recordId :=
      readable_rawRecord hx.1 hx.2.1 hname hx.2.2 hl
    refine ⟨hrecord, ?_, ?_⟩
    · simp only [Write.records, Write.lead, List.nil_append, List.forall_mem_cons]
      rw [hrecord.recordId_eq_self]
      exact ⟨hrecord, by simp⟩
    · simp only [Write.records, Write.lead, List.nil_append, List.map_cons, List.map_nil,
        hrecord.recordId_eq_self]
      rfl

theorem parsed_record (name recordId : String) (x : Write) :
    ((x.record name).parsed recordId).httpResponse = x.args.response ∧
      ((x.record name).parsed recordId).url = strip x.args.url := by
  cases x with
  | response args request requestUuid => exact parsed_of_leadFields _ _ _ _ _ _ _ _
  | raw args contentType => exact parsed_of_leadFields _ _ _ _ _ _ _ _

/-! ### Runs -/

theorem closed_put (w : WARCWriter) (bytes : Bytes) : w.closed <+: (w.put bytes).closed := by
  unfold WARCWriter.put
  simp only
  split
  · exact List.prefix_append _ _
  · exact List.prefix_refl _

theorem put_of_closed {w : WARCWriter} {bytes : Bytes} (h : (w.put bytes).closed = w.closed) :
    (w.put bytes).content = w.content ++ bytes ∧ (w.put bytes).name = w.name := by
  unfold WARCWriter.put at h ⊢
  simp only at h ⊢
  split
  · next hsize =>
    rw [if_pos hsize] at h
    simp [WARCWriter.rotate] at h
  · exact ⟨rfl, rfl⟩

theorem closed_run {w : WARCWriter} {writes : List Write} (h : StepsMeet write Succeeds w writes) :
    w.closed <+: (writes.foldl write w).closed := by
  induction writes generalizing w with
  | nil => exact List.prefix_refl _
  | cons x rest ih =>
    have hput := closed_put w (fileBytes (x.records w.name))
    rw [← write_of_succeeds h.1] at hput
    exact hput.trans (ih h.2)

theorem content_run {w : WARCWriter} {writes : List Write}
    (h : StepsMeet write Succeeds w writes)
    (hclosed : (writes.foldl write w).closed = w.closed) :
    (writes.foldl write w).content =
        w.content ++ fileBytes (writes.flatMap (Write.records w.name)) ∧
      (writes.foldl write w).name = w.name := by
  induction writes generalizing w with
  | nil => simp [fileBytes]
  | cons x rest ih =>
    have hwrite := write_of_succeeds h.1
    have hput := closed_put w (fileBytes (x.records w.name))
    rw [← hwrite] at hput
    have hlen : (write w x).closed.length ≤ w.closed.length := by
      rw [← hclosed]
      exact (closed_run h.2).length_le
    have hstep : (write w x).closed = w.closed := (hput.eq_of_length_le hlen).symm
    rw [hwrite] at hstep
    obtain ⟨hcontent, hname⟩ := put_of_closed hstep
    rw [← hwrite] at hcontent hname hstep
    obtain ⟨hc, hn⟩ := ih h.2 (by rw [hstep]; exact hclosed)
    rw [hcontent, hname] at hc
    rw [List.foldl_cons, hc, hn, hname, List.flatMap_cons, fileBytes_append, List.append_assoc]
    exact ⟨rfl, rfl⟩

section

variable {w : WARCWriter} {writes before after : List Write} {x : Write}

theorem Archived.state (h : Archived w writes) (hw : writes = before ++ x :: after) :
    Succeeds (before.foldl write w) x ∧ (before.foldl write w).name = w.name ∧
      (before.foldl write w).content = fileBytes (before.flatMap (Write.records w.name)) := by
  have hs := h.succeeds
  have hend := h.unrotated
  rw [hw, stepsMeet_append] at hs
  rw [hw, List.foldl_append] at hend
  have hclosed : (before.foldl write w).closed = w.closed := by
    have hpre := closed_run hs.2
    rw [hend] at hpre
    rw [List.prefix_nil.1 hpre, h.closed_eq]
  obtain ⟨hcontent, hname⟩ := content_run hs.1 hclosed
  rw [h.content_eq, List.nil_append] at hcontent
  exact ⟨hs.2.1, hname, hcontent⟩

theorem Archived.content_run (h : Archived w writes) :
    (writes.foldl write w).content = fileBytes (writes.flatMap (Write.records w.name)) := by
  have hrun := (Warc.content_run h.succeeds (by rw [h.unrotated, h.closed_eq])).1
  rwa [h.content_eq, List.nil_append] at hrun

theorem Archived.readable (h : Archived w writes) :
    (∀ r ∈ writes.flatMap (Write.records w.name), r.Readable r.recordId) ∧
      ((writes.flatMap (Write.records w.name)).map Record.recordId).Nodup := by
  have hcall : ∀ x ∈ writes, (∀ r ∈ x.records w.name, r.Readable r.recordId) ∧
      (x.records w.name).map Record.recordId = x.recordIds := by
    intro x hx
    obtain ⟨before, after, hw⟩ := List.append_of_mem hx
    obtain ⟨hs, hname, _⟩ := h.state hw
    have hr := (readable_of_succeeds hs (by rw [hname]; exact h.noBreak) (h.noBreaks x hx)).2
    rwa [hname] at hr
  constructor
  · intro r hr
    obtain ⟨x, hx, hmem⟩ := List.mem_flatMap.1 hr
    exact (hcall x hx).1 r hmem
  · have hids : (writes.flatMap (Write.records w.name)).map Record.recordId =
        writes.flatMap Write.recordIds := by
      rw [List.map_flatMap]
      exact List.flatMap_congr fun x hx => (hcall x hx).2
    rw [hids]
    exact h.nodup

theorem warcSeek_run (h : Archived w writes) {chunks : List Bytes}
    (hc : Reads chunks (writes.foldl write w).content) {s : WARCWriter}
    (hx : (s, x) ∈ trace write w writes) :
    warcSeek x.args.uuid.recordId chunks =
      ((strays (writes.flatMap (Write.records w.name)) chunks (x.start s) (x.stop s)).findSome?
        (tryParseWarcRecord x.args.uuid.recordId)).or
        (if Uncut marker chunks (x.start s) (x.stop s)
          then some ((x.record w.name).parsed x.args.uuid.recordId) else none) := by
  obtain ⟨before, after, hw, rfl⟩ := exists_of_mem_trace hx
  obtain ⟨hs, hname, hcontent⟩ := h.state hw
  have hr := (readable_of_succeeds hs (by rw [hname]; exact h.noBreak)
    (h.noBreaks x (snd_mem_of_mem_trace hx))).1
  rw [hname] at hr
  have hsplit : writes.flatMap (Write.records w.name) =
      (before.flatMap (Write.records w.name) ++ x.lead) ++ x.record w.name ::
        after.flatMap (Write.records w.name) := by
    rw [hw, List.flatMap_append, List.flatMap_cons, Write.records]
    simp
  obtain ⟨hreadable, hnodup⟩ := h.readable
  have hothers : ∀ r ∈ (before.flatMap (Write.records w.name) ++ x.lead) ++
      after.flatMap (Write.records w.name),
      ∃ other, other ≠ x.args.uuid.recordId ∧ r.Readable other := by
    intro r hmem
    rw [hsplit] at hreadable hnodup
    refine ⟨r.recordId, ?_, hreadable r ?_⟩
    · rw [List.map_append, List.map_cons, List.nodup_middle, ← List.map_append,
        hr.recordId_eq_self, List.nodup_cons] at hnodup
      intro heq
      exact hnodup.1 (heq ▸ List.mem_map_of_mem hmem)
    · rw [List.mem_append] at hmem ⊢
      exact hmem.imp_right (List.mem_cons_of_mem _)
  have hflat := hc.flatten_eq
  rw [h.content_run, hsplit] at hflat
  rw [hsplit]
  refine warcSeek_file hr hothers hc.ne_nil hflat ?_ ?_
  · rw [Write.start, hcontent, fileBytes_append, List.length_append]
  · rw [Write.stop, hname]

/-- A record is found again exactly when what is read first, where no record starts, is right; or
nothing is, the url has no whitespace around it, and no chunk ends within the record behind a second
`WARC/1.`. -/
theorem seeksRight_iff (h : Archived w writes) {chunks : List Bytes}
    (hc : Reads chunks (writes.foldl write w).content) {s : WARCWriter}
    (hx : (s, x) ∈ trace write w writes) :
    SeeksRight chunks s x ↔
      match (strays (writes.flatMap (Write.records w.name)) chunks (x.start s) (x.stop s)).findSome?
        (tryParseWarcRecord x.args.uuid.recordId) with
      | some r => r.httpResponse = x.args.response ∧ r.url = x.args.url
      | none => strip x.args.url = x.args.url ∧ Uncut marker chunks (x.start s) (x.stop s) := by
  have hseek := warcSeek_run h hc hx
  obtain ⟨before, after, hw, rfl⟩ := exists_of_mem_trace hx
  obtain ⟨result, hresult, hid⟩ := recordId_of_succeeds (h.state hw).1
  have hright : SeeksRight chunks (before.foldl write w) x ↔
      ∃ r, warcSeek x.args.uuid.recordId chunks = some r ∧ r.httpResponse = x.args.response ∧
        r.url = x.args.url := by
    rw [← hid]
    constructor
    · rintro ⟨result', hresult', hr⟩
      rw [hresult] at hresult'
      obtain rfl := Option.some.inj hresult'
      exact hr
    · exact fun hr => ⟨result, hresult, hr⟩
  rw [hright, hseek]
  cases (strays (writes.flatMap (Write.records w.name)) chunks (x.start (before.foldl write w))
    (x.stop (before.foldl write w))).findSome? (tryParseWarcRecord x.args.uuid.recordId) with
  | some r => simp
  | none =>
    obtain ⟨hbody, hurl⟩ := parsed_record w.name x.args.uuid.recordId x
    by_cases hcut : Uncut marker chunks (x.start (before.foldl write w))
      (x.stop (before.foldl write w))
    · simp [hcut, hbody, hurl]
    · simp [hcut]

end

/-- A call whose file is read in one chunk. -/
def pageCall : Write :=
  .response { url := "http://x.onion/", date := "2026-01-01T00:00:00+00:00",
              response := encode "HTTP/1.1 200 OK\r\nContent-Length: 21\r\n\r\nWARC/1.0 is a format.",
              uuid := ⟨"00000000-0000-4000-8000-000000000000", forall_mem_of_all (by decide)⟩ }
    (encode "GET / HTTP/1.1\r\n\r\n")
    ⟨"00000000-0000-4000-8000-000000000001", forall_mem_of_all (by decide)⟩

/-- A writer that rotates at 10 GB. -/
def runWriter : WARCWriter :=
  { directory := "/evidence", name := "run.warc.gz", maxSize := 10 * 2 ^ 30 }

theorem seeksRight_pageCall :
    SeeksRight [([pageCall].foldl write runWriter).content] runWriter pageCall := by
  have harch : Archived runWriter [pageCall] :=
    ⟨rfl, rfl, by decide, by simp only [List.forall_mem_singleton]; exact ⟨by decide, by decide⟩,
      by decide +kernel, by decide, by decide +kernel⟩
  have hreads : Reads [([pageCall].foldl write runWriter).content]
      ([pageCall].foldl write runWriter).content :=
    ⟨by simp, by simp only [List.forall_mem_singleton]; decide +kernel⟩
  rw [seeksRight_iff harch hreads List.mem_cons_self]
  have hnone : (strays ([pageCall].flatMap (Write.records runWriter.name))
      [([pageCall].foldl write runWriter).content] (pageCall.start runWriter)
      (pageCall.stop runWriter)).findSome? (tryParseWarcRecord pageCall.args.uuid.recordId) =
        none := by
    decide +kernel
  rw [hnone]
  exact ⟨by decide, by decide +kernel⟩

/-! ### A record that is lost -/

/-- A response that starts like a WARC file. -/
def warcLike (n : Nat) : Bytes := marker ++ 0x30 :: List.replicate n 0x61

/-- One of more than a chunk. -/
@[irreducible] def lostResponse : Bytes := warcLike (2 ^ 20)

/-- The call that archives it. -/
def lostCall : Write :=
  .raw { url := "http://x.onion/", date := "2026-01-01T00:00:00+00:00", response := lostResponse,
         uuid := ⟨"00000000-0000-4000-8000-000000000000", forall_mem_of_all (by decide)⟩ }
    "application/http;msgtype=response"

def lostRecord : Record := lostCall.record runWriter.name

/-- The file, read by the megabyte. -/
def lostChunks : List Bytes :=
  [(fileBytes [lostRecord]).take (2 ^ 20), (fileBytes [lostRecord]).drop (2 ^ 20)]

theorem body_lostRecord : lostRecord.body = lostResponse := rfl

theorem length_warcLike (n : Nat) : (warcLike n).length = n + 8 := by
  simp [warcLike, marker]

theorem length_lostResponse : lostResponse.length = 2 ^ 20 + 8 := by
  rw [lostResponse, length_warcLike]

theorem natText_lostResponse : natText lostResponse.length = some "1048584" := by
  rw [length_lostResponse]
  decide +kernel

theorem length_header_lostRecord : lostRecord.header.length ≤ 4096 := by
  have htext : lengthText lostResponse.length = "1048584" := lengthText_eq natText_lostResponse
  refine (length_encode_le _).trans ?_
  simp only [lostRecord, lostCall, Write.record, rawRecord, Record.lines, htext, List.map_cons,
    List.map_nil, String.join_cons, String.length_append, payloadDigest, Digest.length_sha1]
  decide

theorem succeeds_lostCall : Succeeds runWriter lostCall := by
  have hlong : ¬ lostResponse.length < minPayloadSize := by
    rw [length_lostResponse]
    decide
  rw [Succeeds, lostCall, Write.apply, writeRaw, if_neg hlong]
  simp only [natText_lostResponse]
  rfl

theorem write_lostCall : write runWriter lostCall = runWriter.put (fileBytes [lostRecord]) :=
  write_of_succeeds succeeds_lostCall

theorem length_fileBytes_singleton (r : Record) :
    (fileBytes [r]).length = r.header.length + r.body.length + 2 := by
  rw [fileBytes, List.flatMap_singleton, Record.block, Record.bytes, List.length_append,
    List.length_append]
  rfl

theorem length_fileBytes_lostRecord : 2 ^ 20 < (fileBytes [lostRecord]).length ∧
    (fileBytes [lostRecord]).length < 2 ^ 21 := by
  have hheader := length_header_lostRecord
  have hbody := length_lostResponse
  rw [length_fileBytes_singleton, body_lostRecord]
  omega

theorem put_of_le {w : WARCWriter} {bytes : Bytes} (h : w.currentSize + bytes.length ≤ w.maxSize) :
    (w.put bytes).content = w.content ++ bytes ∧ (w.put bytes).closed = w.closed := by
  unfold WARCWriter.put
  simp only
  rw [if_neg (Nat.not_lt.2 h)]
  exact ⟨rfl, rfl⟩

theorem put_runWriter {bytes : Bytes} (h : bytes.length < 2 ^ 21) :
    (runWriter.put bytes).content = bytes ∧ (runWriter.put bytes).closed = [] := by
  have hsmall : runWriter.currentSize + bytes.length ≤ runWriter.maxSize := by
    simp only [runWriter]
    omega
  exact put_of_le hsmall

theorem archived_lostCall : Archived runWriter [lostCall] where
  content_eq := rfl
  closed_eq := rfl
  noBreak := by decide
  noBreaks := by
    rw [List.forall_mem_singleton]
    exact ⟨by decide, by decide, by decide⟩
  succeeds := ⟨succeeds_lostCall, trivial⟩
  nodup := List.nodup_singleton _
  unrotated := by
    rw [List.foldl_cons, List.foldl_nil, write_lostCall]
    exact (put_runWriter length_fileBytes_lostRecord.2).2

theorem fieldsFree_lostRecord : lostRecord.FieldsFree := by
  have htext : lengthText lostResponse.length = "1048584" := lengthText_eq natText_lostResponse
  have hdigest : 'W' ∉ (payloadDigest lostResponse).toList := by
    rw [payloadDigest, String.toList_append, List.mem_append, not_or]
    refine ⟨by decide, fun h => ?_⟩
    exact absurd (Digest.isHex_of_mem_sha1 _ _ h) (by decide)
  simp only [Record.FieldsFree, lostRecord, lostCall, Write.record, rawRecord, htext,
    List.forall_mem_cons]
  exact ⟨by decide, by decide, by decide, by decide, by decide, by decide,
    ⟨by decide, not_marker_of_notMem hdigest⟩, by decide, by simp⟩

theorem headerEnd_warcLike {a : Bytes} {n : Nat} (h : a <:+: warcLike n ++ crlf) :
    headerEnd a = none := by
  have hcrlf : find crlf2 a = none := by
    rw [find_eq_none_iff]
    intro hin
    have hcount := (hin.trans h).sublist.count_le 13
    simp [warcLike, crlf2, crlf, marker, List.count_replicate] at hcount
  have hlf : find lf2 a = none := by
    rw [find_eq_none_iff]
    intro hin
    have hcount := (hin.trans h).sublist.count_le 10
    simp [warcLike, lf2, crlf, marker, List.count_replicate] at hcount
  rw [headerEnd, hcrlf, hlf]
  rfl

theorem fileBytes_lostRecord :
    fileBytes [lostRecord] = lostRecord.header ++ (lostResponse ++ crlf) := by
  rw [fileBytes, List.flatMap_singleton, Record.block, Record.bytes, List.append_assoc,
    body_lostRecord]

theorem not_uncut_lostRecord {stop : Nat} (h : 2 ^ 20 < stop) :
    ¬ Uncut marker lostChunks 0 stop := by
  intro hcut
  have hlen := length_header_lostRecord
  have hpos : 7 ≤ lostRecord.header.length := (marker_prefix_header lostRecord).length_le
  refine hcut 1 (by decide) ?_ (isInfix_iff_exists_drop.2 ⟨lostRecord.header.length - 1, ?_⟩)
  · simp only [lostChunks, List.take_succ_cons, List.take_zero, List.flatten_singleton,
      List.length_take]
    omega
  · have hn : lostRecord.header.length + 7 ≤ 2 ^ 20 := by omega
    simp only [lostChunks, List.take_succ_cons, List.take_zero, List.flatten_singleton]
    generalize 2 ^ 20 = n at hn ⊢
    rw [List.drop_drop, show 0 + 1 + (lostRecord.header.length - 1) = lostRecord.header.length by
      omega, List.drop_take, fileBytes_lostRecord, List.drop_left, List.prefix_take_iff]
    refine ⟨?_, ?_⟩
    · rw [lostResponse, warcLike, List.append_assoc]
      exact List.prefix_append _ _
    · show 7 ≤ _
      omega

theorem tryParse_lostStrays (recordId : String) {start stop : Nat} :
    (strays [lostRecord] lostChunks start stop).findSome? (tryParseWarcRecord recordId) = none := by
  rw [List.findSome?_eq_none_iff]
  intro a ha
  obtain ⟨⟨q, a⟩, ht, rfl⟩ := List.mem_map.1 ha
  obtain ⟨hmem, hstray⟩ := List.mem_filter.1 ht
  have hflat : lostChunks.flatten = fileBytes [lostRecord] := by simp [lostChunks]
  obtain ⟨hm, hp⟩ := prefix_of_mem_tries ((List.takeWhile_prefix _).subset hmem)
  rw [hflat, fileBytes_lostRecord] at hp
  rcases marker_at_header fieldsFree_lostRecord (hm.trans hp) with rfl | ⟨hle, _⟩
  · simp [starts] at hstray
  · rw [List.drop_append, List.drop_eq_nil_of_le hle, List.nil_append, lostResponse] at hp
    exact tryParse_of_headerEnd_eq_none hm
      (headerEnd_warcLike (hp.isInfix.trans (List.drop_suffix _ _).isInfix)) recordId

theorem reads_lostChunks : Reads lostChunks ([lostCall].foldl write runWriter).content where
  flatten_eq := by
    rw [List.foldl_cons, List.foldl_nil, write_lostCall,
      (put_runWriter length_fileBytes_lostRecord.2).1]
    simp [lostChunks]
  ne_nil := by
    have hlen := length_fileBytes_lostRecord.1
    simp only [lostChunks, List.forall_mem_cons, ← List.length_pos_iff, List.length_take,
      List.length_drop]
    exact ⟨by omega, by omega, by simp⟩

theorem warcSeek_lostCall : warcSeek lostCall.args.uuid.recordId lostChunks = none := by
  have hseek := warcSeek_run archived_lostCall reads_lostChunks (x := lostCall) (s := runWriter)
    List.mem_cons_self
  have hrecords : [lostCall].flatMap (Write.records runWriter.name) = [lostRecord] := rfl
  have hstart : lostCall.start runWriter = 0 := rfl
  have hstop : 2 ^ 20 < lostCall.stop runWriter := by
    have hlen := length_lostResponse
    rw [Write.stop, hstart, ← lostRecord, Record.bytes, List.length_append, body_lostRecord]
    omega
  rw [hseek, hrecords, tryParse_lostStrays, hstart, if_neg (not_uncut_lostRecord hstop)]
  rfl

/-- Read by the megabyte, the record that was written is never found. -/
theorem not_seeksRight_lostCall :
    Archived runWriter [lostCall] ∧
      Reads lostChunks ([lostCall].foldl write runWriter).content ∧
      warcSeek lostCall.args.uuid.recordId lostChunks = none ∧
      ¬ SeeksRight lostChunks runWriter lostCall := by
  refine ⟨archived_lostCall, reads_lostChunks, warcSeek_lostCall, ?_⟩
  rintro ⟨result, hresult, r, hr, _⟩
  obtain ⟨result', hresult', hid⟩ := recordId_of_succeeds succeeds_lostCall
  rw [hresult] at hresult'
  obtain rfl := Option.some.inj hresult'
  rw [hid, warcSeek_lostCall] at hr
  cases hr

end Hledac.Evidence.Warc
