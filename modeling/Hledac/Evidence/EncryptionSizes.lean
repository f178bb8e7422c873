import Hledac.Evidence.ChannelRuns

/-!
# The sizes of lines

How many bytes the line of an event has. Two events of one batch that differ in payloads of one size have lines
of one size, whatever chain they are linked to: their digests are as long.
-/

namespace Hledac.Evidence

open Hledac.Lib Hledac.Py Raising

variable {c : Codecs} {cfg : LogConfig} {items items' : List BatchItem}

/-! ### Sizes -/

/-- Two values are serialised to as many bytes, if both are serialised. -/
def SameSize (c : Codecs) (v w : PyVal) : Prop :=
  ∀ b b', c.dumps v = .ok b → c.dumps w = .ok b' → b'.length = b.length

/-- The sizes of what `orjson` writes: a dictionary is as long as its keys and values make it, a digest is
written as it is, and what was written and read is written again in as many bytes. -/
structure SizeLaws (c : Codecs) : Prop where
  dict : ∀ d d' : List (String × PyVal),
    List.Forall₂ (fun p q => q.1 = p.1 ∧ SameSize c p.2 q.2) d d' → SameSize c (.dict d) (.dict d')
  digest : ∀ text text' : Bytes, SameSize c (.str (Digest.sha256 text)) (.str (Digest.sha256 text'))
  again : ∀ v w b b', c.dumps v = .ok b → c.loads b = .ok w → c.dumps w = .ok b' → b'.length = b.length

theorem SameSize.refl (c : Codecs) (v : PyVal) : SameSize c v v := by
  intro b b' hb hb'
  rw [hb] at hb'
  cases hb'
  rfl

/-- A digest of some bytes. -/
def IsSha (hash : String) : Prop := ∃ text, hash = Digest.sha256 text

theorem isSha_computeChainHash (head contentHash eventId : String) :
    IsSha (computeChainHash head contentHash eventId) := ⟨_, rfl⟩

theorem IsSha.truthy {hash : String} (h : IsSha hash) : truthy (some hash) = true := by
  obtain ⟨text, rfl⟩ := h
  have hlength := Digest.length_sha256 text
  rw [Evidence.truthy, bne_iff_ne]
  intro hempty
  rw [hempty] at hlength
  cases hlength

theorem SizeLaws.sha (hc : SizeLaws c) {hash hash' : String} (h : IsSha hash) (h' : IsSha hash') :
    SameSize c (.str hash) (.str hash') := by
  obtain ⟨text, rfl⟩ := h
  obtain ⟨text', rfl⟩ := h'
  exact hc.digest text text'

/-- An event with two digests as its links. -/
structure Linked (e : EvidenceEvent) : Prop where
  contentHash : IsSha e.contentHash
  prevChainHash : ∃ hash, e.prevChainHash = some hash ∧ IsSha hash
  chainHash : ∃ hash, e.chainHash = some hash ∧ IsSha hash

/-- Two events differ in their payloads and digests only, and the payloads have one size. -/
structure SameLine (c : Codecs) (e f : EvidenceEvent) : Prop where
  same : f = { e with
    payload := f.payload
    contentHash := f.contentHash
    prevChainHash := f.prevChainHash
    chainHash := f.chainHash }
  payload : ∀ v w, c.loads e.payload = .ok v → c.loads f.payload = .ok w → SameSize c v w
  left : Linked e
  right : Linked f

/-- The fields of a linked event. -/
def lineFields (e : EvidenceEvent) (timestamp : String) (payload : PyVal) : List (String × PyVal) :=
  [("event_id", .str e.eventId), ("event_type", .str e.eventType), ("timestamp", .str timestamp),
      ("payload", payload), ("source_ids", .list (e.sourceIds.map .str)), ("confidence", .float e.confidence),
      ("content_hash", .str e.contentHash), ("run_id", .str e.runId)] ++
    ((if e.seqNo > 0 then [("seq_no", .int e.seqNo)] else []) ++
      [("prev_chain_hash", optStr e.prevChainHash), ("chain_hash", optStr e.chainHash)])

theorem Linked.toDict {e : EvidenceEvent} (h : Linked e) {d : List (String × PyVal)}
    (hd : e.toDict c = .ok d) : ∃ timestamp payload, utcIsoformat e.timestamp = .ok timestamp ∧
      c.loads e.payload = .ok payload ∧ d = lineFields e timestamp payload := by
  rw [EvidenceEvent.toDict, bind_eq_ok_iff] at hd
  obtain ⟨timestamp, htimestamp, hrest⟩ := hd
  obtain ⟨payload, hpayload, hd⟩ := bind_eq_ok_iff.1 hrest
  obtain ⟨prev, hprev, hprevSha⟩ := h.prevChainHash
  obtain ⟨chain, hchain, hchainSha⟩ := h.chainHash
  rw [hprev, hchain, if_pos hprevSha.truthy, if_pos hchainSha.truthy] at hd
  refine ⟨timestamp, payload, htimestamp, hpayload, ?_⟩
  rw [lineFields, hprev, hchain, ← List.append_assoc, ← Except.ok.inj hd, List.append_assoc _ [_] [_]]
  rfl

theorem SameLine.links (hc : SizeLaws c) {e f : EvidenceEvent} (h : SameLine c e f) :
    SameSize c (optStr e.prevChainHash) (optStr f.prevChainHash) ∧
      SameSize c (optStr e.chainHash) (optStr f.chainHash) := by
  obtain ⟨prev, hprev, hprevSha⟩ := h.left.prevChainHash
  obtain ⟨chain, hchain, hchainSha⟩ := h.left.chainHash
  obtain ⟨prev', hprev', hprevSha'⟩ := h.right.prevChainHash
  obtain ⟨chain', hchain', hchainSha'⟩ := h.right.chainHash
  rw [hprev, hchain, hprev', hchain']
  exact ⟨hc.sha hprevSha hprevSha', hc.sha hchainSha hchainSha'⟩

theorem SameLine.lineFields (hc : SizeLaws c) {e f : EvidenceEvent} (h : SameLine c e f) (timestamp : String)
    {payload payload' : PyVal} (hp : SameSize c payload payload') :
    List.Forall₂ (fun p q => q.1 = p.1 ∧ SameSize c p.2 q.2) (lineFields e timestamp payload)
      (lineFields f timestamp payload') := by
  have hrefl := SameSize.refl c
  have hlinks := h.links hc
  have hcontent : SameSize c (.str e.contentHash) (.str f.contentHash) :=
    hc.sha h.left.contentHash h.right.contentHash
  obtain ⟨eventId, eventType, time, bytes, sourceIds, confidence, content, runId, seqNo, prev, chain⟩ := e
  obtain ⟨_, _, _, bytes', _, _, content', _, _, prev', chain'⟩ := f
  cases h.same
  apply List.rel_append
  · exact .cons ⟨rfl, hrefl _⟩ (.cons ⟨rfl, hrefl _⟩ (.cons ⟨rfl, hrefl _⟩ (.cons ⟨rfl, hp⟩
      (.cons ⟨rfl, hrefl _⟩ (.cons ⟨rfl, hrefl _⟩ (.cons ⟨rfl, hcontent⟩ (.cons ⟨rfl, hrefl _⟩ .nil)))))))
  · apply List.rel_append
    · split
      · exact .cons ⟨rfl, hrefl _⟩ .nil
      · exact .nil
    · exact .cons ⟨rfl, hlinks.1⟩ (.cons ⟨rfl, hlinks.2⟩ .nil)

theorem SameLine.length_toJsonlLine (hc : SizeLaws c) {e f : EvidenceEvent} (h : SameLine c e f)
    {line line' : Bytes} (hl : e.toJsonlLine c = .ok line) (hl' : f.toJsonlLine c = .ok line') :
    line'.length = line.length := by
  rw [EvidenceEvent.toJsonlLine, bind_eq_ok_iff] at hl hl'
  obtain ⟨d, hd, hl⟩ := hl
  obtain ⟨d', hd', hl'⟩ := hl'
  obtain ⟨timestamp, payload, htimestamp, hpayload, rfl⟩ := h.left.toDict hd
  obtain ⟨timestamp', payload', htimestamp', hpayload', rfl⟩ := h.right.toDict hd'
  have ht : f.timestamp = e.timestamp := by rw [h.same]
  rw [ht, htimestamp] at htimestamp'
  cases htimestamp'
  obtain ⟨bytes, hbytes, hline⟩ := bind_eq_ok_iff.1 hl
  obtain ⟨bytes', hbytes', hline'⟩ := bind_eq_ok_iff.1 hl'
  have hdict := hc.dict _ _ (h.lineFields hc timestamp (h.payload payload payload' hpayload hpayload'))
  rw [← Except.ok.inj hline, ← Except.ok.inj hline', List.length_append, List.length_append,
    hdict bytes bytes' hbytes hbytes']

/-! ### Two batches -/

/-- The bytes of the payload of a tuple's event, if it has one. -/
def BatchItem.payloadLength (c : Codecs) (cfg : LogConfig) (item : BatchItem) : Option Nat :=
  (buildBatchEvent c cfg item).toOption.map (·.payload.length)

/-- Two tuples differ in their payloads only, and these have one size. -/
structure BatchItem.SameButPayload (c : Codecs) (cfg : LogConfig) (x y : BatchItem) : Prop where
  same : y = { x with payload := y.payload }
  length : y.payloadLength c cfg = x.payloadLength c cfg

theorem buildBatchEvent_fields {item : BatchItem} {event : EvidenceEvent}
    (h : buildBatchEvent c cfg item = .ok event) :
    (∃ v, c.dumps v = .ok event.payload) ∧ IsSha event.contentHash ∧
      event =
        { eventId := cfg.runId ++ "_" ++ item.hex
          eventType := item.eventType
          timestamp := item.now
          payload := event.payload
          sourceIds := item.sourceIds.getD []
          confidence := item.confidence
          contentHash := event.contentHash
          runId := cfg.runId } := by
  rw [buildBatchEvent, bind_eq_ok_iff] at h
  obtain ⟨v, -, hrest⟩ := h
  obtain ⟨payload, hpayload, hhash⟩ := bind_eq_ok_iff.1 hrest
  obtain ⟨contentHash, hcontent, hevent⟩ := bind_eq_ok_iff.1 hhash
  rw [EvidenceEvent.calculateHash, bind_eq_ok_iff] at hcontent
  obtain ⟨loaded, -, hof⟩ := hcontent
  obtain ⟨json, -, hsha⟩ := bind_eq_ok_iff.1 hof
  cases hevent
  exact ⟨⟨v, hpayload⟩, ⟨json, (Except.ok.inj hsha).symm⟩, rfl⟩

theorem BatchItem.SameButPayload.sameLine (hc : SizeLaws c) {x y : BatchItem} (h : x.SameButPayload c cfg y)
    {e f : EvidenceEvent} (hx : buildBatchEvent c cfg x = .ok e) (hy : buildBatchEvent c cfg y = .ok f)
    {head head' : String} (hh : IsSha head) (hh' : IsSha head') : SameLine c (e.link head) (f.link head') := by
  obtain ⟨⟨u, hu⟩, hesha, he⟩ := buildBatchEvent_fields hx
  obtain ⟨⟨v, hv⟩, hfsha, hf⟩ := buildBatchEvent_fields hy
  constructor
  · have hsame : f = { e with payload := f.payload, contentHash := f.contentHash } := by
      rw [hf, he, h.same]
    rw [EvidenceEvent.link, EvidenceEvent.link, hsame]
  · intro loaded loaded' hload hload' b b' hb hb'
    have hlength : f.payload.length = e.payload.length := by
      have heq := h.length
      rw [BatchItem.payloadLength, BatchItem.payloadLength, hx, hy] at heq
      exact Option.some.inj heq
    rw [hc.again v loaded' f.payload b' hv hload' hb', hc.again u loaded e.payload b hu hload hb, hlength]
  · exact ⟨hesha, ⟨head, rfl, hh⟩, ⟨_, rfl, isSha_computeChainHash _ _ _⟩⟩
  · exact ⟨hfsha, ⟨head', rfl, hh'⟩, ⟨_, rfl, isSha_computeChainHash _ _ _⟩⟩

theorem BatchItem.SameButPayload.cases {x y : BatchItem} (h : x.SameButPayload c cfg y) :
    (∃ e f, buildBatchEvent c cfg x = .ok e ∧ buildBatchEvent c cfg y = .ok f) ∨
      ∃ err err', buildBatchEvent c cfg x = .error err ∧ buildBatchEvent c cfg y = .error err' := by
  have hlength := h.length
  rw [BatchItem.payloadLength, BatchItem.payloadLength] at hlength
  cases hx : buildBatchEvent c cfg x with
  | ok e =>
    cases hy : buildBatchEvent c cfg y with
    | ok f => exact Or.inl ⟨e, f, rfl, rfl⟩
    | error err =>
      rw [hx, hy] at hlength
      cases hlength
  | error err =>
    cases hy : buildBatchEvent c cfg y with
    | ok f =>
      rw [hx, hy] at hlength
      cases hlength
    | error err' => exact Or.inr ⟨err, err', rfl, rfl⟩

theorem BatchItem.SameButPayload.eventType {x y : BatchItem} (h : x.SameButPayload c cfg y) :
    y.eventType = x.eventType := by rw [h.same]

theorem BatchItem.SameButPayload.sampledOut {x y : BatchItem} (h : x.SameButPayload c cfg y) :
    sampledOut cfg y.draw y.eventType = sampledOut cfg x.draw x.eventType := by rw [h.same]

theorem sameLine_linkAll (hc : SizeLaws c)
    (h : List.Forall₂ (BatchItem.SameButPayload c cfg) items items') {head head' : String} (hh : IsSha head)
    (hh' : IsSha head') : List.Forall₂ (SameLine c) (linkAll c cfg head items) (linkAll c cfg head' items') := by
  induction h generalizing head head' with
  | nil => exact .nil
  | @cons x y _ _ hxy _ ih =>
    rw [linkAll, linkAll]
    cases hxy.cases with
    | inl hok =>
      obtain ⟨e, f, hx, hy⟩ := hok
      rw [hx, hy]
      exact .cons (hxy.sameLine hc hx hy hh hh') (ih (isSha_computeChainHash _ _ _) (isSha_computeChainHash _ _ _))
    | inr herror =>
      obtain ⟨err, err', hx, hy⟩ := herror
      rw [hx, hy]
      exact .nil

theorem sameButPayload_keptItems (h : List.Forall₂ (BatchItem.SameButPayload c cfg) items items') :
    List.Forall₂ (BatchItem.SameButPayload c cfg) (keptItems cfg items) (keptItems cfg items') := by
  induction h with
  | nil => exact .nil
  | @cons x y _ _ hxy _ ih =>
    by_cases hs : sampledOut cfg x.draw x.eventType = true
    · rw [keptItems_cons_of_sampled hs, keptItems_cons_of_sampled (hxy.sampledOut.trans hs)]
      exact ih
    · rw [keptItems_cons_of_kept hs, keptItems_cons_of_kept fun hy => hs (hxy.sampledOut.symm.trans hy)]
      exact .cons hxy ih

theorem storesAll_congr (h : List.Forall₂ (BatchItem.SameButPayload c cfg) items items') (n : Nat) :
    StoresAll c cfg n items' ↔ StoresAll c cfg n items := by
  induction h generalizing n with
  | nil => exact Iff.rfl
  | @cons x y _ _ hxy _ ih =>
    have hevent : (∃ f, buildBatchEvent c cfg y = .ok f) ↔ ∃ e, buildBatchEvent c cfg x = .ok e := by
      cases hxy.cases with
      | inl hok =>
        obtain ⟨e, f, hx, hy⟩ := hok
        exact iff_of_true ⟨f, hy⟩ ⟨e, hx⟩
      | inr herror =>
        obtain ⟨err, err', hx, hy⟩ := herror
        rw [hx, hy]
        simp
    rw [StoresAll, StoresAll, hevent, hxy.eventType, ih]

theorem map_length_lines (hc : SizeLaws c) {es fs : List EvidenceEvent} (h : List.Forall₂ (SameLine c) es fs)
    {lines lines' : List Bytes} (hl : es.mapM (·.toJsonlLine c) = .ok lines)
    (hl' : fs.mapM (·.toJsonlLine c) = .ok lines') : lines'.map List.length = lines.map List.length := by
  rw [mapM_eq_ok_iff] at hl hl'
  induction h generalizing lines lines' with
  | nil =>
    cases hl
    cases hl'
    rfl
  | cons hef _ ih =>
    cases hl with
    | cons hline hrest =>
      cases hl' with
      | cons hline' hrest' =>
        rw [List.map_cons, List.map_cons, hef.length_toJsonlLine hc hline hline', ih hrest hrest']

/-! ### Codecs with two payloads -/

/-- The payloads of one letter. -/
def letterPayload (letter : String) : List (String × PyVal) := [("k", .str letter)]

/-- Codecs that agree with the real ones on events with a payload of the letter `a` or `b`. -/
def letterCodecs : Codecs :=
  { eventCodecs with
    loads := fun bs =>
      if bs = encode "\x7b\"k\":\"a\"\x7d" then .ok (.dict (letterPayload "a"))
      else if bs = encode "\x7b\"k\":\"b\"\x7d" then .ok (.dict (letterPayload "b"))
      else eventCodecs.loads bs }

private theorem length_encode_congr_append {s t s' t' : String} (hs : (encode s').length = (encode s).length)
    (ht : (encode t').length = (encode t).length) : (encode (s' ++ t')).length = (encode (s ++ t)).length := by
  rw [encode_append, encode_append, List.length_append, List.length_append, hs, ht]

theorem length_encode_sha256 (text : Bytes) : (encode (Digest.sha256 text)).length = 64 := by
  have hone : ∀ chars : List Char, (∀ ch ∈ chars, Digest.IsHex ch) →
      (chars.flatMap String.utf8EncodeChar).length = chars.length := by
    intro chars
    induction chars with
    | nil => exact fun _ => rfl
    | cons ch rest ih =>
      intro h
      have hsize : ['0', '1', '2', '3', '4', '5', '6', '7', '8', '9', 'a', 'b', 'c', 'd', 'e', 'f'].all
          (fun d => d.utf8Size == 1) = true := by decide
      have hone : ch.utf8Size = 1 := beq_iff_eq.1 (List.all_eq_true.1 hsize ch (h ch List.mem_cons_self))
      rw [List.flatMap_cons, List.length_append, String.length_utf8EncodeChar, hone,
        ih fun d hd => h d (List.mem_cons_of_mem _ hd), List.length_cons, Nat.add_comm]
  rw [encode_eq_flatMap, hone _ (Digest.isHex_of_mem_sha256 text), String.length_toList, Digest.length_sha256]

theorem length_encode_intercalate {xs ys : List String}
    (h : List.Forall₂ (fun x y => (encode y).length = (encode x).length) xs ys) :
    (encode (",".intercalate ys)).length = (encode (",".intercalate xs)).length := by
  induction h with
  | nil => rfl
  | @cons x y xs ys hxy hrest ih =>
    cases hrest with
    | nil =>
      rw [String.intercalate_singleton, String.intercalate_singleton]
      exact hxy
    | cons _ _ =>
      rw [String.intercalate_cons_cons, String.intercalate_cons_cons]
      exact length_encode_congr_append (length_encode_congr_append hxy rfl) ih

private theorem dumps_letterCodecs {v : PyVal} {b : Bytes} :
    letterCodecs.dumps v = .ok b ↔ ∃ text, jsonText false v = .ok text ∧ encode text = b := by
  show encode <$> jsonText false v = .ok b ↔ _
  cases jsonText false v with
  | error err =>
    constructor
    · intro h
      cases h
    · intro h
      obtain ⟨text, htext, -⟩ := h
      cases htext
  | ok text =>
    constructor
    · exact fun h => ⟨text, rfl, Except.ok.inj h⟩
    · intro h
      obtain ⟨text', htext, hb⟩ := h
      cases htext
      exact congrArg Except.ok hb

private theorem length_members {d d' : List (String × PyVal)}
    (h : List.Forall₂ (fun p q => q.1 = p.1 ∧ SameSize letterCodecs p.2 q.2) d d')
    {ms ms' : List (String × String)} (hm : jsonMembers false d = .ok ms) (hm' : jsonMembers false d' = .ok ms') :
    List.Forall₂ (fun x y => (encode y).length = (encode x).length)
      (ms.map fun p => "\"" ++ p.1 ++ "\":" ++ p.2) (ms'.map fun p => "\"" ++ p.1 ++ "\":" ++ p.2) := by
  induction h generalizing ms ms' with
  | nil =>
    cases hm
    cases hm'
    exact .nil
  | @cons p q _ _ hpq _ ih =>
    obtain ⟨key, value⟩ := p
    obtain ⟨key', value'⟩ := q
    cases hpq.1
    rw [jsonMembers, bind_eq_ok_iff] at hm hm'
    obtain ⟨text, htext, hrest⟩ := hm
    obtain ⟨text', htext', hrest'⟩ := hm'
    obtain ⟨ws, hws, hms⟩ := bind_eq_ok_iff.1 hrest
    obtain ⟨ws', hws', hms'⟩ := bind_eq_ok_iff.1 hrest'
    cases hms
    cases hms'
    have hvalue : (encode text').length = (encode text).length :=
      hpq.2 _ _ (dumps_letterCodecs.2 ⟨text, htext, rfl⟩) (dumps_letterCodecs.2 ⟨text', htext', rfl⟩)
    exact .cons (length_encode_congr_append rfl hvalue) (ih hws hws')

theorem sizeLaws_letterCodecs : SizeLaws letterCodecs where
  dict := by
    intro d d' h b b' hb hb'
    obtain ⟨text, htext, rfl⟩ := dumps_letterCodecs.1 hb
    obtain ⟨text', htext', rfl⟩ := dumps_letterCodecs.1 hb'
    rw [jsonText, bind_eq_ok_iff] at htext htext'
    obtain ⟨ms, hms, hobject⟩ := htext
    obtain ⟨ms', hms', hobject'⟩ := htext'
    cases hobject
    cases hobject'
    exact length_encode_congr_append
      (length_encode_congr_append rfl (length_encode_intercalate (length_members h hms hms'))) rfl
  digest := by
    intro text text' b b' hb hb'
    obtain ⟨quoted, hquoted, rfl⟩ := dumps_letterCodecs.1 hb
    obtain ⟨quoted', hquoted', rfl⟩ := dumps_letterCodecs.1 hb'
    cases hquoted
    cases hquoted'
    apply length_encode_congr_append _ rfl
    apply length_encode_congr_append rfl
    rw [length_encode_sha256, length_encode_sha256]
  again := by
    intro v w b b' _ hw hb'
    simp only [letterCodecs, eventCodecs, plainCodecs] at hw
    split at hw
    · next ha =>
      cases hw
      cases hb'
      rw [ha]
      rfl
    · split at hw
      · next hb =>
        cases hw
        cases hb'
        rw [hb]
        rfl
      · split at hw
        · next hempty =>
          cases hw
          cases hb'
          rw [hempty]
          rfl
        · cases hw

end Hledac.Evidence
