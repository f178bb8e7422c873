import Hledac.Evidence.Index
import Hledac.Lib.Traversal

/-!
# Querying the log

`query` of `evidence/_log.py`, and the linear scan it stands for. The two agree on the logs whose
events all have an indexed type, except where a query names a type without an index, which selects
every event, or a limit that is not positive, which does not cut the result to nothing. `get_chain` goes back along the
sources of an event, as far as they are retained.
-/

namespace Hledac.Evidence

open Hledac.Lib Hledac.Py Raising

variable {c : Codecs} {cfg : LogConfig}

/-- A bound on the timestamp. The signature asks for `datetime` objects, which Python does not
compare with the float timestamps. -/
inductive TimeBound where
  | datetime
  | number (q : ℚ)
  deriving DecidableEq

/-- Arguments of `query`; `_log.py:3750-3757`. -/
structure QueryArgs where
  eventType : Option String := none
  minConfidence : ℚ := 0
  afterTimestamp : Option TimeBound := none
  beforeTimestamp : Option TimeBound := none
  limit : Option Int := none
  deriving DecidableEq

/-- `bound and out(bound)`: a missing bound and the number zero hold for every event. -/
def outside (bound : Option TimeBound) (out : ℚ → Bool) : Except PyError Bool :=
  match bound with
  | none => .ok false
  | some (.number q) => .ok (q ≠ 0 && out q)
  | some .datetime =>
    .error ⟨.typeError, "'<' not supported between instances of 'float' and 'datetime'"⟩

/-- The tests of the loop on one event; `_log.py:3777-3782`. -/
def passes (args : QueryArgs) (event : EvidenceEvent) : Except PyError Bool := do
  if event.confidence < args.minConfidence then return false
  else if ← outside args.afterTimestamp (event.timestamp < ·) then return false
  else if ← outside args.beforeTimestamp (event.timestamp > ·) then return false
  else return true

/-- The loop of `query`; `_log.py:3775-3783`. -/
def queryLoop (log : List EvidenceEvent) (args : QueryArgs) :
    List Nat → Except PyError (List EvidenceEvent)
  | [] => .ok []
  | position :: rest =>
    match log[position]? with
    | none => .error ⟨.indexError, "deque index out of range"⟩
    | some event => do
      let keep ← passes args event
      let results ← queryLoop log args rest
      return if keep then event :: results else results

/-- `results[:limit]`: a negative limit leaves out that many entries at the end. -/
def sliceTo {α : Type} (xs : List α) (limit : Int) : List α :=
  xs.take (if limit < 0 then (xs.length + limit).toNat else limit.toNat)

/-- The positions that `query` follows: those of the index, for a type that has one, and all
others; `_log.py:3771-3774`. -/
def queryPositions (s : EvidenceLog) (eventType : Option String) : List Nat :=
  match eventType with
  | some t =>
    match (if t ≠ "" then s.indexByType.lookup t else none) with
    | some indices => indices.toList
    | none => List.range s.log.length
  | none => List.range s.log.length

/-- The limit is applied when it is not zero; `_log.py:3784-3786`. -/
def applyLimit {α : Type} (results : List α) (limit : Option Int) : List α :=
  match limit with
  | some l => if l ≠ 0 ∧ (results.length : Int) > l then sliceTo results l else results
  | none => results

/-- `query`; `_log.py:3750-3787`. -/
def query (s : EvidenceLog) (args : QueryArgs) : Except PyError (List EvidenceEvent) := do
  let results ← queryLoop s.log.toList args (queryPositions s args.eventType)
  return applyLimit results args.limit

/-! ### The linear scan -/

/-- The event has the wanted type. -/
def HasType (eventType : Option String) (event : EvidenceEvent) : Bool :=
  match eventType with
  | some t => event.eventType == t
  | none => true

/-- The event has the wanted type, and enough confidence. -/
def Wanted (eventType : Option String) (minConfidence : ℚ) (event : EvidenceEvent) : Bool :=
  HasType eventType event && decide (minConfidence ≤ event.confidence)

/-- At most `limit` entries; no limit keeps all. -/
def truncate {α : Type} (xs : List α) (limit : Option Int) : List α :=
  match limit with
  | some l => xs.take l.toNat
  | none => xs

/-- The retained events of the wanted type and confidence, in order, at most `limit`. -/
def scan (s : EvidenceLog) (eventType : Option String) (minConfidence : ℚ) (limit : Option Int) :
    List EvidenceEvent :=
  truncate (s.log.toList.filter (Wanted eventType minConfidence)) limit

/-! ### The query as a scan -/

/-- The type by which `query` really selects: one without an index selects everything. -/
def selectedType (eventType : Option String) : Option String :=
  match eventType with
  | some t => if t ∈ indexedTypes then some t else none
  | none => none

/-- `query` without time bounds tests the confidence only. -/
private theorem passes_of_no_bounds (t : Option String) (q : ℚ) (l : Option Int)
    (event : EvidenceEvent) :
    passes { eventType := t, minConfidence := q, limit := l } event =
      .ok (decide (q ≤ event.confidence)) := by
  unfold passes
  by_cases h : event.confidence < q
  · have hn : ¬ q ≤ event.confidence := not_le.2 h
    simp [h, hn, pure, Except.pure]
  · have hy : q ≤ event.confidence := not_lt.1 h
    simp [h, hy, outside, pure, Except.pure, bind, Except.bind]

private theorem queryLoop_of_positions {log : List EvidenceEvent} {args : QueryArgs}
    {keep : EvidenceEvent → Bool} (hk : ∀ e, passes args e = .ok (keep e)) {ps : List Nat}
    {events : List EvidenceEvent} (h : ps.map (log[·]?) = events.map some) :
    queryLoop log args ps = .ok (events.filter keep) := by
  induction ps generalizing events with
  | nil =>
    cases events with
    | nil => rfl
    | cons e es => simp at h
  | cons p ps ih =>
    cases events with
    | nil => simp at h
    | cons e es =>
      simp only [List.map_cons, List.cons.injEq] at h
      obtain ⟨hp, hps⟩ := h
      rw [queryLoop, hp]
      simp only [hk, ih hps, bind, Except.bind, pure, Except.pure]
      cases hke : keep e
      · simp [hke]
      · simp [hke]

/-- The positions that a query follows are those of the type it selects by. -/
private theorem queryPositions_eq {s : EvidenceLog} (h : IndexExact s) (t : Option String) :
    (queryPositions s t).map (s.log.toList[·]?) =
      (s.log.toList.filter (HasType (selectedType t))).map some := by
  have hall : (List.range s.log.length).map (s.log.toList[·]?) =
      (s.log.toList.filter (HasType none)).map some := by
    rw [Deque.length, range_eq_positions, map_getElem?_positions]
    rfl
  cases t with
  | none => exact hall
  | some name =>
    by_cases ht : name ∈ indexedTypes
    · have hne : name ≠ "" := by
        rintro rfl
        revert ht
        decide
      obtain ⟨ps, hl, hps⟩ := h.lookup ht
      simp only [queryPositions, hne, ne_eq, not_false_eq_true, ite_true, hl, hps, selectedType, ht]
      exact map_getElem?_positions _
    · have hl : s.indexByType.lookup name = none := by
        rw [List.lookup_eq_none_iff]
        intro p hp
        have hk : p.1 ∈ indexedTypes := by
          rw [← h.keys]
          exact List.mem_map.2 ⟨p, hp, rfl⟩
        rw [bne_iff_ne]
        rintro rfl
        exact ht hk
      simp only [queryPositions, hl, ite_self, selectedType, ht, ite_false]
      exact hall

/-- The events that `query` finds before the limit. -/
def found (s : EvidenceLog) (eventType : Option String) (minConfidence : ℚ) :
    List EvidenceEvent :=
  s.log.toList.filter (Wanted (selectedType eventType) minConfidence)

/-- With an exact index, `query` scans for the type it selects by. -/
theorem query_eq {s : EvidenceLog} (h : IndexExact s) (t : Option String) (q : ℚ)
    (l : Option Int) :
    query s { eventType := t, minConfidence := q, limit := l } =
      .ok (applyLimit (found s t q) l) := by
  have hloop := queryLoop_of_positions (passes_of_no_bounds t q l) (queryPositions_eq h t)
  rw [List.filter_filter] at hloop
  have hfound : s.log.toList.filter (fun e => decide (q ≤ e.confidence) &&
      HasType (selectedType t) e) = found s t q := by
    apply List.filter_congr
    intro e _
    rw [Wanted, Bool.and_comm]
  unfold query
  rw [hloop, hfound]
  rfl

/-! ### When the two agree -/

/-- How many results a limit that is not positive lets `query` drop. -/
def spare (limit : Option Int) : Nat :=
  match limit with
  | some l => (-l).toNat
  | none => 0

/-- The query asks for every type or for one that has an index, and its limit, if any, is
positive. -/
def WellAsked (eventType : Option String) (limit : Option Int) : Prop :=
  (∀ t, eventType = some t → t ∈ indexedTypes) ∧ ∀ l, limit = some l → 0 < l

private theorem applyLimit_of_pos {xs : List EvidenceEvent} {limit : Option Int}
    (h : ∀ l, limit = some l → 0 < l) : applyLimit xs limit = truncate xs limit := by
  cases limit with
  | none => rfl
  | some l =>
    have hl := h l rfl
    simp only [applyLimit, truncate, sliceTo]
    by_cases hx : (xs.length : Int) > l
    · rw [if_pos ⟨by omega, hx⟩, if_neg (by omega)]
    · rw [if_neg (fun hc => hx hc.2), List.take_of_length_le (by omega)]

private theorem applyLimit_eq_nil_iff {xs : List EvidenceEvent} {limit : Option Int} :
    applyLimit xs limit = [] ↔ xs.length ≤ spare limit := by
  cases limit with
  | none => simp [applyLimit, spare]
  | some l =>
    simp only [applyLimit, spare, sliceTo]
    by_cases hc : l ≠ 0 ∧ (xs.length : Int) > l
    · rw [if_pos hc, List.take_eq_nil_iff, ← List.length_eq_zero_iff]
      split <;> omega
    · rw [if_neg hc, ← List.length_eq_zero_iff]
      omega

private theorem truncate_eq_nil_of_nonpos {xs : List EvidenceEvent} {l : Int} (h : ¬ 0 < l) :
    truncate xs (some l) = [] := by
  rw [truncate, Int.toNat_of_nonpos (by omega), List.take_zero]

/-- A query on an exact index is the linear scan exactly when it is well asked, or what it finds
without being so is no more than what its limit drops. -/
theorem applyLimit_eq_scan_iff {s : EvidenceLog}
    (ht : ∀ e ∈ s.log.toList, e.eventType ∈ indexedTypes) (t : Option String) (q : ℚ)
    (l : Option Int) :
    applyLimit (found s t q) l = scan s t q l ↔
      WellAsked t l ∨ (found s t q).length ≤ spare l := by
  by_cases hknown : ∀ name, t = some name → name ∈ indexedTypes
  · have hsel : selectedType t = t := by
      cases t with
      | none => rfl
      | some name => simp [selectedType, hknown name rfl]
    have hscan : scan s t q l = truncate (found s t q) l := by
      rw [scan, found, hsel]
    rw [hscan]
    by_cases hl : ∀ n, l = some n → 0 < n
    · rw [applyLimit_of_pos hl]
      exact iff_of_true rfl (.inl ⟨hknown, hl⟩)
    · have hn : ¬ WellAsked t l := fun h => hl h.2
      rw [or_iff_right hn]
      cases l with
      | none => exact absurd (by simp) hl
      | some n =>
        have hnp : ¬ 0 < n := by
          intro hpos
          apply hl
          rintro m ⟨⟩
          exact hpos
        rw [truncate_eq_nil_of_nonpos hnp, applyLimit_eq_nil_iff]
  · have hn : ¬ WellAsked t l := fun h => hknown h.1
    have hscan : scan s t q l = [] := by
      have hnil : s.log.toList.filter (Wanted t q) = [] := by
        rw [List.filter_eq_nil_iff]
        intro e he hw
        apply hknown
        rintro name rfl
        have heq : e.eventType = name := by
          simp only [Wanted, HasType, Bool.and_eq_true, beq_iff_eq] at hw
          exact hw.1
        exact heq ▸ ht e he
      rw [scan, hnil]
      cases l <;> simp [truncate]
    rw [hscan, or_iff_right hn, applyLimit_eq_nil_iff]

/-- In a run that stores events of the indexed types only, whatever raises and however often the
ring overflows: the positions in the index are in range and point to events of their type, and a
query is the linear scan exactly when it is well asked or finds no more than its limit drops. -/
theorem query_run_iff (c : Codecs) (cfg : LogConfig) (ops : List Op)
    (h : StoredIndexed (run c cfg ops)) :
    (∀ p ∈ (run c cfg ops).indexByType, ∀ i ∈ p.2.toList,
      ∃ e, (run c cfg ops).log.toList[i]? = some e ∧ e.eventType = p.1) ∧
    ∀ (eventType : Option String) (minConfidence : ℚ) (limit : Option Int),
      query (run c cfg ops) { eventType, minConfidence, limit } =
          .ok (scan (run c cfg ops) eventType minConfidence limit) ↔
        WellAsked eventType limit ∨
          (found (run c cfg ops) eventType minConfidence).length ≤ spare limit := by
  obtain ⟨hex, ht⟩ := indexExact_run h
  constructor
  · intro p hp i hi
    rw [hex.entries p hp] at hi
    obtain ⟨e, he, hty⟩ := exists_of_mem_positions hi
    exact ⟨e, he, by simpa using hty⟩
  · intro t q l
    rw [query_eq hex, Except.ok.injEq]
    exact applyLimit_eq_scan_iff ht t q l

/-- A log of one created event. -/
theorem query_run_one :
    let s := run plainCodecs { runId := "r" } [.createEvent
      { now := 1700000000, hex := "0123456789ab" } { eventType := "tool_call", payload := [] }]
    StoredIndexed s ∧ (∀ p ∈ s.indexByType, ∀ i ∈ p.2.toList,
      ∃ e, s.log.toList[i]? = some e ∧ e.eventType = p.1) ∧
    ∀ (eventType : Option String) (minConfidence : ℚ) (limit : Option Int),
      query s { eventType, minConfidence, limit } =
          .ok (scan s eventType minConfidence limit) ↔
        WellAsked eventType limit ∨ (found s eventType minConfidence).length ≤ spare limit := by
  intro s
  have h : StoredIndexed s := by
    unfold StoredIndexed
    decide +kernel
  exact ⟨h, query_run_iff plainCodecs { runId := "r" } _ h⟩

/-- A query for a type without an index returns the one event, of another type; so does a query
for no results at all. -/
theorem query_ne_scan :
    let s := run plainCodecs { runId := "r" } [.createEvent
      { now := 1700000000, hex := "0123456789ab" } { eventType := "tool_call", payload := [] }]
    query s { eventType := some "note" } ≠ .ok (scan s (some "note") 0 none) ∧
      query s { limit := some 0 } ≠ .ok (scan s none 0 (some 0)) := by
  intro s
  have h1 : ((query s { eventType := some "note" }).toOption.map List.length,
      (scan s (some "note") 0 none).length) = (some 1, 0) := by decide +kernel
  have h2 : ((query s { limit := some 0 }).toOption.map List.length,
      (scan s none 0 (some 0)).length) = (some 1, 0) := by decide +kernel
  simp only [Prod.mk.injEq] at h1 h2
  constructor
  · intro hq
    simp [hq, Except.toOption, h1.2] at h1
  · intro hq
    simp [hq, Except.toOption, h2.2] at h2

/-! ### The chain of an event -/

/-- `get_by_id`; `_log.py:3735-3748`. -/
def getById (s : EvidenceLog) (eventId : String) : Option EvidenceEvent :=
  s.log.toList.find? fun event => event.eventId == eventId

theorem eventId_of_getById {s : EvidenceLog} {eventId : String} {event : EvidenceEvent}
    (h : getById s eventId = some event) : event.eventId = eventId := by
  simpa using List.find?_some h

/-- The retained events, and the sources that they name. -/
def sourceGraph (s : EvidenceLog) : ItemGraph String EvidenceEvent where
  find := getById s
  key := EvidenceEvent.eventId
  key_of_find _ _ := eventId_of_getById
  sources := EvidenceEvent.sourceIds

/-- `get_chain`, where at most `frames` calls of `traverse` may be nested, and none stands for the error that one more
raises; `_log.py:5112-5139`. -/
def getChain (s : EvidenceLog) (frames : Nat) (eventId : String) : Option (List EvidenceEvent) :=
  ((sourceGraph s).traverse frames eventId ([], [])).map Prod.snd

/-- 51 frames are enough. The chain holds, once each, the retained events from which the event comes through retained
ones, with the event itself last. A retained source stands before what it is a source of, unless it comes from that. -/
theorem getChain_spec (s : EvidenceLog) (eventId : String) (more : Nat) :
    ∃ chain, getChain s (maxRamEvents + 1 + more) eventId = some chain ∧
      (chain.map EvidenceEvent.eventId).Nodup ∧
      (∀ event, event ∈ chain ↔
        (sourceGraph s).Reaches eventId event.eventId ∧ getById s event.eventId = some event) ∧
      (∀ event, getById s eventId = some event → chain.getLast? = some event) ∧
      ∀ event ∈ chain, ∀ sourceId ∈ event.sourceIds, ∀ source, getById s sourceId = some source →
        [source, event].Sublist chain ∨ (sourceGraph s).Reaches sourceId event.eventId := by
  have hkeys : ∀ j event, (sourceGraph s).find j = some event → j ∈ s.log.toList.map EvidenceEvent.eventId := by
    intro j event hfind
    exact List.mem_map.2 ⟨event, List.mem_of_find?_eq_some hfind, eventId_of_getById hfind⟩
  have hframes : ((s.log.toList.map EvidenceEvent.eventId).filter fun j => decide (j ∉ ([] : List String))).length <
      maxRamEvents + 1 + more := by
    have hle := List.length_filter_le (fun j => decide (j ∉ ([] : List String)))
      (s.log.toList.map EvidenceEvent.eventId)
    rw [List.length_map] at hle
    have hlog := s.log.length_le
    omega
  obtain ⟨visited, chain, heq, h⟩ := ItemGraph.exists_traverse hkeys _ eventId ([], []) hframes
  refine ⟨chain, by rw [getChain, heq]; rfl, h.nodup, fun event => h.mem_iff, fun event hfind => ?_,
    fun event hevent j hj source hsource => (h.order event hevent j hj source hsource).resolve_left List.not_mem_nil⟩
  have hcall : (sourceGraph s).find eventId = some event := hfind
  rw [Nat.add_right_comm, ItemGraph.traverse, if_neg List.not_mem_nil, hcall] at heq
  obtain ⟨t, _, ht⟩ := Option.map_eq_some_iff.1 heq
  have hchain : t.2 ++ [event] = chain := congrArg Prod.snd ht
  rw [← hchain, List.getLast?_concat]

end Hledac.Evidence
