import Mathlib.Data.List.Dedup
import Hledac.Knowledge.PairJson
import Hledac.Lib.Partial

/-!
# What the hot edges count

A blob that one reader of the cache understands is empty to the other, so no node with an edge is listed by both.
-/

namespace Hledac.Knowledge

open Hledac.Lib Hledac.Py

/-! ### What is to be counted -/

/-- The edge that a call records: no loop, and no negative id. -/
def HotEdgeCall.edge : HotEdgeCall → Option (Nat × Nat)
  | .record srcId dstId _ _ _ => if srcId ≠ dstId ∧ 0 ≤ srcId ∧ 0 ≤ dstId then some (srcId.toNat, dstId.toNat) else none
  | .flush _ => none

/-- The destinations of the edges of a node that were recorded, in their order. -/
def destinations (calls : List HotEdgeCall) (srcId : Nat) : List Nat :=
  ((calls.filterMap HotEdgeCall.edge).filter fun e => e.1 = srcId).map Prod.snd

/-- The list counts the destinations: each stands in it once, with the number of its edges, the highest first. -/
structure Counts (dsts : List Nat) (l : List (Nat × Nat)) : Prop where
  nodup : (l.map Prod.fst).Nodup
  counts : ∀ dst count, (dst, count) ∈ l ↔ dst ∈ dsts ∧ count = dsts.count dst
  ranked : l.Pairwise RanksBefore

theorem counts_nil : Counts [] [] := ⟨List.nodup_nil, fun _ _ => ⟨nofun, fun h => nomatch h.1⟩, List.Pairwise.nil⟩

theorem destinations_eq_nil_iff {calls : List HotEdgeCall} {srcId : Nat} :
    destinations calls srcId = [] ↔ ¬ ∃ call ∈ calls, ∃ dst, call.edge = some (srcId, dst) := by
  rw [destinations, List.map_eq_nil_iff, List.filter_eq_nil_iff]
  constructor
  · rintro h ⟨call, hcall, dst, hedge⟩
    exact h _ (List.mem_filterMap.2 ⟨call, hcall, hedge⟩) (decide_eq_true rfl)
  · intro h e he hsrc
    obtain ⟨call, hcall, hedge⟩ := List.mem_filterMap.1 he
    exact h ⟨call, hcall, e.2, hedge.trans (by rw [← of_decide_eq_true hsrc])⟩

theorem Counts.eq_nil {dsts : List Nat} (h : Counts dsts []) : dsts = [] := by
  rw [List.eq_nil_iff_forall_not_mem]
  intro dst hdst
  cases (h.counts dst _).2 ⟨hdst, rfl⟩

/-! ### The formats -/

/-- The blob is of one of the two formats. -/
def Formatted (blob : Bytes) : Prop := blob.head? = some wireMarkerDenorm ∨ blob.head? = some 0x5B

section Formats

variable {json : PairCodec} {blob : Bytes}

theorem formatted_of_encodeNeighborsDenorm (hjson : json.Lawful) {neighbors : List HotNeighbor}
    (h : encodeNeighborsDenorm json neighbors = some blob) : Formatted blob := by
  rw [encodeNeighborsDenorm] at h
  split at h
  · exact .inr (hjson.bracket _ _ h)
  · split at h
    · next packed hpacked =>
      cases h
      rw [packNeighbors] at hpacked
      split at hpacked
      · obtain ⟨_, _, rfl⟩ := Option.map_eq_some_iff.1 hpacked
        exact .inl rfl
      · cases hpacked
    · exact .inr (hjson.bracket _ _ h)

theorem formatted_of_mergeDenorm (hjson : json.Lawful) {existing : Option Bytes} {deltas : List HotNeighbor}
    (h : mergeDenorm json existing deltas = some blob) : Formatted blob := by
  cases existing with
  | none => exact formatted_of_encodeNeighborsDenorm hjson h
  | some old => exact formatted_of_encodeNeighborsDenorm hjson h

theorem decode_eq_nil_or (hjson : json.Lawful) (h : Formatted blob) :
    decodeNeighbors json blob = [] ∨ decodeNeighborsDenorm json blob = [] := by
  cases h with
  | inl hdenorm =>
    left
    rw [decodeNeighbors, hjson.control blob (decide_eq_true hdenorm)]
    rfl
  | inr hjsonText =>
    right
    match blob, hjsonText with
    | [_], _ => rfl
    | marker :: x :: rest, hmarker =>
      obtain rfl : marker = 0x5B := Option.some_inj.1 hmarker
      rfl

end Formats

/-! ### A run -/

/-- The nodes of the cache are among those of the edges, and their blobs are of one of the formats. -/
structure Sourced (sources : Nat → Prop) (s : HotEdges) : Prop where
  disk : ∀ srcId blob, s.disk.get? srcId = some blob → sources srcId ∧ Formatted blob
  buffer : ∀ e ∈ s.buffer, sources e.srcId

section Runs

variable {json : PairCodec} {sources : Nat → Prop} {s : HotEdges} {bufferSize : Int}

theorem sourced_init : Sourced sources {} where
  disk _ _ h := nomatch h
  buffer _ h := nomatch h

theorem mem_keys_foldl_bySrc {buffer : List HotEdge} {d : Dict Nat (List HotNeighbor)} {srcId : Nat}
    (h : srcId ∈ (buffer.foldl (fun d e =>
      d.insert e.srcId ((d.get? e.srcId).getD [] ++ [⟨e.dstId, 1, e.dstValue, e.dstIocType⟩])) d).keys) :
    srcId ∈ d.keys ∨ ∃ e ∈ buffer, e.srcId = srcId := by
  induction buffer generalizing d with
  | nil => exact .inl h
  | cons e rest ih =>
    cases ih h with
    | inl hkey =>
      cases Dict.mem_keys_insert.1 hkey with
      | inl heq => exact .inr ⟨e, List.mem_cons_self, heq.symm⟩
      | inr hold => exact .inl hold
    | inr hrest =>
      obtain ⟨e', he', hsrc⟩ := hrest
      exact .inr ⟨e', List.mem_cons_of_mem _ he', hsrc⟩

theorem exists_of_mem_bySrc {buffer : List HotEdge} {e : Nat × List HotNeighbor} (h : e ∈ (bySrc buffer).entries) :
    ∃ edge ∈ buffer, edge.srcId = e.1 := by
  cases mem_keys_foldl_bySrc (List.mem_map_of_mem h : e.1 ∈ (bySrc buffer).keys) with
  | inl hnone => cases hnone
  | inr hedge => exact hedge

theorem mem_of_mem_putmultiBounded {pairs : List (Nat × Bytes)} {committed : Nat} {p : Nat × Bytes}
    (h : p ∈ putmultiBounded pairs committed) : p ∈ pairs := by
  obtain ⟨chunk, hchunk, hp⟩ := List.mem_flatten.1 h
  rw [← flatten_chunks (by decide : 0 < maxBatch) pairs]
  exact List.mem_flatten.2 ⟨chunk, List.mem_of_mem_take hchunk, hp⟩

theorem Sourced.flush (hjson : json.Lawful) (h : Sourced sources s) (outcome : FlushOutcome) :
    Sourced sources (s.flush json outcome).2 := by
  have hdisk : ∀ srcId blob,
      (flushDenormBufferInternal json s.disk s.buffer outcome).2.get? srcId = some blob →
        sources srcId ∧ Formatted blob := by
    intro srcId blob hget
    simp only [flushDenormBufferInternal] at hget
    split at hget
    · exact h.disk srcId blob hget
    · split at hget
      · exact h.disk srcId blob hget
      · split at hget
        · exact h.disk srcId blob hget
        · next pairs hpairs =>
          simp only [Dict.get?_insertAll, Option.or_eq_some_iff] at hget
          cases hget with
          | inr hold => exact h.disk srcId blob hold.2
          | inl hnew =>
            obtain ⟨⟨src, written⟩, hfind, rfl⟩ := Option.map_eq_some_iff.1 hnew
            obtain rfl : src = srcId :=
              of_decide_eq_true (List.find?_some (p := fun e : Nat × Bytes => decide (e.1 = srcId)) hfind)
            have hmem := mem_of_mem_putmultiBounded (List.mem_reverse.1 (List.mem_of_find?_eq_some hfind))
            obtain ⟨e, he, hmerged⟩ := exists_of_mem_mapM hpairs hmem
            obtain ⟨merged, hmerge, heq⟩ := Option.map_eq_some_iff.1 hmerged
            obtain ⟨edge, hedge, hsrc⟩ := exists_of_mem_bySrc he
            cases heq
            exact ⟨hsrc ▸ h.buffer edge hedge, formatted_of_mergeDenorm hjson hmerge⟩
  rw [HotEdges.flush]
  split
  · next hflush =>
    rw [hflush] at hdisk
    exact ⟨hdisk, nofun⟩
  · next hflush =>
    rw [hflush] at hdisk
    exact ⟨hdisk, h.buffer⟩

theorem sourced_step (hjson : json.Lawful) (h : Sourced sources s) {call : HotEdgeCall}
    (hcall : ∀ srcId dst, call.edge = some (srcId, dst) → sources srcId) :
    Sourced sources (hotEdgeStep json bufferSize s call) := by
  cases call with
  | flush outcome => exact h.flush hjson outcome
  | record srcId dstId dstValue dstIocType outcome =>
    rw [hotEdgeStep, HotEdges.recordEdge]
    split
    · exact h
    · next hne =>
      split
      · exact h
      · next hsign =>
        rw [not_or, Int.not_lt, Int.not_lt] at hsign
        split
        · have hsource : sources srcId.toNat := hcall _ dstId.toNat (if_pos ⟨hne, hsign⟩)
          have hadded : Sourced sources
              { s with buffer := s.buffer ++ [⟨srcId.toNat, dstId.toNat, dstValue, dstIocType⟩] } := by
            refine ⟨h.disk, fun e he => ?_⟩
            cases List.mem_append.1 he with
            | inl hold => exact h.buffer e hold
            | inr hnew =>
              rw [List.mem_singleton.1 hnew]
              exact hsource
          simp only
          split
          · exact hadded.flush hjson outcome
          · exact hadded
        · exact h

theorem sourced_foldl (hjson : json.Lawful) {calls : List HotEdgeCall} (h : Sourced sources s)
    (hcalls : ∀ call ∈ calls, ∀ srcId dst, call.edge = some (srcId, dst) → sources srcId) :
    Sourced sources (calls.foldl (hotEdgeStep json bufferSize) s) := by
  induction calls generalizing s with
  | nil => exact h
  | cons call rest ih =>
    obtain ⟨hcall, hrest⟩ := List.forall_mem_cons.1 hcalls
    exact ih (sourced_step hjson h hcall) hrest

theorem sourced_run (hjson : json.Lawful) (bufferSize : Int) (calls : List HotEdgeCall) :
    Sourced (fun srcId => destinations calls srcId ≠ []) (hotEdgeRun json bufferSize calls) := by
  apply sourced_foldl hjson sourced_init
  intro call hcall srcId dst hedge hnone
  exact destinations_eq_nil_iff.1 hnone ⟨call, hcall, dst, hedge⟩

theorem Sourced.reads (hjson : json.Lawful) (h : Sourced sources s) (srcId : Nat) (topN : Int) :
    s.getHotNeighbors json srcId topN = [] ∨ s.getHotNeighborsDenorm json srcId topN = [] := by
  rw [HotEdges.getHotNeighbors, HotEdges.getHotNeighborsDenorm, if_neg (by omega), if_neg (by omega), Int.toNat_natCast]
  cases hget : s.disk.get? srcId with
  | none => exact .inl rfl
  | some blob =>
    simp only
    cases decode_eq_nil_or hjson (h.disk srcId blob hget).2 with
    | inl hnil =>
      left
      rw [hnil, rankBy, List.insertionSort_nil, List.take_nil]
      exact ite_self _
    | inr hnil =>
      right
      rw [hnil, rankBy, List.insertionSort_nil, List.take_nil]
      exact ite_self _

theorem Sourced.reads_of_not_source (json : PairCodec) (h : Sourced sources s) {srcId : Nat}
    (hsrc : ¬ sources srcId) (topN : Int) :
    s.getHotNeighbors json srcId topN = [] ∧ s.getHotNeighborsDenorm json srcId topN = [] := by
  have hget : s.disk.get? srcId = none := by
    rw [Option.eq_none_iff_forall_ne_some]
    exact fun blob hblob => hsrc (h.disk srcId blob hblob).1
  rw [HotEdges.getHotNeighbors, HotEdges.getHotNeighborsDenorm, if_neg (by omega), if_neg (by omega), Int.toNat_natCast,
    hget]
  exact ⟨rfl, rfl⟩

end Runs

/-- Both readers list every node with few enough destinations as it is to be counted. -/
def EdgesCounted (json : PairCodec) (calls : List HotEdgeCall) (s : HotEdges) : Prop :=
  ∀ srcId, (destinations calls srcId).dedup.length ≤ maxHotNeighbors →
    Counts (destinations calls srcId) (s.getHotNeighbors json srcId maxHotNeighbors) ∧
    Counts (destinations calls srcId) ((s.getHotNeighborsDenorm json srcId maxHotNeighbors).map HotNeighbor.counted)

/-- Whatever a last flush does, both readers count exactly where there is nothing to count. -/
theorem counted_iff {json : PairCodec} (hjson : json.Lawful) (bufferSize : Int) (calls : List HotEdgeCall)
    (outcome : FlushOutcome) :
    EdgesCounted json calls ((hotEdgeRun json bufferSize calls).flush json outcome).2 ↔
      ∀ srcId, (destinations calls srcId).dedup.length ≤ maxHotNeighbors → destinations calls srcId = [] := by
  have hsourced := (sourced_run hjson bufferSize calls).flush hjson outcome
  constructor
  · intro h srcId hfew
    obtain ⟨hplain, hdenorm⟩ := h srcId hfew
    cases hsourced.reads hjson srcId maxHotNeighbors with
    | inl hnil =>
      rw [hnil] at hplain
      exact hplain.eq_nil
    | inr hnil =>
      rw [hnil] at hdenorm
      exact hdenorm.eq_nil
  · intro h srcId hfew
    have hnone := h srcId hfew
    obtain ⟨hplain, hdenorm⟩ := hsourced.reads_of_not_source json (not_not_intro hnone) maxHotNeighbors
    rw [hplain, hdenorm, hnone]
    exact ⟨counts_nil, counts_nil⟩

/-- One edge with its data, committed by the last flush. -/
theorem counted_iff_edge :
    EdgesCounted PairJson.codec [.record 1 2 "a.org" "domain" .closed]
      ((hotEdgeRun PairJson.codec 50 [.record 1 2 "a.org" "domain" .closed]).flush PairJson.codec (.commits 1)).2 ↔
    ∀ srcId, (destinations [.record 1 2 "a.org" "domain" .closed] srcId).dedup.length ≤ maxHotNeighbors →
      destinations [.record 1 2 "a.org" "domain" .closed] srcId = [] :=
  counted_iff PairJson.codec_lawful 50 _ _

/-- An edge without data is recorded nowhere. -/
theorem not_counted :
    ¬ ∀ (json : PairCodec), json.Lawful → ∀ (bufferSize : Int) (calls : List HotEdgeCall) (outcome : FlushOutcome),
      ((hotEdgeRun json bufferSize calls).flush json outcome).1 = true →
        EdgesCounted json calls ((hotEdgeRun json bufferSize calls).flush json outcome).2 := by
  intro h
  have hcounted := h PairJson.codec PairJson.codec_lawful 50 [.record 1 2 "" "" .closed] (.commits 1) rfl
  obtain ⟨hplain, _⟩ := hcounted 1 (by decide)
  cases hplain.eq_nil

end Hledac.Knowledge
