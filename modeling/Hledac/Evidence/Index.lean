import Hledac.Lib.PositionIndex
import Hledac.Evidence.LogSpec

/-!
# The index by type

The index by type has one entry for each of the six types in every reachable log, and it is exact
as long as only events of these types are stored: each entry lists the positions of the events of
its type in the ring buffer.
-/

namespace Hledac.Evidence

open Hledac.Lib Hledac.Py Raising

variable {c : Codecs} {cfg : LogConfig}

/-! ### The keys -/

/-- The index has its six entries. -/
def KeysFixed (s : EvidenceLog) : Prop := s.indexByType.map Prod.fst = indexedTypes

theorem keys_pushPosition (index : List (String × Positions)) (key : String) (position : Nat) :
    (pushPosition index key position).map Prod.fst = index.map Prod.fst := by
  unfold pushPosition
  rw [List.map_map]
  apply List.map_congr_left
  intro p _
  simp only [Function.comp_apply]
  split <;> rfl

theorem KeysFixed.hasIndex_iff {s : EvidenceLog} (h : KeysFixed s) (eventType : String) :
    s.HasIndex eventType ↔ eventType ∈ indexedTypes := by
  rw [← h, List.mem_map, EvidenceLog.HasIndex, List.any_eq_true]
  constructor
  · rintro ⟨p, hp, he⟩
    exact ⟨p, hp, by simpa using he⟩
  · rintro ⟨p, hp, rfl⟩
    exact ⟨p, hp, by simp⟩

theorem keysFixed_indexEvents (position : Nat) (events : List EvidenceEvent) {s : EvidenceLog}
    (h : KeysFixed s) : KeysFixed (exec (indexEvents position events) s).2 := by
  induction events generalizing position s with
  | nil => exact h
  | cons event rest ih =>
    rw [indexEvents]
    by_cases hi : s.HasIndex event.eventType
    · have hx : exec (indexEvent position event) s = (.ok (), s.indexed position event) := by
        rw [exec_indexEvent, if_pos hi]
      rw [exec_bind_ok hx]
      apply ih
      exact (keys_pushPosition _ _ _).trans h
    · have hx : exec (indexEvent position event) s =
          (.error ⟨.keyError, event.eventType⟩, s) := by
        rw [exec_indexEvent, if_neg hi]
      rw [exec_bind_error hx]
      exact h

theorem keysFixed_updateIndexes {s : EvidenceLog} (h : KeysFixed s) (event : EvidenceEvent) :
    KeysFixed (exec (updateIndexes event) s).2 := by
  by_cases hf : s.log.length = maxRamEvents
  · rw [exec_updateIndexes_of_full event hf, exec_rebuildIndexes]
    apply keysFixed_indexEvents
    exact rfl
  · rw [exec_updateIndexes_of_not_full event hf]
    by_cases hi : s.HasIndex event.eventType
    · rw [if_pos hi]
      exact (keys_pushPosition _ _ _).trans h
    · rw [if_neg hi]
      exact h

theorem keysFixed_step {s : EvidenceLog} (h : KeysFixed s) (op : Op) :
    KeysFixed (step c cfg s op) := by
  apply step_invariant op
  · intro s _ _ _ hs
    exact hs
  · intro s _ _ hs
    exact hs
  · intro s event hs
    exact keysFixed_updateIndexes hs event
  · exact h

theorem keysFixed_run (ops : List Op) : KeysFixed (run c cfg ops) :=
  foldl_invariant (I := KeysFixed) (fun _ op h => keysFixed_step h op) ops rfl

/-! ### Exactness -/

/-- Positions of the events of one type. -/
def positionsOf (eventType : String) (events : List EvidenceEvent) : List Nat :=
  positions (fun e => e.eventType == eventType) events

/-- Every entry of the index lists the positions of its type in `events`. -/
structure ExactFor (s : EvidenceLog) (events : List EvidenceEvent) : Prop where
  keys : KeysFixed s
  entries : ∀ p ∈ s.indexByType, p.2.toList = positionsOf p.1 events

/-- The index by type is exact for the ring buffer. -/
def IndexExact (s : EvidenceLog) : Prop := ExactFor s s.log.toList

private theorem exists_lookup {index : List (String × Positions)} {key : String}
    (h : key ∈ index.map Prod.fst) :
    ∃ ps, index.lookup key = some ps ∧ (key, ps) ∈ index := by
  induction index with
  | nil => simp at h
  | cons p rest ih =>
    obtain ⟨k, d⟩ := p
    by_cases hk : key = k
    · subst hk
      exact ⟨d, by simp, by simp⟩
    · have hr : key ∈ rest.map Prod.fst := by simpa [hk] using h
      obtain ⟨ps, hl, hm⟩ := ih hr
      refine ⟨ps, ?_, List.mem_cons_of_mem _ hm⟩
      rw [List.lookup_cons, beq_false_of_ne hk]
      exact hl

theorem ExactFor.lookup {s : EvidenceLog} {events : List EvidenceEvent} (h : ExactFor s events)
    {eventType : String} (ht : eventType ∈ indexedTypes) :
    ∃ ps, s.indexByType.lookup eventType = some ps ∧ ps.toList = positionsOf eventType events := by
  rw [← h.keys] at ht
  obtain ⟨ps, hl, hm⟩ := exists_lookup ht
  exact ⟨ps, hl, h.entries _ hm⟩

theorem exactFor_indexed {s : EvidenceLog} {events : List EvidenceEvent}
    (h : ExactFor s events) (hl : events.length < maxRamEvents) (event : EvidenceEvent) :
    ExactFor (s.indexed events.length event) (events ++ [event]) := by
  constructor
  · exact (keys_pushPosition _ _ _).trans h.keys
  · intro p hp
    obtain ⟨q, hq, rfl⟩ := List.mem_map.1 hp
    have hentry := h.entries q hq
    have hlen : q.2.length < maxRamEvents := by
      have hle : (positionsOf q.1 events).length ≤ events.length := length_positions_le events
      rw [Deque.length, hentry]
      omega
    by_cases hk : q.1 = event.eventType
    · rw [if_pos hk]
      simp only
      rw [Deque.toList_append_of_lt _ _ hlen, hentry, positionsOf, positionsOf, positions_concat]
      simp [hk]
    · rw [if_neg hk, hentry, positionsOf, positionsOf, positions_concat]
      simp [Ne.symm hk]

private theorem exactFor_indexEvents (before after : List EvidenceEvent) {s : EvidenceLog}
    (h : ExactFor s before) (hl : (before ++ after).length ≤ maxRamEvents)
    (ht : ∀ e ∈ after, e.eventType ∈ indexedTypes) :
    ExactFor (exec (indexEvents before.length after) s).2 (before ++ after) := by
  induction after generalizing before s with
  | nil => simpa [indexEvents] using h
  | cons event rest ih =>
    obtain ⟨he, hrest⟩ := List.forall_mem_cons.1 ht
    have hi : s.HasIndex event.eventType := (h.keys.hasIndex_iff _).2 he
    have hx : exec (indexEvent before.length event) s =
        (.ok (), s.indexed before.length event) := by
      rw [exec_indexEvent, if_pos hi]
    have hb : before.length < maxRamEvents := by
      simp only [List.length_append, List.length_cons] at hl
      omega
    rw [indexEvents, exec_bind_ok hx]
    have hn := ih (before ++ [event]) (exactFor_indexed h hb event) (by simpa using hl) hrest
    simpa using hn

theorem indexExact_updateIndexes {s : EvidenceLog} (h : IndexExact s)
    (hs : ∀ e ∈ s.log.toList, e.eventType ∈ indexedTypes) {event : EvidenceEvent}
    (he : event.eventType ∈ indexedTypes) : IndexExact (exec (updateIndexes event) s).2 := by
  rw [IndexExact, log_updateIndexes]
  by_cases hf : s.log.length = maxRamEvents
  · rw [exec_updateIndexes_of_full event hf, exec_rebuildIndexes]
    have hempty : ExactFor { s.store event with
        droppedCount := s.droppedCount + 1, indexByType := emptyIndex, indexBySource := [] } [] := by
      constructor
      · exact rfl
      · intro p hp
        obtain ⟨t, _, rfl⟩ := List.mem_map.1 hp
        rfl
    apply exactFor_indexEvents [] _ hempty
    · exact (s.log.append event).length_le
    · intro e hmem
      rcases Deque.mem_append _ _ _ hmem with hm | rfl
      · exact hs e hm
      · exact he
  · have hlt : s.log.length < maxRamEvents := Nat.lt_of_le_of_ne s.log.length_le hf
    rw [exec_updateIndexes_of_not_full event hf, if_pos ((h.keys.hasIndex_iff _).2 he),
      Deque.toList_append_of_lt _ _ hlt]
    have hpos : (s.store event).log.length - 1 = s.log.toList.length := by
      show (s.log.append event).length - 1 = s.log.toList.length
      rw [Deque.length, Deque.toList_append_of_lt _ _ hlt]
      simp
    rw [hpos]
    have hstore : ExactFor (s.store event) s.log.toList := ⟨h.keys, h.entries⟩
    exact exactFor_indexed hstore hlt event

/-- Every event ever stored has a type with an index. -/
def StoredIndexed (s : EvidenceLog) : Prop :=
  ∀ e ∈ s.history.stored, e.eventType ∈ indexedTypes

theorem indexExact_run {ops : List Op} (h : StoredIndexed (run c cfg ops)) :
    IndexExact (run c cfg ops) ∧
      ∀ e ∈ (run c cfg ops).log.toList, e.eventType ∈ indexedTypes := by
  let I : EvidenceLog → Prop := fun s => s.log = Deque.ofList s.history.stored ∧
    (StoredIndexed s → IndexExact s)
  have hring : ∀ s : EvidenceLog, s.log = Deque.ofList s.history.stored → StoredIndexed s →
      ∀ e ∈ s.log.toList, e.eventType ∈ indexedTypes := by
    intro s hs ht e he
    rw [hs] at he
    exact ht e ((Deque.toList_ofList_suffix _).subset he)
  have hstore : ∀ (s : EvidenceLog) (event : EvidenceEvent), I s →
      I (exec (updateIndexes event) s).2 := by
    rintro s event ⟨hs, hi⟩
    constructor
    · rw [log_updateIndexes, history_updateIndexes]
      exact Deque.append_eq_ofList hs event
    · intro ht
      rw [StoredIndexed, history_updateIndexes] at ht
      have hold : StoredIndexed s := fun e he => ht e (List.mem_append_left _ he)
      apply indexExact_updateIndexes (hi hold) (hring s hs hold)
      exact ht event (by simp)
  have hstep : ∀ s op, I s → I (step c cfg s op) := by
    intro s op hs
    apply step_invariant op
    · rintro s _ _ _ ⟨hr, hi⟩
      exact ⟨hr, fun ht => ⟨(hi ht).keys, (hi ht).entries⟩⟩
    · rintro s _ _ ⟨hr, hi⟩
      exact ⟨hr, fun ht => ⟨(hi ht).keys, (hi ht).entries⟩⟩
    · exact hstore
    · exact hs
  have hfresh : I (EvidenceLog.fresh cfg) := by
    refine ⟨rfl, fun _ => ⟨rfl, fun p hp => ?_⟩⟩
    obtain ⟨t, _, rfl⟩ := List.mem_map.1 hp
    rfl
  have hI : I (run c cfg ops) := foldl_invariant hstep ops hfresh
  exact ⟨hI.2 h, hring _ hI.1 h⟩

end Hledac.Evidence
