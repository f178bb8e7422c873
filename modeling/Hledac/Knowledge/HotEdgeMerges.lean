import Mathlib.Data.List.Perm.Subperm
import Hledac.Knowledge.HotEdgeFormats

/-!
# Merging into the hot edges

What the writers of the cache keep of the blob of a node, of either format, when they merge a change into it.
-/

namespace Hledac.Knowledge

open Hledac.Lib Hledac.Py

/-! ### What a merge has to keep -/

/-- Every neighbour is there still with its count at least, or it is cut: as many others stand there as a node keeps,
none of a lower count. -/
def Keeps (old new : List (Nat × Nat)) : Prop :=
  ∀ p ∈ old, (∃ count, p.2 ≤ count ∧ (p.1, count) ∈ new) ∨
    new.length = maxHotNeighbors ∧ ∀ q ∈ new, p.2 ≤ q.2

theorem keeps_refl (l : List (Nat × Nat)) : Keeps l l := fun p hp => .inl ⟨p.2, Nat.le_refl _, hp⟩

theorem keeps_hottest {old merged : List (Nat × Nat)}
    (h : ∀ p ∈ old, ∃ count, p.2 ≤ count ∧ (p.1, count) ∈ merged) : Keeps old (hottest id merged) := by
  intro p hp
  obtain ⟨count, hcount, hmem⟩ := h p hp
  by_cases hcut : (p.1, count) ∈ hottest id merged
  · exact .inl ⟨count, hcount, hcut⟩
  · obtain ⟨hlength, hbefore⟩ := ranksBefore_of_cut hmem hcut
    refine .inr ⟨hlength, fun q hq => ?_⟩
    have hrank := hbefore q hq
    rw [RanksBefore] at hrank
    simp only at hrank
    omega

/-! ### Maps of counts -/

/-- No entry of a neighbour has a higher count than its last one. -/
def LastHighest (l : List (Nat × Nat)) : Prop :=
  ∀ p ∈ l, ∀ q, (l.reverse.find? fun e => decide (e.1 = p.1)) = some q → p.2 ≤ q.2

section Maps

variable {V : Type} {f : V → Nat} {entries : List (Nat × V)} {dstId : Nat} {v : V}

/-- The ids and the counts of entries that hold more. -/
def countsOf (f : V → Nat) (entries : List (Nat × V)) : List (Nat × Nat) := entries.map fun e => (e.1, f e.2)

theorem get?_empty_insertAll : (Dict.empty.insertAll entries).get? dstId =
    (entries.reverse.find? fun e => decide (e.1 = dstId)).map Prod.snd := by
  rw [Dict.get?_insertAll, Dict.get?_empty, Option.or_none]

theorem find?_countsOf : ((countsOf f entries).reverse.find? fun e => decide (e.1 = dstId)) =
    (entries.reverse.find? fun e => decide (e.1 = dstId)).map fun e => (e.1, f e.2) := by
  rw [countsOf, ← List.map_reverse, List.find?_map]
  rfl

theorem exists_get?_of_mem (h : dstId ∈ entries.map Prod.fst) :
    ∃ v, (Dict.empty.insertAll entries).get? dstId = some v := by
  obtain ⟨e, he, rfl⟩ := List.mem_map.1 h
  have hfind : (entries.reverse.find? fun e' => decide (e'.1 = e.1)).isSome = true :=
    List.find?_isSome.2 ⟨e, List.mem_reverse.2 he, decide_eq_true rfl⟩
  obtain ⟨e', he'⟩ := Option.isSome_iff_exists.1 hfind
  exact ⟨e'.2, by rw [get?_empty_insertAll, he']; rfl⟩

theorem mem_of_get?_insertAll (h : (Dict.empty.insertAll entries).get? dstId = some v) : (dstId, v) ∈ entries := by
  rw [get?_empty_insertAll] at h
  obtain ⟨e, he, rfl⟩ := Option.map_eq_some_iff.1 h
  have hid : e.1 = dstId := of_decide_eq_true (List.find?_some (p := fun e : Nat × V => decide (e.1 = dstId)) he)
  rw [← hid]
  exact List.mem_reverse.1 (List.mem_of_find?_eq_some he)

theorem lastHighest_iff : LastHighest (countsOf f entries) ↔
    ∀ p ∈ countsOf f entries, ∀ v, (Dict.empty.insertAll entries).get? p.1 = some v → p.2 ≤ f v := by
  constructor
  · intro h p hp v hv
    rw [get?_empty_insertAll] at hv
    obtain ⟨e, he, rfl⟩ := Option.map_eq_some_iff.1 hv
    exact h p hp (e.1, f e.2) (by rw [find?_countsOf, he]; rfl)
  · intro h p hp q hq
    rw [find?_countsOf] at hq
    obtain ⟨e, he, rfl⟩ := Option.map_eq_some_iff.1 hq
    exact h p hp e.2 (by rw [get?_empty_insertAll, he]; rfl)

theorem lastHighest_of_nodup (h : (entries.map Prod.fst).Nodup) : LastHighest (countsOf f entries) := by
  rw [lastHighest_iff]
  intro p hp v hv
  obtain ⟨e, he, rfl⟩ := List.mem_map.1 hp
  have heq := List.inj_on_of_nodup_map h he (mem_of_get?_insertAll hv) rfl
  rw [heq]

theorem subperm_keys_insertAll (entries : List (Nat × V)) :
    (Dict.empty.insertAll entries).keys.Subperm (entries.map Prod.fst) := by
  apply List.subperm_of_subset (Dict.nodup _)
  intro dstId hmem
  obtain ⟨v, hv⟩ := Option.isSome_iff_exists.1 (Dict.mem_keys_iff.1 hmem)
  exact List.mem_map_of_mem (mem_of_get?_insertAll hv)

theorem keeps_of_raised {d : Dict Nat V} (h : LastHighest (countsOf f entries))
    (hraised : ∀ dstId v, (Dict.empty.insertAll entries).get? dstId = some v →
      ∃ v', d.get? dstId = some v' ∧ f v ≤ f v') :
    Keeps (countsOf f entries) (hottest id (countsOf f d.entries)) := by
  apply keeps_hottest
  intro p hp
  obtain ⟨e, he, rfl⟩ := List.mem_map.1 hp
  obtain ⟨v, hv⟩ := exists_get?_of_mem (List.mem_map_of_mem he)
  obtain ⟨v', hv', hle⟩ := hraised e.1 v hv
  exact ⟨f v', Nat.le_trans (lastHighest_iff.1 h _ hp v hv) hle,
    List.mem_map.2 ⟨(e.1, v'), Dict.get?_eq_some_iff.1 hv', rfl⟩⟩

/-- Where one more neighbour comes to a list that is not too long, all are kept only if no count was lost before. -/
theorem lastHighest_of_keeps (hfew : entries.length ≤ maxHotNeighbors) {newId : Nat}
    (hnew : newId ∉ entries.map Prod.fst) (v : V)
    (h : Keeps (countsOf f entries) (hottest id (countsOf f ((Dict.empty.insertAll entries).insert newId v).entries))) :
    LastHighest (countsOf f entries) := by
  have hkeys := subperm_keys_insertAll entries
  by_cases hnodup : (entries.map Prod.fst).Nodup
  · exact lastHighest_of_nodup hnodup
  have hsize : (Dict.empty.insertAll entries).keys.length < entries.length := by
    have hle := hkeys.length_le
    rw [List.length_map] at hle
    apply Nat.lt_of_le_of_ne hle
    intro heq
    apply hnodup
    exact (hkeys.perm_of_length_le (by rw [List.length_map, heq])).nodup_iff.1 (Dict.nodup _)
  have habsent : newId ∉ (Dict.empty.insertAll entries).keys := fun hmem => hnew (hkeys.subset hmem)
  have hlength : (countsOf f ((Dict.empty.insertAll entries).insert newId v).entries).length ≤ maxHotNeighbors := by
    rw [countsOf, List.length_map, Dict.entries_insert_of_notMem habsent, List.length_append, List.length_singleton,
      ← Dict.size, ← Dict.length_keys]
    exact Nat.le_trans hsize hfew
  rw [lastHighest_iff]
  intro p hp w hw
  have hother : newId ≠ p.1 := by
    obtain ⟨e, he, rfl⟩ := List.mem_map.1 hp
    exact fun heq => hnew (heq ▸ List.mem_map_of_mem he)
  have hget : ((Dict.empty.insertAll entries).insert newId v).get? p.1 = some w := by
    rw [Dict.get?_insert_of_ne hother, hw]
  have hmem : (p.1, f w) ∈ countsOf f ((Dict.empty.insertAll entries).insert newId v).entries :=
    List.mem_map.2 ⟨(p.1, w), Dict.get?_eq_some_iff.1 hget, rfl⟩
  cases h p hp with
  | inl hkept =>
    obtain ⟨count, hle, hcount⟩ := hkept
    obtain ⟨e, he, heq⟩ := List.mem_map.1 (mem_of_mem_hottest hcount)
    obtain ⟨hid, rfl⟩ := Prod.mk.inj heq
    have hvalue := hget.symm.trans (hid ▸ Dict.get?_eq_some_iff.2 he)
    rw [Option.some_inj.1 hvalue]
    exact hle
  | inr hcut => exact hcut.2 _ ((mem_hottest_of_few hlength).2 hmem)

theorem exists_newId (ids : List Nat) (h : ids.length ≤ maxHotNeighbors) : ∃ newId, newId < 2 ^ 64 ∧ newId ∉ ids := by
  by_contra hall
  have hsubset : List.range 51 ⊆ ids := by
    intro n hn
    by_contra hnot
    exact hall ⟨n, Nat.lt_trans (List.mem_range.1 hn) (by decide), hnot⟩
  have hle := (List.subperm_of_subset List.nodup_range hsubset).length_le
  rw [List.length_range] at hle
  rw [maxHotNeighbors] at h
  omega

end Maps

/-! ### Merges -/

section Merges

variable {json : PairCodec} {blob : Bytes} {dstId : Nat} {dstValue dstIocType : String}

theorem neighborsIn_encodeDenorm (hjson : json.Lawful) {l : List HotNeighbor}
    (h : encodeNeighborsDenorm json l = some blob) : neighborsIn json blob = l.map HotNeighbor.counted :=
  neighborsIn_written hjson (.inr h)

theorem map_counted_bare (l : List (Nat × Nat)) : (l.map HotNeighbor.bare).map HotNeighbor.counted = l := by
  rw [List.map_map]
  exact List.map_id l

theorem neighborsIn_encode (hjson : json.Lawful) {l : List (Nat × Nat)} (h : encodeNeighbors json l = some blob) :
    neighborsIn json blob = l := by
  rw [neighborsIn_written hjson (l := l.map HotNeighbor.bare) (.inl (by rw [map_counted_bare]; exact h)),
    map_counted_bare]

theorem keeps_putDenorm (hjson : json.Lawful) {old : List (Nat × Nat)} {l : List HotNeighbor}
    (hold : Keeps old (neighborsIn json blob)) (h : Keeps old (l.map HotNeighbor.counted)) :
    Keeps old (neighborsOf json (putEncoded (some blob) (encodeNeighborsDenorm json l)).2) := by
  cases hencode : encodeNeighborsDenorm json l with
  | none => exact hold
  | some new =>
    rw [← neighborsIn_encodeDenorm hjson hencode] at h
    exact h

theorem keeps_putPlain (hjson : json.Lawful) {old l : List (Nat × Nat)} (hold : Keeps old (neighborsIn json blob))
    (h : Keeps old l) : Keeps old (neighborsOf json (putEncoded (some blob) (encodeNeighbors json l)).2) := by
  cases hencode : encodeNeighbors json l with
  | none => exact hold
  | some new =>
    rw [← neighborsIn_encode hjson hencode] at h
    exact h

theorem mem_updateFirst {α : Type} {p : α → Bool} {f : α → α} {l updated : List α}
    (h : updateFirst p f l = some updated) {a : α} (ha : a ∈ l) : a ∈ updated ∨ f a ∈ updated := by
  induction l generalizing updated with
  | nil => cases ha
  | cons b rest ih =>
    rw [updateFirst] at h
    split at h
    · cases h
      cases List.mem_cons.1 ha with
      | inl heq => exact .inr (heq ▸ List.mem_cons_self)
      | inr hrest => exact .inl (List.mem_cons_of_mem _ hrest)
    · obtain ⟨others, hothers, rfl⟩ := Option.map_eq_some_iff.1 h
      cases List.mem_cons.1 ha with
      | inl heq => exact .inl (heq ▸ List.mem_cons_self)
      | inr hrest =>
        cases ih hothers hrest with
        | inl hsame => exact .inl (List.mem_cons_of_mem _ hsame)
        | inr hchanged => exact .inr (List.mem_cons_of_mem _ hchanged)

/-- Recording one edge keeps all neighbours of a node of either format. -/
theorem keeps_recordEdgeLmdb (hjson : json.Lawful) (hcounts : ∀ p ∈ neighborsIn json blob, p.2 < 2 ^ 64) (dstId : Nat)
    (dstValue dstIocType : String) :
    Keeps (neighborsIn json blob)
      (neighborsOf json (recordEdgeLmdb json (some blob) dstId dstValue dstIocType).2) := by
  have hself : Keeps (neighborsIn json blob) (neighborsIn json blob) := keeps_refl _
  have hraised : ∀ p ∈ neighborsIn json blob, p.2 ≤ min (p.2 + 1) uint64Max := by
    intro p hp
    have := hcounts p hp
    rw [uint64Max]
    omega
  simp only [recordEdgeLmdb]
  split
  · next hdenorm =>
    have hin : neighborsIn json blob = (decodeNeighborsDenorm json blob).map HotNeighbor.counted := if_pos hdenorm
    split
    · next updated hupdated =>
      apply keeps_putDenorm hjson hself
      rw [map_hottest]
      apply keeps_hottest
      intro p hp
      have hle := hraised p hp
      rw [hin] at hp
      obtain ⟨n, hn, rfl⟩ := List.mem_map.1 hp
      cases mem_updateFirst hupdated hn with
      | inl hsame => exact ⟨n.count, Nat.le_refl _, List.mem_map_of_mem hsame⟩
      | inr hchanged => exact ⟨_, hle, List.mem_map.2 ⟨_, hchanged, rfl⟩⟩
    · split
      · apply keeps_putDenorm hjson hself
        rw [map_hottest]
        apply keeps_hottest
        intro p hp
        rw [hin] at hp
        rw [List.map_append]
        exact ⟨p.2, Nat.le_refl _, List.mem_append_left _ hp⟩
      · exact hself
  · next hplain =>
    have hin : neighborsIn json blob = decodeNeighbors json blob := if_neg hplain
    have hput : ∀ l : List (Nat × Nat), (∀ p ∈ neighborsIn json blob, ∃ count, p.2 ≤ count ∧ (p.1, count) ∈ l) →
        Keeps (neighborsIn json blob) (neighborsOf json
          (if decide (dstValue ≠ "" ∧ dstIocType ≠ "") = true then
            putEncoded (some blob) (encodeNeighborsDenorm json ((hottest id l).map fun p =>
              ⟨p.1, p.2, if p.1 = dstId then dstValue else "", if p.1 = dstId then dstIocType else ""⟩))
          else putEncoded (some blob) (encodeNeighbors json (hottest id l))).2) := by
      intro l hl
      split
      · apply keeps_putDenorm hjson hself
        rw [List.map_map]
        have hcounted : (HotNeighbor.counted ∘ fun p : Nat × Nat =>
            (⟨p.1, p.2, if p.1 = dstId then dstValue else "", if p.1 = dstId then dstIocType else ""⟩ : HotNeighbor)) =
              id := rfl
        rw [hcounted, List.map_id]
        exact keeps_hottest hl
      · exact keeps_putPlain hjson hself (keeps_hottest hl)
    split
    · next hnil =>
      apply hput
      rw [hin, hnil]
      exact nofun
    · split
      · next updated hupdated =>
        apply hput
        intro p hp
        have hle := hraised p hp
        rw [hin] at hp
        cases mem_updateFirst hupdated hp with
        | inl hsame => exact ⟨p.2, Nat.le_refl _, hsame⟩
        | inr hchanged => exact ⟨_, hle, hchanged⟩
      · split
        · apply hput
          intro p hp
          rw [hin] at hp
          exact ⟨p.2, Nat.le_refl _, List.mem_append_left _ hp⟩
        · exact hself

theorem keeps_deleteHotEdge (hjson : json.Lawful) (dstId : Nat) :
    Keeps ((neighborsIn json blob).filter fun p => p.1 ≠ dstId)
      (neighborsOf json (deleteHotEdge json (some blob) dstId).2) := by
  have hself : Keeps ((neighborsIn json blob).filter fun p => p.1 ≠ dstId) (neighborsIn json blob) :=
    fun p hp => .inl ⟨p.2, Nat.le_refl _, List.mem_of_mem_filter hp⟩
  have hothers : ∀ l : List (Nat × Nat), Keeps l (hottest id l) :=
    fun l => keeps_hottest fun p hp => ⟨p.2, Nat.le_refl _, hp⟩
  cases blob with
  | nil => exact hself
  | cons x rest =>
    simp only [deleteHotEdge]
    split
    · next hdenorm =>
      have hin : neighborsIn json (x :: rest) =
          (decodeNeighborsDenorm json (x :: rest)).map HotNeighbor.counted := if_pos hdenorm
      have hfilter : (neighborsIn json (x :: rest)).filter (fun p => p.1 ≠ dstId) =
          ((decodeNeighborsDenorm json (x :: rest)).filter fun n => n.dstId ≠ dstId).map HotNeighbor.counted := by
        rw [hin, List.filter_map]
        rfl
      split
      · exact hself
      · split
        · next hnil =>
          rw [hfilter, hnil]
          exact nofun
        · apply keeps_putDenorm hjson hself
          rw [map_hottest, hfilter]
          exact hothers _
    · next hplain =>
      have hin : neighborsIn json (x :: rest) = decodeNeighbors json (x :: rest) := if_neg hplain
      split
      · exact hself
      · split
        · next hnil =>
          rw [hin, hnil]
          exact nofun
        · apply keeps_putPlain hjson hself
          rw [hin]
          exact hothers _

theorem exists_get?_foldl {V D : Type} {f : V → Nat} {step : Dict Nat V → D → Dict Nat V}
    (hstep : ∀ d x dstId v, d.get? dstId = some v → f v ≤ uint64Max →
      ∃ v', (step d x).get? dstId = some v' ∧ f v ≤ f v' ∧ f v' ≤ uint64Max)
    {deltas : List D} {d : Dict Nat V} {v : V} (hget : d.get? dstId = some v) (hmax : f v ≤ uint64Max) :
    ∃ v', (deltas.foldl step d).get? dstId = some v' ∧ f v ≤ f v' := by
  induction deltas generalizing d v with
  | nil => exact ⟨v, hget, Nat.le_refl _⟩
  | cons x rest ih =>
    obtain ⟨v', hget', hle, hmax'⟩ := hstep d x dstId v hget hmax
    obtain ⟨last, hlast, hle'⟩ := ih hget' hmax'
    exact ⟨last, hlast, Nat.le_trans hle hle'⟩

theorem exists_get?_addDelta (d : Dict Nat (Nat × String × String)) (n : HotNeighbor) (dstId : Nat)
    (v : Nat × String × String) (hget : d.get? dstId = some v) (hmax : v.1 ≤ uint64Max) :
    ∃ v', (addDelta d n).get? dstId = some v' ∧ v.1 ≤ v'.1 ∧ v'.1 ≤ uint64Max := by
  rw [addDelta]
  by_cases hid : n.dstId = dstId
  · subst hid
    rw [hget]
    exact ⟨_, Dict.get?_insert_self, Nat.le_min.2 ⟨Nat.le_add_right _ _, hmax⟩, Nat.min_le_right _ _⟩
  · split
    · exact ⟨v, by rw [Dict.get?_insert_of_ne hid, hget], Nat.le_refl _, hmax⟩
    · exact ⟨v, by rw [Dict.get?_insert_of_ne hid, hget], Nat.le_refl _, hmax⟩

theorem exists_get?_addCount (d : Dict Nat Nat) (p : Nat × Nat) (dstId count : Nat) (hget : d.get? dstId = some count)
    (hmax : count ≤ uint64Max) :
    ∃ count', (addCount d p).get? dstId = some count' ∧ count ≤ count' ∧ count' ≤ uint64Max := by
  rw [addCount]
  by_cases hid : p.1 = dstId
  · subst hid
    rw [hget]
    exact ⟨_, Dict.get?_insert_self, Nat.le_min.2 ⟨Nat.le_add_right _ _, hmax⟩, Nat.min_le_right _ _⟩
  · exact ⟨count, by rw [Dict.get?_insert_of_ne hid, hget], Nat.le_refl _, hmax⟩

end Merges

/-! ### Flushes -/

section Flushes

variable {json : PairCodec} {blob : Bytes} {l : List HotNeighbor}

/-- A neighbour as an entry of the map. -/
def HotNeighbor.entry (n : HotNeighbor) : Nat × Nat × String × String := (n.dstId, n.count, n.value, n.iocType)

/-- The neighbours that a flush of the buffer starts from. -/
def flushBase (json : PairCodec) (blob : Bytes) : List HotNeighbor :=
  if isDenorm blob then decodeNeighborsDenorm json blob else (decodeNeighbors json blob).map HotNeighbor.bare

theorem map_counted_flushBase : (flushBase json blob).map HotNeighbor.counted = neighborsIn json blob := by
  rw [flushBase, neighborsIn]
  split
  · rfl
  · exact map_counted_bare _

theorem countsOf_entry (l : List HotNeighbor) :
    countsOf Prod.fst (l.map HotNeighbor.entry) = l.map HotNeighbor.counted := by
  rw [countsOf, List.map_map]
  rfl

theorem map_counted_neighborsOfMap (d : Dict Nat (Nat × String × String)) :
    (neighborsOfMap d).map HotNeighbor.counted = countsOf Prod.fst d.entries := by
  rw [neighborsOfMap, List.map_map]
  rfl

theorem mergeDenorm_some (deltas : List HotNeighbor) : mergeDenorm json (some blob) deltas =
    encodeNeighborsDenorm json (hottest HotNeighbor.counted (neighborsOfMap
      (deltas.foldl addDelta (Dict.empty.insertAll ((flushBase json blob).map HotNeighbor.entry))))) := rfl

theorem keeps_mergeDenorm (hjson : json.Lawful) (hmax : ∀ p ∈ neighborsIn json blob, p.2 < 2 ^ 64)
    (hlast : LastHighest (neighborsIn json blob)) (deltas : List HotNeighbor) :
    Keeps (neighborsIn json blob) (neighborsIn json ((mergeDenorm json (some blob) deltas).getD blob)) := by
  cases hmerge : mergeDenorm json (some blob) deltas with
  | none => exact keeps_refl _
  | some new =>
    rw [mergeDenorm_some] at hmerge
    rw [Option.getD_some, neighborsIn_encodeDenorm hjson hmerge, map_hottest, map_counted_neighborsOfMap]
    rw [← map_counted_flushBase, ← countsOf_entry] at hlast hmax ⊢
    apply keeps_of_raised hlast
    intro dstId v hget
    apply exists_get?_foldl exists_get?_addDelta hget
    have hmem := List.mem_map_of_mem (f := fun e : Nat × Nat × String × String => (e.1, e.2.1))
      (mem_of_get?_insertAll hget)
    exact Nat.le_pred_of_lt (hmax (dstId, v.1) hmem)

theorem keeps_mergeL1 (hjson : json.Lawful) (hplain : isDenorm blob = false)
    (hmax : ∀ p ∈ neighborsIn json blob, p.2 < 2 ^ 64) (hlast : LastHighest (neighborsIn json blob))
    (deltas : List (Nat × Nat)) :
    Keeps (neighborsIn json blob) (neighborsIn json ((mergeL1 json (some blob) deltas).getD blob)) := by
  have hin : neighborsIn json blob = decodeNeighbors json blob := if_neg (by rw [hplain]; nofun)
  have hcounts : ∀ entries : List (Nat × Nat), countsOf id entries = entries := List.map_id
  cases hmerge : mergeL1 json (some blob) deltas with
  | none => exact keeps_refl _
  | some new =>
    rw [Option.getD_some, neighborsIn_encode hjson hmerge]
    rw [hin] at hlast hmax ⊢
    rw [← hcounts (decodeNeighbors json blob)] at hlast
    have hkeeps := keeps_of_raised (d := deltas.foldl addCount (Dict.empty.insertAll (decodeNeighbors json blob))) hlast
      fun dstId count hget => exists_get?_foldl exists_get?_addCount hget
        (Nat.le_pred_of_lt (hmax (dstId, count) (mem_of_get?_insertAll hget)))
    rw [hcounts, hcounts] at hkeeps
    exact hkeeps

/-- An edge of the buffer, as a flush adds it. -/
def IsDelta (n : HotNeighbor) : Prop := n.count = 1 ∧ n.value ≠ "" ∧ n.iocType ≠ ""

/-- A count of the counter in memory. -/
def IsCount (p : Nat × Nat) : Prop := p.1 < 2 ^ 64 ∧ 0 < p.2 ∧ p.2 < 2 ^ 64

theorem numbers_insert {V : Type} {f : V → Nat} {entries : List (Nat × V)} {newId : Nat} {v : V}
    (hnumbers : ∀ p ∈ countsOf f entries, p.1 < 2 ^ 64 ∧ p.2 < 2 ^ 64) (hid : newId < 2 ^ 64) (hv : f v < 2 ^ 64) :
    ∀ p ∈ countsOf f ((Dict.empty.insertAll entries).insert newId v).entries, p.1 < 2 ^ 64 ∧ p.2 < 2 ^ 64 := by
  intro p hp
  obtain ⟨e, he, rfl⟩ := List.mem_map.1 hp
  have hget := Dict.get?_eq_some_iff.2 he
  rw [Dict.get?_insert] at hget
  split at hget
  · next heq => exact ⟨heq ▸ hid, Option.some_inj.1 hget ▸ hv⟩
  · exact hnumbers _ (List.mem_map_of_mem (f := fun e : Nat × V => (e.1, f e.2)) (mem_of_get?_insertAll hget))

theorem get?_insertAll_of_notMem {V : Type} {entries : List (Nat × V)} {newId : Nat}
    (h : newId ∉ entries.map Prod.fst) : (Dict.empty.insertAll entries).get? newId = none := by
  rw [← Dict.notMem_keys_iff]
  exact fun hmem => h ((subperm_keys_insertAll entries).subset hmem)

theorem lastHighest_of_keeps_mergeDenorm (hjson : json.Lawful) (hfew : (neighborsIn json blob).length ≤ maxHotNeighbors)
    (hnumbers : ∀ p ∈ neighborsIn json blob, p.1 < 2 ^ 64 ∧ p.2 < 2 ^ 64)
    (h : ∀ deltas, deltas ≠ [] → (∀ n ∈ deltas, IsDelta n) →
      Keeps (neighborsIn json blob) (neighborsIn json ((mergeDenorm json (some blob) deltas).getD blob))) :
    LastHighest (neighborsIn json blob) := by
  obtain ⟨newId, hid, hnew⟩ := exists_newId ((neighborsIn json blob).map Prod.fst) (by
    rw [List.length_map]
    exact hfew)
  let delta : HotNeighbor := ⟨newId, 1, "a", "a"⟩
  have hkeeps := h [delta] (List.cons_ne_nil _ _) fun n hn => by
    rw [List.mem_singleton.1 hn]
    exact ⟨rfl, (by decide : "a" ≠ ""), (by decide : "a" ≠ "")⟩
  rw [← map_counted_flushBase, ← countsOf_entry] at hnumbers hfew hnew
  have hids : newId ∉ ((flushBase json blob).map HotNeighbor.entry).map Prod.fst := by
    intro hmem
    apply hnew
    rw [countsOf, List.map_map]
    exact hmem
  have hadd : addDelta (Dict.empty.insertAll ((flushBase json blob).map HotNeighbor.entry)) delta =
      (Dict.empty.insertAll ((flushBase json blob).map HotNeighbor.entry)).insert newId (1, "a", "a") := by
    rw [addDelta, get?_insertAll_of_notMem hids]
  rw [mergeDenorm_some, List.foldl_cons, List.foldl_nil, hadd] at hkeeps
  have hwritten : ∀ n ∈ hottest HotNeighbor.counted (neighborsOfMap
      ((Dict.empty.insertAll ((flushBase json blob).map HotNeighbor.entry)).insert newId (1, "a", "a"))),
      n.dstId < 2 ^ 64 ∧ n.count < 2 ^ 64 := by
    intro n hn
    have hmem := List.mem_map_of_mem (f := HotNeighbor.counted) (mem_of_mem_hottest hn)
    rw [map_counted_neighborsOfMap] at hmem
    exact numbers_insert hnumbers hid (show 1 < 2 ^ 64 by decide) _ hmem
  obtain ⟨new, hencode⟩ := Option.isSome_iff_exists.1 (encodeNeighborsDenorm_isSome hjson hwritten)
  rw [hencode, Option.getD_some, neighborsIn_encodeDenorm hjson hencode, map_hottest, map_counted_neighborsOfMap,
    ← map_counted_flushBase, ← countsOf_entry] at hkeeps
  rw [← map_counted_flushBase, ← countsOf_entry]
  rw [countsOf, List.length_map] at hfew
  exact lastHighest_of_keeps hfew hids _ hkeeps

/-- A flush of the counter in memory loses every node of the second format, and counts like a flush of the buffer. -/
theorem lastHighest_of_keeps_mergeL1 (hjson : json.Lawful) (h : Written json l blob) (hl : Bounded l)
    (hkeeps : ∀ deltas, deltas ≠ [] → (∀ p ∈ deltas, IsCount p) →
      Keeps (neighborsIn json blob) (neighborsIn json ((mergeL1 json (some blob) deltas).getD blob))) :
    isDenorm blob = false ∧ LastHighest (neighborsIn json blob) := by
  have hcounts : ∀ entries : List (Nat × Nat), countsOf id entries = entries := List.map_id
  obtain ⟨newId, hid, hnew⟩ := exists_newId ((l.map HotNeighbor.counted).map Prod.fst) (by
    rw [List.length_map, List.length_map]
    exact hl.few)
  have hnumbers : ∀ p ∈ l.map HotNeighbor.counted, p.1 < 2 ^ 64 ∧ p.2 < 2 ^ 64 := by
    intro p hp
    obtain ⟨n, hn, rfl⟩ := List.mem_map.1 hp
    exact hl.numbers n hn
  have hone := hkeeps [(newId, 1)] (List.cons_ne_nil _ _) fun p hp => by
    rw [List.mem_singleton.1 hp]
    exact ⟨hid, Nat.one_pos, (by decide : 1 < 2 ^ 64)⟩
  have hmerge : ∀ neighbors : List (Nat × Nat), decodeNeighbors json blob = neighbors →
      newId ∉ neighbors.map Prod.fst → mergeL1 json (some blob) [(newId, 1)] =
        encodeNeighbors json (hottest id ((Dict.empty.insertAll neighbors).insert newId 1).entries) := by
    rintro neighbors rfl habsent
    simp only [mergeL1, Option.map_some, Option.getD_some, List.foldl_cons, List.foldl_nil, addCount,
      get?_insertAll_of_notMem habsent]
    rfl
  have hencode : ∀ neighbors : List (Nat × Nat), (∀ p ∈ neighbors, p.1 < 2 ^ 64 ∧ p.2 < 2 ^ 64) → ∃ new,
      encodeNeighbors json (hottest id ((Dict.empty.insertAll neighbors).insert newId 1).entries) = some new := by
    intro neighbors hneighbors
    apply Option.isSome_iff_exists.1
    apply hjson.total
    intro p hp
    have hmem := mem_of_mem_hottest hp
    rw [← hcounts neighbors] at hneighbors
    rw [← hcounts ((Dict.empty.insertAll neighbors).insert newId 1).entries] at hmem
    exact numbers_insert hneighbors hid (show 1 < 2 ^ 64 by decide) p hmem
  obtain ⟨_, hne, _, hnil⟩ | ⟨hplain, hdecode, _⟩ := forms_of_written hjson h
  · -- Read as JSON the node is empty, so the new neighbour stands alone in it.
    exfalso
    obtain ⟨new, hnew'⟩ := hencode [] nofun
    rw [hmerge [] hnil nofun, hnew', Option.getD_some, neighborsIn_encode hjson hnew',
      neighborsIn_written hjson h] at hone
    obtain ⟨n, hn⟩ := List.exists_mem_of_ne_nil l hne
    cases hone n.counted (List.mem_map_of_mem hn) with
    | inl hkept =>
      obtain ⟨count, _, hcount⟩ := hkept
      have hmem : (n.dstId, count) ∈ [(newId, 1)] := mem_of_mem_hottest hcount
      have heq := List.mem_singleton.1 hmem
      exact hnew ((Prod.mk.inj heq).1 ▸ List.mem_map_of_mem (List.mem_map_of_mem hn))
    | inr hcut =>
      have hlength :
          (hottest id ((Dict.empty.insertAll ([] : List (Nat × Nat))).insert newId 1).entries).length = 1 := rfl
      rw [hlength] at hcut
      cases hcut.1
  · refine ⟨hplain, ?_⟩
    obtain ⟨new, hnew'⟩ := hencode _ hnumbers
    rw [hmerge _ hdecode hnew, hnew', Option.getD_some, neighborsIn_encode hjson hnew',
      neighborsIn_written hjson h] at hone
    rw [neighborsIn_written hjson h, ← hcounts (l.map HotNeighbor.counted)]
    apply lastHighest_of_keeps (by rw [List.length_map]; exact hl.few) hnew 1
    rw [hcounts, hcounts]
    exact hone

end Flushes

/-- What the formats are for. The second encoder is read back, both readers and both getters see the same neighbours in
a blob, and no merge loses one. Of a list that a node can have the first holds where the texts fit, the second nowhere
but for the list of nobody, and of the merges recording and deleting an edge keep everything, a flush of the buffer does
where no earlier entry of a neighbour has a higher count than its last, and a flush of the counter in memory does so in
nodes of the first format only. -/
theorem formats_interoperate_iff {json : PairCodec} (hjson : json.Lawful) {l : List HotNeighbor} (hl : Bounded l) :
    ((encodeNeighborsDenorm json l).map (decodeNeighborsDenorm json) = some l ↔ ∀ n ∈ l, n.Fits) ∧
    ∀ blob, Written json l blob →
      (decodeNeighbors json blob = (decodeNeighborsDenorm json blob).map HotNeighbor.counted ↔ l = []) ∧
      (∀ (s : HotEdges) (srcId : Nat) (topN : Int), s.disk.get? srcId = some blob →
        (s.getHotNeighbors json srcId topN = (s.getHotNeighborsDenorm json srcId topN).map HotNeighbor.counted ↔
          l = [])) ∧
      (∀ dstId dstValue dstIocType, Keeps (neighborsIn json blob)
        (neighborsOf json (recordEdgeLmdb json (some blob) dstId dstValue dstIocType).2)) ∧
      (∀ dstId, Keeps ((neighborsIn json blob).filter fun p => p.1 ≠ dstId)
        (neighborsOf json (deleteHotEdge json (some blob) dstId).2)) ∧
      ((∀ deltas, deltas ≠ [] → (∀ n ∈ deltas, IsDelta n) → Keeps (neighborsIn json blob)
        (neighborsIn json ((mergeDenorm json (some blob) deltas).getD blob))) ↔
          LastHighest (l.map HotNeighbor.counted)) ∧
      ((∀ deltas, deltas ≠ [] → (∀ p ∈ deltas, IsCount p) → Keeps (neighborsIn json blob)
        (neighborsIn json ((mergeL1 json (some blob) deltas).getD blob))) ↔
          isDenorm blob = false ∧ LastHighest (l.map HotNeighbor.counted)) := by
  refine ⟨map_decode_encode_iff hjson hl, fun blob h => ?_⟩
  have hin := neighborsIn_written hjson h
  have hnumbers : ∀ p ∈ neighborsIn json blob, p.1 < 2 ^ 64 ∧ p.2 < 2 ^ 64 := by
    intro p hp
    rw [hin] at hp
    obtain ⟨n, hn, rfl⟩ := List.mem_map.1 hp
    exact hl.numbers n hn
  have hcounts : ∀ p ∈ neighborsIn json blob, p.2 < 2 ^ 64 := fun p hp => (hnumbers p hp).2
  have hfew : (neighborsIn json blob).length ≤ maxHotNeighbors := by
    rw [hin, List.length_map]
    exact hl.few
  refine ⟨same_iff_nil hjson h, fun s srcId topN hdisk => getters_agree_iff_nil hjson h hdisk topN,
    keeps_recordEdgeLmdb hjson hcounts, keeps_deleteHotEdge hjson, ?_, ?_⟩
  · rw [← hin]
    exact ⟨lastHighest_of_keeps_mergeDenorm hjson hfew hnumbers,
      fun hlast deltas _ _ => keeps_mergeDenorm hjson hcounts hlast deltas⟩
  · rw [← hin]
    exact ⟨lastHighest_of_keeps_mergeL1 hjson h hl,
      fun hboth deltas _ _ => keeps_mergeL1 hjson hboth.1 hcounts hboth.2 deltas⟩

/-- The blob of one neighbour with its data is read back by the second reader, and not by the first. -/
theorem formats_interoperate_iff_neighbor :
    (encodeNeighborsDenorm PairJson.codec [⟨2, 1, "a.org", "domain"⟩]).map
      (decodeNeighborsDenorm PairJson.codec) = some [⟨2, 1, "a.org", "domain"⟩] ∧
    ∀ blob, Written PairJson.codec [⟨2, 1, "a.org", "domain"⟩] blob →
      decodeNeighbors PairJson.codec blob ≠ (decodeNeighborsDenorm PairJson.codec blob).map HotNeighbor.counted := by
  have hbounded : Bounded [⟨2, 1, "a.org", "domain"⟩] := ⟨by decide, by decide⟩
  obtain ⟨hread, hblob⟩ := formats_interoperate_iff PairJson.codec_lawful hbounded
  refine ⟨hread.2 fun n hn => ?_, fun blob h => ?_⟩
  · rw [List.mem_singleton.1 hn]
    exact ⟨by decide +kernel, by decide +kernel⟩
  · rw [Ne, (hblob blob h).1]
    exact List.cons_ne_nil _ _

/-- The first reader takes a blob of the second format for an empty list. -/
theorem not_formats_interoperate :
    ¬ ∀ (json : PairCodec), json.Lawful → ∀ l, Bounded l → ∀ blob, Written json l blob →
      decodeNeighbors json blob = (decodeNeighborsDenorm json blob).map HotNeighbor.counted := by
  intro h
  have hbounded : Bounded [⟨2, 1, "a.org", "domain"⟩] := ⟨by decide, by decide⟩
  have hsame := h PairJson.codec PairJson.codec_lawful _ hbounded
    ([3, 1, 0, 2, 0, 0, 0, 0, 0, 0, 0, 1, 0, 0, 0, 0, 0, 0, 0, 5, 0] ++ encode "a.org" ++ [6] ++ encode "domain")
    (.inr (by decide +kernel))
  revert hsame
  decide +kernel

end Hledac.Knowledge
