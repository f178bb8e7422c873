import Hledac.Knowledge.HotEdgeCounts

/-!
# The formats of the hot edges

What a blob of either format holds, and which of the two readers sees it.
-/

namespace Hledac.Knowledge

open Hledac.Lib Hledac.Py

/-! ### Ranking -/

section Ranking

variable {α : Type} {key : α → Nat × Nat} {l : List α} {p q r : Nat × Nat}

instance : Std.Total RanksBefore where
  total p q := by
    rw [RanksBefore, RanksBefore]
    omega

instance : IsTrans (Nat × Nat) RanksBefore where
  trans p q r hpq hqr := by
    rw [RanksBefore] at *
    omega

theorem rankBy_perm (key : α → Nat × Nat) (l : List α) : (rankBy key l).Perm l := List.perm_insertionSort _ l

theorem pairwise_rankBy (l : List (Nat × Nat)) : (rankBy id l).Pairwise RanksBefore :=
  List.pairwise_insertionSort RanksBefore l

theorem map_rankBy (key : α → Nat × Nat) (l : List α) : (rankBy key l).map key = rankBy id (l.map key) :=
  List.map_insertionSort _ _ key l fun _ _ _ _ => Iff.rfl

theorem map_hottest (key : α → Nat × Nat) (l : List α) : (hottest key l).map key = hottest id (l.map key) := by
  rw [hottest, List.map_take, map_rankBy, hottest]

theorem mem_of_mem_hottest {a : α} (h : a ∈ hottest key l) : a ∈ l :=
  (rankBy_perm key l).mem_iff.1 (List.mem_of_mem_take h)

theorem mem_hottest_of_few (hfew : l.length ≤ maxHotNeighbors) {a : α} : a ∈ hottest key l ↔ a ∈ l := by
  rw [hottest, List.take_of_length_le (by rw [(rankBy_perm key l).length_eq]; exact hfew)]
  exact (rankBy_perm key l).mem_iff

theorem ranksBefore_of_cut {l : List (Nat × Nat)} (hmem : p ∈ l) (hcut : p ∉ hottest id l) :
    (hottest id l).length = maxHotNeighbors ∧ ∀ q ∈ hottest id l, RanksBefore q p := by
  have hsplit := List.take_append_drop maxHotNeighbors (rankBy id l)
  have hranked := pairwise_rankBy l
  have hrest : p ∈ (rankBy id l).drop maxHotNeighbors := by
    have hboth : p ∈ (rankBy id l).take maxHotNeighbors ++ (rankBy id l).drop maxHotNeighbors := by
      rw [hsplit]
      exact (rankBy_perm id l).mem_iff.2 hmem
    exact (List.mem_append.1 hboth).resolve_left hcut
  rw [← hsplit, List.pairwise_append] at hranked
  constructor
  · have hlength := List.length_pos_of_mem hrest
    rw [List.length_drop] at hlength
    rw [hottest, List.length_take]
    omega
  · exact fun q hq => hranked.2.2 q hq p hrest

end Ranking

/-! ### What a blob holds -/

/-- The neighbours of a blob, read by its own format. -/
def neighborsIn (json : PairCodec) (blob : Bytes) : List (Nat × Nat) :=
  if isDenorm blob then (decodeNeighborsDenorm json blob).map HotNeighbor.counted else decodeNeighbors json blob

/-- The neighbours of a node, which has none without a blob. -/
def neighborsOf (json : PairCodec) (blob : Option Bytes) : List (Nat × Nat) := (blob.map (neighborsIn json)).getD []

/-- The value and the type fit the length fields of the second format. -/
def HotNeighbor.Fits (n : HotNeighbor) : Prop :=
  (encode n.value).length < 2 ^ 16 ∧ (encode n.iocType).length < 2 ^ 8

/-- A list that a node can have: not too long, and all numbers below `2 ^ 64`. -/
structure Bounded (l : List HotNeighbor) : Prop where
  few : l.length ≤ maxHotNeighbors
  numbers : ∀ n ∈ l, n.dstId < 2 ^ 64 ∧ n.count < 2 ^ 64

/-- The blob is written of the list by one of the two encoders. -/
def Written (json : PairCodec) (l : List HotNeighbor) (blob : Bytes) : Prop :=
  encodeNeighbors json (l.map HotNeighbor.counted) = some blob ∨ encodeNeighborsDenorm json l = some blob

section Packing

variable {json : PairCodec} {n : HotNeighbor} {l : List HotNeighbor} {blob : Bytes}

theorem packNeighbor_eq_some_iff : packNeighbor n = some blob ↔
    (n.dstId < 2 ^ 64 ∧ n.count < 2 ^ 64 ∧ n.Fits) ∧ packedNeighbor n = blob := by
  rw [packNeighbor, HotNeighbor.Fits]
  split
  · next h => exact ⟨fun heq => ⟨h, Option.some_inj.1 heq⟩, fun heq => congrArg some heq.2⟩
  · next h => exact ⟨nofun, fun heq => absurd heq.1 h⟩

theorem readNeighbor_packed (hid : n.dstId < 2 ^ 64) (hcount : n.count < 2 ^ 64) (hfits : n.Fits) (rest : Bytes) :
    readNeighbor (packedNeighbor n ++ rest) = some (n, rest) := by
  simp only [packedNeighbor, List.append_assoc]
  rw [readNeighbor, Wire.bind_eq_of_eq_some (Wire.uint_append hid _),
    Wire.bind_eq_of_eq_some (Wire.uint_append hcount _), Wire.bind_eq_of_eq_some (Wire.uint_append hfits.1 _),
    Wire.bind_eq_of_eq_some (Wire.slice_append _ _), Wire.bind_eq_of_eq_some (Wire.uint_append hfits.2 _),
    Wire.bind_eq_of_eq_some (Wire.slice_append _ _), decodeReplace_encode, decodeReplace_encode]
  rfl

theorem packNeighbors_eq_some_iff : packNeighbors l = some blob ↔
    (l.length < 2 ^ 16 ∧ ∀ n ∈ l, n.dstId < 2 ^ 64 ∧ n.count < 2 ^ 64 ∧ n.Fits) ∧
      wireMarkerDenorm :: (Wire.putLe 2 l.length ++ l.flatMap packedNeighbor) = blob := by
  have hpacked : ∀ packed, List.Forall₂ (fun n b => packNeighbor n = some b) l packed ↔
      (∀ n ∈ l, n.dstId < 2 ^ 64 ∧ n.count < 2 ^ 64 ∧ n.Fits) ∧ l.map packedNeighbor = packed := by
    intro packed
    induction l generalizing packed with
    | nil =>
      rw [List.forall₂_nil_left_iff]
      exact ⟨fun h => ⟨by simp, h.symm⟩, fun h => h.2.symm⟩
    | cons n rest ih =>
      rw [List.forall₂_cons_left_iff, List.forall_mem_cons, List.map_cons]
      constructor
      · rintro ⟨first, others, hfirst, hothers, rfl⟩
        obtain ⟨hfits, rfl⟩ := packNeighbor_eq_some_iff.1 hfirst
        obtain ⟨hrest, rfl⟩ := (ih others).1 hothers
        exact ⟨⟨hfits, hrest⟩, rfl⟩
      · rintro ⟨⟨hfits, hrest⟩, rfl⟩
        exact ⟨_, _, packNeighbor_eq_some_iff.2 ⟨hfits, rfl⟩, (ih _).2 ⟨hrest, rfl⟩, rfl⟩
  rw [packNeighbors]
  split
  · next hlength =>
    rw [Option.map_eq_some_iff]
    constructor
    · rintro ⟨packed, hmap, rfl⟩
      obtain ⟨hfits, rfl⟩ := (hpacked packed).1 (mapM_eq_some_iff.1 hmap)
      exact ⟨⟨hlength, hfits⟩, rfl⟩
    · rintro ⟨⟨_, hfits⟩, rfl⟩
      exact ⟨_, mapM_eq_some_iff.2 ((hpacked _).2 ⟨hfits, rfl⟩), rfl⟩
  · next hlength => exact iff_of_false (by simp) fun h => hlength h.1.1

theorem decodeNeighborsDenorm_packed (json : PairCodec) (h : packNeighbors l = some blob) :
    isDenorm blob = true ∧ decodeNeighborsDenorm json blob = l := by
  obtain ⟨⟨hlength, hfits⟩, rfl⟩ := packNeighbors_eq_some_iff.1 h
  refine ⟨rfl, ?_⟩
  have hread : readNeighbors (Wire.putLe 2 l.length ++ l.flatMap packedNeighbor) = some (l, []) := by
    have hone : ∀ n ∈ l, ∀ rest, readNeighbor (packedNeighbor n ++ rest) = some (n, rest) :=
      fun n hn => readNeighbor_packed (hfits n hn).1 (hfits n hn).2.1 (hfits n hn).2.2
    have hmany := Wire.many_flatMap hone []
    rw [List.append_nil] at hmany
    rw [readNeighbors, Wire.bind_eq_of_eq_some (Wire.uint_append hlength _), hmany]
  rw [Wire.putLe, List.cons_append] at hread ⊢
  rw [decodeNeighborsDenorm, if_neg (by decide), if_pos rfl, hread]
  rfl

theorem forms_of_written (hjson : json.Lawful) (h : Written json l blob) :
    (isDenorm blob = true ∧ l ≠ [] ∧ decodeNeighborsDenorm json blob = l ∧ decodeNeighbors json blob = []) ∨
      isDenorm blob = false ∧ decodeNeighbors json blob = l.map HotNeighbor.counted ∧
        decodeNeighborsDenorm json blob = [] := by
  have hplain : encodeNeighbors json (l.map HotNeighbor.counted) = some blob → isDenorm blob = false ∧
      decodeNeighbors json blob = l.map HotNeighbor.counted ∧ decodeNeighborsDenorm json blob = [] := by
    intro hencode
    obtain ⟨rest, rfl⟩ := List.head?_eq_some_iff.1 (hjson.bracket _ _ hencode)
    refine ⟨rfl, ?_, ?_⟩
    · rw [decodeNeighbors, hjson.decode_encode _ _ hencode]
      rfl
    · cases rest with
      | nil => rfl
      | cons x rest => rfl
  cases h with
  | inl hencode => exact .inr (hplain hencode)
  | inr hencode =>
    rw [encodeNeighborsDenorm] at hencode
    split at hencode
    · next hnil =>
      subst hnil
      exact .inr (hplain hencode)
    · next hne =>
      split at hencode
      · next packed hpacked =>
        cases hencode
        obtain ⟨hdenorm, hdecode⟩ := decodeNeighborsDenorm_packed json hpacked
        refine .inl ⟨hdenorm, hne, hdecode, ?_⟩
        rw [decodeNeighbors, hjson.control blob hdenorm]
        rfl
      · exact .inr (hplain hencode)

theorem neighborsIn_written (hjson : json.Lawful) (h : Written json l blob) :
    neighborsIn json blob = l.map HotNeighbor.counted := by
  rw [neighborsIn]
  obtain ⟨hdenorm, _, hdecode, _⟩ | ⟨hdenorm, hdecode, _⟩ := forms_of_written hjson h
  · rw [if_pos hdenorm, hdecode]
  · rw [if_neg (by rw [hdenorm]; nofun), hdecode]

theorem encodeNeighborsDenorm_isSome (hjson : json.Lawful) (h : ∀ n ∈ l, n.dstId < 2 ^ 64 ∧ n.count < 2 ^ 64) :
    (encodeNeighborsDenorm json l).isSome = true := by
  rw [encodeNeighborsDenorm]
  split
  · exact hjson.total [] (by simp)
  · split
    · rfl
    · apply hjson.total
      intro p hp
      obtain ⟨n, hn, rfl⟩ := List.mem_map.1 hp
      exact h n hn

theorem map_decode_encode_iff (hjson : json.Lawful) (hl : Bounded l) :
    (encodeNeighborsDenorm json l).map (decodeNeighborsDenorm json) = some l ↔ ∀ n ∈ l, n.Fits := by
  obtain ⟨blob, hblob⟩ := Option.isSome_iff_exists.1 (encodeNeighborsDenorm_isSome hjson hl.numbers)
  rw [hblob, Option.map_some, Option.some_inj]
  constructor
  · intro h n hn
    obtain ⟨hdenorm, hne, -⟩ | ⟨_, _, hdecode⟩ := forms_of_written hjson (.inr hblob)
    · rw [encodeNeighborsDenorm, if_neg hne] at hblob
      split at hblob
      · next packed hpacked => exact ((packNeighbors_eq_some_iff.1 hpacked).1.2 n hn).2.2
      · have hbracket := hjson.bracket _ _ hblob
        rw [isDenorm, hbracket] at hdenorm
        cases hdenorm
    · rw [h] at hdecode
      rw [hdecode] at hn
      cases hn
  · intro h
    by_cases hnil : l = []
    · subst hnil
      obtain ⟨_, hne, -⟩ | ⟨_, _, hdecode⟩ := forms_of_written hjson (.inr hblob)
      · exact absurd rfl hne
      · exact hdecode
    · have hpacked := packNeighbors_eq_some_iff.2 ⟨⟨Nat.lt_of_le_of_lt hl.few (by decide), fun n hn =>
        ⟨(hl.numbers n hn).1, (hl.numbers n hn).2, h n hn⟩⟩, rfl⟩
      rw [encodeNeighborsDenorm, if_neg hnil, hpacked] at hblob
      obtain rfl := Option.some_inj.1 hblob
      exact (decodeNeighborsDenorm_packed json hpacked).2

theorem same_iff_nil (hjson : json.Lawful) (h : Written json l blob) :
    decodeNeighbors json blob = (decodeNeighborsDenorm json blob).map HotNeighbor.counted ↔ l = [] := by
  obtain ⟨_, hne, hdenorm, hplain⟩ | ⟨_, hplain, hdenorm⟩ := forms_of_written hjson h
  · rw [hplain, hdenorm, eq_comm, List.map_eq_nil_iff]
  · rw [hplain, hdenorm, List.map_nil, List.map_eq_nil_iff]

theorem getters_agree_iff_nil (hjson : json.Lawful) (h : Written json l blob) {s : HotEdges} {srcId : Nat}
    (hdisk : s.disk.get? srcId = some blob) (topN : Int) :
    s.getHotNeighbors json srcId topN = (s.getHotNeighborsDenorm json srcId topN).map HotNeighbor.counted ↔ l = [] := by
  have htop : 0 < HotEdges.clampTop topN := by
    rw [HotEdges.clampTop, maxHotNeighbors]
    split
    · decide
    · omega
  have hblob : blob ≠ [] := by
    rintro rfl
    obtain ⟨hdenorm, -⟩ | ⟨_, -⟩ := forms_of_written hjson h
    · cases hdenorm
    · cases h with
      | inl h => cases hjson.bracket _ _ h
      | inr h =>
        cases formatted_of_encodeNeighborsDenorm hjson h with
        | inl hhead => cases hhead
        | inr hhead => cases hhead
  have hranked : ∀ {α : Type} (key : α → Nat × Nat) (l : List α), (rankBy key l).take (HotEdges.clampTop topN) = [] ↔
      l = [] := by
    intro α key l
    rw [List.take_eq_nil_iff, ← List.length_eq_zero_iff (l := rankBy key l), (rankBy_perm key l).length_eq,
      List.length_eq_zero_iff]
    exact ⟨fun h => h.resolve_left htop.ne', .inr⟩
  rw [HotEdges.getHotNeighbors, HotEdges.getHotNeighborsDenorm, if_neg (by omega), if_neg (by omega),
    Int.toNat_natCast, hdisk]
  simp only [if_neg hblob]
  obtain ⟨_, _, hdenorm, hplain⟩ | ⟨_, hplain, hdenorm⟩ := forms_of_written hjson h
  · rw [hplain, hdenorm, (hranked id []).2 rfl, eq_comm, List.map_eq_nil_iff, hranked]
  · rw [hplain, hdenorm, (hranked _ []).2 rfl, List.map_nil, hranked, List.map_eq_nil_iff]

end Packing

end Hledac.Knowledge
