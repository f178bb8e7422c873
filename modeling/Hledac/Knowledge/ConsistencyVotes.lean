import Hledac.Knowledge.ConsistencyVerifier
import Hledac.Lib.Choices
import Hledac.Lib.Raising

/-!
# What the votes come to

A source dissents on an entity where it is not the one taken for the majority and the check goes against it. Neither
the check nor the number of findings depends on their order; which of the sources with the most findings is taken for
the majority does, and every one of them is for some order.
-/

namespace Hledac.Knowledge.ConsistencyVerifier

open Hledac.Lib Hledac.Py

/-! ### The check -/

section Check

variable {A A' B B' : List FindingDict} {S S' : List ContradictionSignal} {e : String} {b : Bool}

/-- The mean confidences are too far apart. -/
def Diverges (A B : List FindingDict) : Prop :=
  A.filterMap FindingDict.confidence ≠ [] ∧ B.filterMap FindingDict.confidence ≠ [] ∧
    3 / 10 < |mean (A.filterMap FindingDict.confidence) - mean (B.filterMap FindingDict.confidence)|

/-- There are findings on both sides, and no value on both. -/
def DisjointValues (A B : List FindingDict) : Prop :=
  A ≠ [] ∧ B ≠ [] ∧ ∀ f ∈ A, ∀ g ∈ B, f.valueOf ≠ g.valueOf

/-- Every finding has a value. -/
def Valued (A : List FindingDict) : Prop := ∀ f ∈ A, ∃ v, f.valueOf = .ok v

theorem valued_iff : Valued A ↔ ∃ vs, A.mapM FindingDict.valueOf = .ok vs := by
  simp only [Raising.mapM_eq_ok_iff]
  induction A with
  | nil => exact ⟨fun _ => ⟨[], .nil⟩, fun _ f hf => nomatch hf⟩
  | cons f A ih =>
    rw [Valued, List.forall_mem_cons, ← Valued, ih]
    constructor
    · intro h
      obtain ⟨⟨v, hv⟩, vs, hvs⟩ := h
      exact ⟨v :: vs, .cons hv hvs⟩
    · intro h
      obtain ⟨vs, hvs⟩ := h
      cases hvs with
      | cons hv hrest => exact ⟨⟨_, hv⟩, _, hrest⟩

theorem mem_of_mapM_valueOf {vs : List String} (h : A.mapM FindingDict.valueOf = .ok vs) (v : String) :
    v ∈ vs ↔ ∃ f ∈ A, f.valueOf = .ok v := by
  rw [Raising.mapM_eq_ok_iff] at h
  induction h with
  | nil => simp
  | cons hv hrest ih =>
    rw [List.mem_cons, ih, List.exists_mem_cons_iff, hv, Except.ok.injEq, eq_comm]

theorem disjointValues_iff {vs ws : List String} (hA : A.mapM FindingDict.valueOf = .ok vs)
    (hB : B.mapM FindingDict.valueOf = .ok ws) :
    (vs ≠ [] && ws ≠ [] && vs.all fun v => !ws.contains v) = true ↔ DisjointValues A B := by
  have hlength : vs.length = A.length ∧ ws.length = B.length :=
    ⟨(Raising.mapM_eq_ok_iff.1 hA).length_eq.symm, (Raising.mapM_eq_ok_iff.1 hB).length_eq.symm⟩
  have hvs : vs ≠ [] ↔ A ≠ [] := by rw [← List.length_pos_iff, hlength.1, List.length_pos_iff]
  have hws : ws ≠ [] ↔ B ≠ [] := by rw [← List.length_pos_iff, hlength.2, List.length_pos_iff]
  simp only [Bool.and_eq_true, decide_eq_true_eq, hvs, hws, List.all_eq_true, Bool.not_eq_true',
    List.contains_eq_mem, decide_eq_false_iff_not, mem_of_mapM_valueOf hA, mem_of_mapM_valueOf hB, DisjointValues,
    and_assoc]
  apply and_congr_right
  intro _
  apply and_congr_right
  intro _
  constructor
  · intro h f hf g hg hfg
    obtain ⟨v, hv⟩ := valued_iff.2 ⟨vs, hA⟩ f hf
    exact h v ⟨f, hf, hv⟩ ⟨g, hg, hfg ▸ hv⟩
  · intro h v hv hw
    obtain ⟨f, hf, hfv⟩ := hv
    obtain ⟨g, hg, hgv⟩ := hw
    exact h f hf g hg (hfv.trans hgv.symm)

/-- What goes against a source before its values are looked at. -/
def Flagged (A B : List FindingDict) (S : List ContradictionSignal) (e : String) : Prop :=
  S.any (mentions e) = true ∨ Diverges A B

theorem checkEntityContradiction_of_flagged (h : Flagged A B S e) : checkEntityContradiction A B S e = .ok true := by
  rw [checkEntityContradiction]
  by_cases hmentions : S.any (mentions e) = true
  · rw [if_pos hmentions]
  · rw [if_neg hmentions, if_pos (show _ ∧ _ ∧ _ from h.resolve_left hmentions)]

theorem checkEntityContradiction_eq_ok_iff : checkEntityContradiction A B S e = .ok b ↔
    Flagged A B S e ∧ b = true ∨
      ¬ Flagged A B S e ∧ Valued A ∧ Valued B ∧ (b = true ↔ DisjointValues A B) := by
  by_cases hflagged : Flagged A B S e
  · rw [checkEntityContradiction_of_flagged hflagged, Except.ok.injEq]
    constructor
    · intro h
      exact .inl ⟨hflagged, h.symm⟩
    · intro h
      cases h with
      | inl h => exact h.2.symm
      | inr h => exact absurd hflagged h.1
  · obtain ⟨hmentions, hdiverges⟩ := not_or.1 hflagged
    rw [checkEntityContradiction, if_neg hmentions, if_neg (show ¬ (_ ∧ _ ∧ _) from hdiverges), Raising.bind_eq_ok_iff]
    constructor
    · intro h
      obtain ⟨vs, hvs, h⟩ := h
      obtain ⟨ws, hws, hb⟩ := Raising.bind_eq_ok_iff.1 h
      obtain rfl := Except.ok.inj hb
      exact .inr ⟨hflagged, valued_iff.2 ⟨vs, hvs⟩, valued_iff.2 ⟨ws, hws⟩, disjointValues_iff hvs hws⟩
    · intro h
      obtain ⟨-, hA, hB, hb⟩ := h.resolve_left fun h => hflagged h.1
      obtain ⟨vs, hvs⟩ := valued_iff.1 hA
      obtain ⟨ws, hws⟩ := valued_iff.1 hB
      refine ⟨vs, hvs, Raising.bind_eq_ok_iff.2 ⟨ws, hws, congrArg Except.ok ?_⟩⟩
      rw [Bool.eq_iff_iff, disjointValues_iff hvs hws, hb]

theorem mean_perm {xs ys : List ℚ} (h : xs.Perm ys) : mean xs = mean ys := by
  rw [mean, mean, h.sum_eq, h.length_eq]

theorem ne_nil_perm {α : Type} {xs ys : List α} (h : xs.Perm ys) : xs ≠ [] ↔ ys ≠ [] := by
  rw [← List.length_pos_iff, h.length_eq, List.length_pos_iff]

theorem flagged_perm (hA : A'.Perm A) (hB : B'.Perm B) (hS : S'.Perm S) :
    Flagged A' B' S' e ↔ Flagged A B S e := by
  have hconfA := hA.filterMap FindingDict.confidence
  have hconfB := hB.filterMap FindingDict.confidence
  rw [Flagged, Flagged, Diverges, Diverges, mean_perm hconfA, mean_perm hconfB, ne_nil_perm hconfA,
    ne_nil_perm hconfB, hS.any_eq]

theorem checkEntityContradiction_perm (hA : A'.Perm A) (hB : B'.Perm B) (hS : S'.Perm S) :
    checkEntityContradiction A' B' S' e = .ok b ↔ checkEntityContradiction A B S e = .ok b := by
  have hdisjoint : DisjointValues A' B' ↔ DisjointValues A B := by
    simp only [DisjointValues, ne_nil_perm hA, ne_nil_perm hB, hA.mem_iff, hB.mem_iff]
  have hvalued : (Valued A' ↔ Valued A) ∧ (Valued B' ↔ Valued B) := by
    simp only [Valued, hA.mem_iff, hB.mem_iff, and_self]
  rw [checkEntityContradiction_eq_ok_iff, checkEntityContradiction_eq_ok_iff, flagged_perm hA hB hS, hdisjoint,
    hvalued.1, hvalued.2]

end Check

/-! ### The votes on an entity -/

section Entity

variable {S : List ContradictionSignal} {e : String} {v w : List FindingDict} {m s t : SourceId}

/-- The findings of a source. -/
def ofSource (v : List FindingDict) (s : SourceId) : List FindingDict := members FindingDict.sourceKey s v

/-- The source has a finding. -/
def Reports (v : List FindingDict) (s : SourceId) : Prop := ofSource v s ≠ []

/-- There are enough sources to vote. -/
def Decided (v : List FindingDict) : Prop := AtLeast triSourceMinSources (Reports v)

/-- No source has more findings. -/
def Leads (v : List FindingDict) (m : SourceId) : Prop :=
  Reports v m ∧ ∀ s, (ofSource v s).length ≤ (ofSource v m).length

/-- With `m` for the majority, the check raises nothing. -/
def Returns (S : List ContradictionSignal) (e : String) (v : List FindingDict) (m : SourceId) : Prop :=
  ∀ s, Reports v s → s ≠ m → ∃ b, checkEntityContradiction (ofSource v m) (ofSource v s) S e = .ok b

/-- With `m` for the majority, the check goes against the source. -/
def Dissents (S : List ContradictionSignal) (e : String) (v : List FindingDict) (m s : SourceId) : Prop :=
  Reports v s ∧ s ≠ m ∧ checkEntityContradiction (ofSource v m) (ofSource v s) S e = .ok true

/-- The source that is taken for the majority. -/
def majorityOf (v : List FindingDict) : SourceId := (findMajoritySource (groupSourcesForEntity v)).getD none

theorem mem_keys_sources : s ∈ (groupSourcesForEntity v).keys ↔ Reports v s := by
  rw [groupSourcesForEntity, Dict.mem_keys_group, Reports, ofSource, Ne, List.eq_nil_iff_forall_not_mem]
  simp

theorem get?_sources : (groupSourcesForEntity v).get? s = if ofSource v s = [] then none else some (ofSource v s) := by
  split
  · next h =>
    rw [← Dict.notMem_keys_iff, mem_keys_sources]
    exact not_not.2 h
  · next h =>
    obtain ⟨w, hw⟩ := Option.isSome_iff_exists.1 (Dict.mem_keys_iff.1 (mem_keys_sources.2 h))
    rw [hw, Dict.eq_members_of_mem_entries_group (Dict.get?_eq_some_iff.1 hw), ofSource]

theorem mem_entries_sources : (s, w) ∈ (groupSourcesForEntity v).entries ↔ Reports v s ∧ w = ofSource v s := by
  rw [← Dict.get?_eq_some_iff, get?_sources, Reports]
  split
  · next h => simp [h]
  · next h => simp [h, eq_comm]

theorem decided_iff : Decided v ↔ triSourceMinSources ≤ (groupSourcesForEntity v).size := by
  have hcount := atLeast_iff_le_countP (n := triSourceMinSources) (p := Reports v) (b := fun _ => true)
    (groupSourcesForEntity v).nodup fun s => by rw [mem_keys_sources, and_iff_left rfl]
  rw [Decided, hcount, List.countP_true, Dict.length_keys]

theorem findMajoritySource_of_decided (h : Decided v) :
    findMajoritySource (groupSourcesForEntity v) = some (majorityOf v) := by
  rw [majorityOf]
  cases hmax : findMajoritySource (groupSourcesForEntity v) with
  | some m => rfl
  | none =>
    rw [findMajoritySource, Option.map_eq_none_iff, List.argmax_eq_none] at hmax
    have hsize := decided_iff.1 h
    rw [Dict.size, hmax] at hsize
    exact absurd hsize (by decide)

theorem leads_majorityOf (h : Decided v) : Leads v (majorityOf v) := by
  obtain ⟨⟨m, w⟩, hmax, hm⟩ := Option.map_eq_some_iff.1 (findMajoritySource_of_decided h)
  obtain ⟨hreports, rfl⟩ := mem_entries_sources.1 (List.argmax_mem hmax)
  rw [← hm]
  refine ⟨hreports, ?_⟩
  intro s
  by_cases hs : Reports v s
  · exact List.le_of_mem_argmax (f := fun e : SourceId × List FindingDict => e.2.length)
      (mem_entries_sources.2 ⟨hs, rfl⟩) hmax
  · rw [Reports, not_not] at hs
    rw [hs]
    exact Nat.zero_le _

theorem majorityOf_cons {f : FindingDict} (h : Leads (f :: v) f.sourceOf) : majorityOf (f :: v) = f.sourceOf := by
  have hkey : f.sourceKey = some f.sourceOf := rfl
  have hhead : (groupSourcesForEntity (f :: v)).keys.head? = some f.sourceOf := Dict.head?_keys_group hkey v
  rw [majorityOf, findMajoritySource]
  rw [Dict.keys] at hhead
  cases hentries : (groupSourcesForEntity (f :: v)).entries with
  | nil =>
    rw [hentries] at hhead
    cases hhead
  | cons first rest =>
    rw [hentries] at hhead
    obtain ⟨m, w⟩ := first
    obtain rfl : m = f.sourceOf := Option.some.inj hhead
    obtain ⟨-, rfl⟩ := mem_entries_sources.1 (hentries ▸ List.mem_cons_self (l := rest))
    rw [List.argmax_cons]
    cases hmax : rest.argmax fun e => e.2.length with
    | none => rfl
    | some c =>
      have hmem : (c.1, c.2) ∈ (groupSourcesForEntity (f :: v)).entries := by
        rw [hentries]
        exact List.mem_cons_of_mem _ (List.argmax_mem hmax)
      have hle : ¬ (ofSource (f :: v) f.sourceOf).length < c.2.length := by
        rw [(mem_entries_sources.1 hmem).2]
        exact not_lt.2 (h.2 c.1)
      show ((if (ofSource (f :: v) f.sourceOf).length < c.2.length then some c
        else some (f.sourceOf, ofSource (f :: v) f.sourceOf)).map Prod.fst).getD none = f.sourceOf
      rw [if_neg hle]
      rfl

end Entity

/-! ### Counting dissents -/

section Count

variable {S : List ContradictionSignal} {e : String} {A B v : List FindingDict} {m s t : SourceId}
  {votes : Dict SourceId SourceVote}

/-- How often the source has dissented. -/
def dissentsOf (s : SourceId) (votes : Dict SourceId SourceVote) : Nat :=
  ((votes.get? s).map SourceVote.dissentCount).getD 0

theorem dissentsOf_recordAgreement : dissentsOf s (recordAgreement t e votes) = dissentsOf s votes := by
  rw [dissentsOf, recordAgreement, Dict.get?_insert, dissentsOf]
  split
  · next h =>
    subst h
    cases votes.get? t <;> rfl
  · rfl

theorem dissentsOf_recordDissent :
    dissentsOf s (recordDissent t e votes) = dissentsOf s votes + if t = s then 1 else 0 := by
  rw [dissentsOf, recordDissent, Dict.get?_insert, dissentsOf]
  split
  · next h =>
    subst h
    cases votes.get? t <;> rfl
  · rfl

/-- The check returns, and goes against the source. -/
def goesAgainst (A B : List FindingDict) (S : List ContradictionSignal) (e : String) : Bool :=
  match checkEntityContradiction A B S e with
  | .ok b => b
  | .error _ => false

theorem goesAgainst_iff : goesAgainst A B S e = true ↔ checkEntityContradiction A B S e = .ok true := by
  rw [goesAgainst]
  cases checkEntityContradiction A B S e <;> simp

/-- A source is counted against where it is not the majority and the check goes against it. -/
theorem adds_voteOnSource (e : String) (m : SourceId) (A : List FindingDict) (S : List ContradictionSignal)
    (s : SourceId) :
    Adds (voteOnSource e m A S) (fun x => x.1 ≠ m → ∃ b, checkEntityContradiction A x.2 S e = .ok b) (dissentsOf s)
      fun x => if decide (x.1 = s) && (decide (s ≠ m) && goesAgainst A x.2 S e) then 1 else 0 where
  returns_iff := by
    intro votes x
    rw [voteOnSource]
    by_cases hm : x.1 = m
    · rw [if_pos hm]
      exact ⟨fun _ h => absurd hm h, fun _ => ⟨_, rfl⟩⟩
    · rw [if_neg hm, imp_iff_right hm]
      cases checkEntityContradiction A x.2 S e with
      | error error => exact ⟨nofun, nofun⟩
      | ok b => cases b <;> exact ⟨fun _ => ⟨_, rfl⟩, fun _ => ⟨_, rfl⟩⟩
  adds := by
    intro votes x t ht
    rw [voteOnSource] at ht
    by_cases hm : x.1 = m
    · rw [if_pos hm] at ht
      obtain rfl := Except.ok.inj ht
      have hnot : ¬ (x.1 = s ∧ s ≠ m) := fun h => h.2 (h.1.symm.trans hm)
      rw [dissentsOf_recordAgreement, if_neg (by simpa [and_assoc] using fun h h' => absurd ⟨h, h'⟩ hnot)]
      rfl
    · rw [if_neg hm] at ht
      rw [goesAgainst]
      cases hcheck : checkEntityContradiction A x.2 S e with
      | error error =>
        rw [hcheck] at ht
        cases ht
      | ok b =>
        rw [hcheck] at ht
        cases b with
        | false =>
          obtain rfl := Except.ok.inj ht
          simp
        | true =>
          obtain rfl := Except.ok.inj ht
          rw [dissentsOf_recordDissent]
          congr 1
          by_cases hs : x.1 = s
          · subst hs
            simp [hm]
          · simp [hs]

open scoped Classical in
/-- On an entity with enough sources, every source that dissents is counted against once. -/
theorem adds_voteOnEntity (S : List ContradictionSignal) (s : SourceId) :
    Adds (voteOnEntity S) (fun x => Decided x.2 → Returns S x.1 x.2 (majorityOf x.2)) (dissentsOf s)
      fun x => if decide (Decided x.2 ∧ Dissents S x.1 x.2 (majorityOf x.2) s) then 1 else 0 where
  returns_iff := by
    intro votes x
    obtain ⟨e, v⟩ := x
    rw [voteOnEntity]
    by_cases hdecided : Decided v
    · have hsize := not_lt.2 (decided_iff.1 hdecided)
      simp only [if_neg hsize, findMajoritySource_of_decided hdecided, imp_iff_right hdecided]
      rw [(adds_voteOnSource e (majorityOf v) _ S s).loop.returns_iff, groupSourcesForEntity, Dict.getD_group,
        ← groupSourcesForEntity, ← ofSource]
      constructor
      · intro h t ht hm
        exact h (t, ofSource v t) (mem_entries_sources.2 ⟨ht, rfl⟩) hm
      · intro h x hx hm
        obtain ⟨hreports, hw⟩ := mem_entries_sources.1 hx
        rw [hw]
        exact h x.1 hreports hm
    · rw [if_pos (not_le.1 fun hle => hdecided (decided_iff.2 hle))]
      exact ⟨fun _ h => absurd h hdecided, fun _ => ⟨votes, rfl⟩⟩
  adds := by
    intro votes x t ht
    obtain ⟨e, v⟩ := x
    rw [voteOnEntity] at ht
    by_cases hdecided : Decided v
    · have hsize := not_lt.2 (decided_iff.1 hdecided)
      simp only [if_neg hsize, findMajoritySource_of_decided hdecided] at ht
      rw [(adds_voteOnSource e (majorityOf v) _ S s).loop.adds _ _ _ ht, sum_ite_eq_countP,
        Dict.countP_entries_key _ s fun w => decide (s ≠ majorityOf v) && goesAgainst _ w S e,
        groupSourcesForEntity, Dict.getD_group, ← groupSourcesForEntity, ← ofSource, get?_sources]
      congr 1
      apply if_congr _ rfl rfl
      rw [decide_eq_true_iff, and_iff_right hdecided, Dissents, Reports, ← goesAgainst_iff]
      by_cases hs : ofSource v s = []
      · simp [hs]
      · simp [hs]
    · rw [if_pos (not_le.1 fun hle => hdecided (decided_iff.2 hle))] at ht
      obtain rfl := Except.ok.inj ht
      simp [hdecided]

end Count

/-! ### The vote -/

section Vote

variable {F : List FindingDict} {S : List ContradictionSignal} {e : String} {s : SourceId}
  {votes : Dict SourceId SourceVote}

/-- The findings on an entity. -/
def onEntity (F : List FindingDict) (e : String) : List FindingDict := members FindingDict.entityKey e F

/-- The majorities that the order of the findings makes raise nothing. -/
def AllReturn (F : List FindingDict) (S : List ContradictionSignal) : Prop :=
  ∀ e, Decided (onEntity F e) → Returns S e (onEntity F e) (majorityOf (onEntity F e))

/-- Under these majorities, the source dissents on the entity. -/
def DissentsOn (F : List FindingDict) (S : List ContradictionSignal) (s : SourceId) (e : String) : Prop :=
  Decided (onEntity F e) ∧ Dissents S e (onEntity F e) (majorityOf (onEntity F e)) s

theorem exists_mem_of_reports {v : List FindingDict} (h : Reports v s) : ∃ f ∈ v, f.sourceOf = s := by
  obtain ⟨f, hf⟩ := List.exists_mem_of_ne_nil _ h
  obtain ⟨hmem, hkey⟩ := mem_members.1 hf
  exact ⟨f, hmem, Option.some.inj hkey⟩

theorem le_length_of_decided {v : List FindingDict} (h : Decided v) : triSourceMinSources ≤ v.length := by
  obtain ⟨ks, hnodup, hlength, hall⟩ := h
  have hsub : ks ⊆ v.map FindingDict.sourceOf := by
    intro s hs
    obtain ⟨f, hf, rfl⟩ := exists_mem_of_reports (hall s hs)
    exact List.mem_map_of_mem hf
  have hle := (hnodup.subperm hsub).length_le
  rw [List.length_map] at hle
  exact hlength.trans hle

theorem not_decided_nil : ¬ Decided [] := fun h => absurd (le_length_of_decided h) (by decide)

theorem groupFindingsByEntity_spec (F : List FindingDict) (S : List ContradictionSignal) :
    (∀ e, ((groupFindingsByEntity F S).get? e).getD [] = onEntity F e) ∧
      ∀ e, onEntity F e ≠ [] → e ∈ (groupFindingsByEntity F S).keys := by
  have hfold : ∀ (S : List ContradictionSignal) (d : Dict String (List FindingDict)),
      (∀ e, (d.get? e).getD [] = onEntity F e) → (∀ e, onEntity F e ≠ [] → e ∈ d.keys) →
      let r := S.foldl (fun groups s => if s.entityValue = "" then groups else groups.setDefault s.entityValue []) d
      (∀ e, (r.get? e).getD [] = onEntity F e) ∧ ∀ e, onEntity F e ≠ [] → e ∈ r.keys := by
    intro S
    induction S with
    | nil => exact fun d hget hkeys => ⟨hget, hkeys⟩
    | cons s S ih =>
      intro d hget hkeys
      rw [List.foldl_cons]
      apply ih
      · intro e
        split
        · exact hget e
        · rw [Dict.getD_setDefault_nil, hget]
      · intro e he
        split
        · exact hkeys e he
        · exact Dict.mem_keys_setDefault.2 (.inr (hkeys e he))
  apply hfold
  · exact fun e => Dict.getD_group F e
  · intro e he
    obtain ⟨f, hf⟩ := List.exists_mem_of_ne_nil _ he
    exact Dict.mem_keys_group.2 ⟨f, mem_members.1 hf⟩

theorem eq_onEntity_of_mem {x : String × List FindingDict} (h : x ∈ (groupFindingsByEntity F S).entries) :
    x.2 = onEntity F x.1 := by
  rw [← (groupFindingsByEntity_spec F S).1, Dict.get?_eq_some_iff.2 h, Option.getD_some]

theorem mem_entries_of_decided (h : Decided (onEntity F e)) :
    (e, onEntity F e) ∈ (groupFindingsByEntity F S).entries := by
  have hne : onEntity F e ≠ [] := fun hnil => not_decided_nil (hnil ▸ h)
  obtain ⟨v, hv⟩ := Option.isSome_iff_exists.1 (Dict.mem_keys_iff.1 ((groupFindingsByEntity_spec F S).2 e hne))
  have hmem := Dict.get?_eq_some_iff.1 hv
  rwa [← eq_onEntity_of_mem hmem]

theorem processEntityGroups_returns_iff :
    (∃ votes, processEntityGroups (groupFindingsByEntity F S) S = .ok votes) ↔ AllReturn F S := by
  rw [processEntityGroups, (adds_voteOnEntity S none).loop.returns_iff]
  constructor
  · intro h e he
    exact h _ (mem_entries_of_decided he) he
  · intro h x hx hdecided
    rw [eq_onEntity_of_mem hx] at hdecided ⊢
    exact h x.1 hdecided

theorem le_dissentsOf_iff (h : processEntityGroups (groupFindingsByEntity F S) S = .ok votes) (n : Nat) :
    n ≤ dissentsOf s votes ↔ AtLeast n (DissentsOn F S s) := by
  classical
  have hsum := (adds_voteOnEntity S s).loop.adds _ _ _ h
  rw [sum_ite_eq_countP] at hsum
  have hempty : dissentsOf s Dict.empty = 0 := rfl
  have hcount : (groupFindingsByEntity F S).keys.countP (fun e => decide (DissentsOn F S s e)) = dissentsOf s votes := by
    rw [hsum, hempty, Nat.zero_add, Dict.keys, List.countP_map]
    apply List.countP_congr
    intro x hx
    rw [Function.comp_apply, DissentsOn, ← eq_onEntity_of_mem hx]
    simp only [decide_eq_true_eq]
  rw [← hcount, atLeast_iff_le_countP (groupFindingsByEntity F S).nodup]
  intro e
  rw [decide_eq_true_iff, iff_and_self]
  intro he
  exact List.mem_map_of_mem (mem_entries_of_decided he.1)

end Vote

end Hledac.Knowledge.ConsistencyVerifier
