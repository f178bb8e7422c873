import Mathlib.Data.Finset.Union
import Hledac.Lib.Dict
import Hledac.Lib.SetOrder

/-!
# The difference of two sprints

`compute_diff` compares two lists of findings by text keys. An index keeps the last finding of a key, so
what is reported can hang on the order of a list; a key joins a type and a value by two colons, which
either may hold. Texts are lowered by any function, and sets are read in any order.
-/

namespace Hledac.Knowledge

open Hledac.Lib

namespace SprintDiffEngine

/-- The entries of a finding that are compared. -/
structure Finding where
  iocType : String
  iocValue : String
  findingId : Option String
  deriving DecidableEq

/-- A changed entity. -/
structure Change where
  before : Finding
  after : Finding
  deriving DecidableEq

/-- `SprintDiffResult`; `knowledge/sprint_diff_engine.py:52-58`. -/
structure SprintDiffResult where
  targetId : String
  currentSprintId : String
  previousSprintId : Option String
  newFindings : List Finding
  disappearedFindings : List Finding
  changedEntities : List Change

/-- `MAX_DIFF_FINDINGS`; line 46. -/
def maxDiffFindings : Nat := 100

section

variable (lower : String → String)

/-- A text, or the mark of an unknown one where it is empty. -/
def orUnknown (s : String) : String := if s = "" then "?" else s

/-- Type and value of a finding, lowered. -/
def entity (f : Finding) : String × String := (lower (orUnknown f.iocType), lower (orUnknown f.iocValue))

/-- `_entity_key`; lines 267-280. -/
def entityKey (f : Finding) : String := (entity lower f).1 ++ "::" ++ (entity lower f).2

/-- `_ioc_val`; lines 282-291. -/
def iocVal (f : Finding) : String := (entity lower f).2

/-- The keys of a list of findings with the last finding of each key and of each value. -/
structure Indexed where
  keys : Finset String := ∅
  byKey : Dict String Finding := .empty
  byVal : Dict String Finding := .empty

/-- One pass of the index loop; lines 120-128. -/
def Indexed.add (ix : Indexed) (f : Finding) : Indexed where
  keys := insert (entityKey lower f) ix.keys
  byKey := ix.byKey.insert (entityKey lower f) f
  byVal := ix.byVal.insert (iocVal lower f) f

/-- The index loop. -/
def indexed (findings : List Finding) : Indexed := findings.foldl (Indexed.add lower) {}

end

/-- A loop over keys that collects what it picks and breaks once it has `cap` of it. -/
def collectUpTo {α : Type} (cap : Nat) (pick : String → Option α) : List String → List α → List α
  | [], kept => kept
  | key :: keys, kept =>
    let kept := kept ++ (pick key).toList
    if cap ≤ kept.length then kept else collectUpTo cap pick keys kept

/-- What changed under a value of both lists. -/
def changeOf (prev curr : Indexed) (value : String) : Option Change :=
  match prev.byVal.get? value, curr.byVal.get? value with
  | some before, some after =>
    if after.iocType ≠ before.iocType ∨ after.findingId ≠ before.findingId then some ⟨before, after⟩
    else none
  | _, _ => none

/-- The findings of the keys of the first index that the second does not have. -/
def onlyIn (o : SetOrder String) (first second : Indexed) : List Finding :=
  collectUpTo maxDiffFindings first.byKey.get? (o.order (first.keys \ second.keys)) []

/-- `compute_diff`; lines 81-180. -/
def computeDiff (lower : String → String) (o : SetOrder String) (currentFindings : List Finding)
    (previousFindings : Option (List Finding)) (targetId currentSprintId : String)
    (previousSprintId : Option String) : SprintDiffResult :=
  match previousFindings with
  | none =>
    { targetId, currentSprintId, previousSprintId := none
      newFindings := currentFindings.take maxDiffFindings
      disappearedFindings := []
      changedEntities := [] }
  | some previousFindings =>
    let prev := indexed lower previousFindings
    let curr := indexed lower currentFindings
    { targetId, currentSprintId, previousSprintId
      newFindings := onlyIn o curr prev
      disappearedFindings := onlyIn o prev curr
      changedEntities := collectUpTo maxDiffFindings (changeOf prev curr)
        (o.order (prev.byVal.keys.toFinset ∩ curr.byVal.keys.toFinset)) [] }

/-! ### An exact difference -/

section Exact

variable (lower : String → String) (current previous : List Finding)

/-- The entities of a list of findings. -/
def entities (findings : List Finding) : Finset (String × String) :=
  (findings.map (entity lower)).toFinset

/-- The types, lowered, and finding ids under a value. -/
def pairsUnder (value : String) (findings : List Finding) : Finset (String × Option String) :=
  ((findings.filter fun f => iocVal lower f = value).map
    fun f => ((entity lower f).1, f.findingId)).toFinset

/-- The values that a difference reports as changed. -/
def changedValues (r : SprintDiffResult) : Finset String :=
  (r.changedEntities.map fun c => iocVal lower c.after).toFinset

/-- The difference of the two lists, for a target and sprints whose names do not matter. -/
def diffOf (o : SetOrder String) : SprintDiffResult :=
  computeDiff lower o current (some previous) "" "" none

/-- The entities reported are those of one list alone, and the values reported are changed ones. -/
structure Reports (r : SprintDiffResult) : Prop where
  new : entities lower r.newFindings = entities lower current \ entities lower previous
  disappeared : entities lower r.disappearedFindings = entities lower previous \ entities lower current
  changed : ∀ v ∈ changedValues lower r, pairsUnder lower v previous ≠ pairsUnder lower v current

/-- Two differences report the same entities and values. -/
structure SameSets (r s : SprintDiffResult) : Prop where
  new : entities lower r.newFindings = entities lower s.newFindings
  disappeared : entities lower r.disappearedFindings = entities lower s.disappearedFindings
  changed : changedValues lower r = changedValues lower s

/-- The difference is exact in every order of the sets, does not hang on the order of the lists, is empty
where one is a permutation of the other, and is turned round with them. -/
structure ExactDiff : Prop where
  reports : ∀ o, Reports lower current previous (diffOf lower current previous o)
  permuted : ∀ o o' current' previous', current'.Perm current → previous'.Perm previous →
    SameSets lower (diffOf lower current' previous' o') (diffOf lower current previous o)
  ofPerm : ∀ o, current.Perm previous → (diffOf lower current previous o).newFindings = [] ∧
    (diffOf lower current previous o).disappearedFindings = [] ∧
    (diffOf lower current previous o).changedEntities = []
  swapped : ∀ o o',
    entities lower (diffOf lower previous current o').newFindings =
        entities lower (diffOf lower current previous o).disappearedFindings ∧
      entities lower (diffOf lower previous current o').disappearedFindings =
        entities lower (diffOf lower current previous o).newFindings

/-- Findings with one key are of one entity, or their entities stand in both lists. -/
def KeysApart : Prop :=
  ∀ f ∈ current ++ previous, ∀ g ∈ current ++ previous, entityKey lower f = entityKey lower g →
    entity lower f = entity lower g ∨
      ∀ h ∈ [f, g], entity lower h ∈ entities lower current ∩ entities lower previous

/-- Type, as it is written, and id. -/
def typeAndId (f : Finding) : String × Option String := (f.iocType, f.findingId)

/-- Under each value of both lists there is one type and one id, or no type and id of one list is in the
other and lowering the types leaves them different. -/
def PairsSettled : Prop :=
  ∀ p ∈ previous, ∀ c ∈ current, iocVal lower p = iocVal lower c →
    (∀ f ∈ current ++ previous, iocVal lower f = iocVal lower c → typeAndId f = typeAndId c) ∨
      typeAndId p ≠ typeAndId c ∧
        pairsUnder lower (iocVal lower c) previous ≠ pairsUnder lower (iocVal lower c) current

end Exact

/-! ### What the indexes hold -/

section Indexes

variable {lower : String → String} {findings : List Finding} {f : Finding} {key value : String}

theorem collectUpTo_eq {α : Type} {cap : Nat} (pick : String → Option α) (keys : List String)
    {kept : List α} (h : kept.length < cap) :
    collectUpTo cap pick keys kept = (kept ++ keys.filterMap pick).take cap := by
  induction keys generalizing kept with
  | nil =>
    rw [collectUpTo, List.filterMap_nil, List.append_nil, List.take_of_length_le h.le]
  | cons key keys ih =>
    have hpick : kept ++ (key :: keys).filterMap pick =
        kept ++ (pick key).toList ++ keys.filterMap pick := by
      rw [List.append_assoc]
      cases hp : pick key with
      | none => rw [List.filterMap_cons_none hp, Option.toList_none, List.nil_append]
      | some a => rw [List.filterMap_cons_some hp, Option.toList_some, List.singleton_append]
    have hlength : (pick key).toList.length ≤ 1 := by
      cases pick key <;> simp
    rw [collectUpTo, hpick]
    split
    · next hcap =>
      -- one thing was picked, and with it the loop is full
      have hfull : (kept ++ (pick key).toList).length = cap := by
        rw [List.length_append] at hcap ⊢
        omega
      rw [List.take_left' hfull]
    · next hcap => exact ih (Nat.lt_of_not_le hcap)

theorem mem_collectUpTo {α : Type} {cap : Nat} {pick : String → Option α} {keys : List String}
    (hcap : 0 < cap) (h : keys.length ≤ cap) {a : α} :
    a ∈ collectUpTo cap pick keys [] ↔ ∃ key ∈ keys, pick key = some a := by
  rw [collectUpTo_eq pick keys hcap, List.nil_append,
    List.take_of_length_le ((List.length_filterMap_le _ _).trans h), List.mem_filterMap]

/-- The last finding that `p` holds of. -/
def lastWhere (p : Finding → Prop) [DecidablePred p] (findings : List Finding) : Option Finding :=
  findings.reverse.find? fun f => p f

theorem lastWhere_append (p : Finding → Prop) [DecidablePred p] (findings : List Finding) (f : Finding) :
    lastWhere p (findings ++ [f]) = if p f then some f else lastWhere p findings := by
  rw [lastWhere, List.reverse_append, List.reverse_singleton, List.singleton_append, List.find?_cons]
  by_cases h : p f
  · rw [if_pos h, decide_eq_true h]
  · rw [if_neg h, decide_eq_false h]
    rfl

theorem mem_of_lastWhere {p : Finding → Prop} [DecidablePred p] (h : lastWhere p findings = some f) :
    f ∈ findings ∧ p f :=
  ⟨List.mem_reverse.1 (List.mem_of_find?_eq_some h),
    of_decide_eq_true (List.find?_some (p := fun f => decide (p f)) h)⟩

theorem exists_lastWhere {p : Finding → Prop} [DecidablePred p] (hf : f ∈ findings) (h : p f) :
    ∃ g, lastWhere p findings = some g := by
  rw [← Option.isSome_iff_exists, lastWhere, List.find?_isSome]
  exact ⟨f, List.mem_reverse.2 hf, decide_eq_true h⟩

theorem exists_perm_lastWhere {p : Finding → Prop} [DecidablePred p] (hf : f ∈ findings) (h : p f) :
    ∃ findings', findings'.Perm findings ∧ lastWhere p findings' = some f := by
  obtain ⟨before, after, rfl⟩ := List.append_of_mem hf
  refine ⟨before ++ after ++ [f], ?_, ?_⟩
  · rw [List.append_assoc]
    exact List.Perm.append_left before (List.perm_append_singleton f after)
  · rw [lastWhere_append, if_pos h]

variable (lower) in
theorem indexed_append (findings : List Finding) (f : Finding) :
    indexed lower (findings ++ [f]) = (indexed lower findings).add lower f := by
  rw [indexed, List.foldl_append]
  rfl

theorem mem_keys_indexed : key ∈ (indexed lower findings).keys ↔ ∃ f ∈ findings, entityKey lower f = key := by
  induction findings using List.reverseRecOn with
  | nil => simp [indexed]
  | append_singleton findings f ih =>
    rw [indexed_append, Indexed.add, Finset.mem_insert, ih]
    simp only [List.mem_append, List.mem_singleton, or_and_right, exists_or, exists_eq_left]
    rw [or_comm, eq_comm]

theorem get?_byKey : (indexed lower findings).byKey.get? key =
    lastWhere (fun f => entityKey lower f = key) findings := by
  induction findings using List.reverseRecOn with
  | nil => rfl
  | append_singleton findings f ih =>
    rw [indexed_append, Indexed.add, Dict.get?_insert, ih, lastWhere_append]

theorem get?_byVal : (indexed lower findings).byVal.get? value =
    lastWhere (fun f => iocVal lower f = value) findings := by
  induction findings using List.reverseRecOn with
  | nil => rfl
  | append_singleton findings f ih =>
    rw [indexed_append, Indexed.add, Dict.get?_insert, ih, lastWhere_append]

theorem mem_byVal : value ∈ (indexed lower findings).byVal.keys ↔ ∃ f ∈ findings, iocVal lower f = value := by
  rw [Dict.mem_keys_iff, get?_byVal, Option.isSome_iff_exists]
  constructor
  · intro h
    obtain ⟨f, h⟩ := h
    exact ⟨f, mem_of_lastWhere h⟩
  · intro h
    obtain ⟨f, hf, h⟩ := h
    exact exists_lastWhere hf h

theorem mem_entities {e : String × String} : e ∈ entities lower findings ↔ ∃ f ∈ findings, entity lower f = e := by
  rw [entities, List.mem_toFinset, List.mem_map]

theorem mem_changedValues {r : SprintDiffResult} :
    value ∈ changedValues lower r ↔ ∃ c ∈ r.changedEntities, iocVal lower c.after = value := by
  rw [changedValues, List.mem_toFinset, List.mem_map]

theorem card_keys_le : (indexed lower findings).keys.card ≤ (entities lower findings).card := by
  apply Finset.card_le_card_of_surjOn fun e : String × String => e.1 ++ "::" ++ e.2
  intro key hkey
  obtain ⟨f, hf, rfl⟩ := mem_keys_indexed.1 hkey
  exact ⟨entity lower f, mem_entities.2 ⟨f, hf, rfl⟩, rfl⟩

theorem card_byVal_le :
    (indexed lower findings).byVal.keys.toFinset.card ≤ (entities lower findings).card := by
  apply Finset.card_le_card_of_surjOn Prod.snd
  intro value hvalue
  obtain ⟨f, hf, rfl⟩ := mem_byVal.1 (List.mem_toFinset.1 hvalue)
  exact ⟨entity lower f, mem_entities.2 ⟨f, hf, rfl⟩, rfl⟩

end Indexes

/-! ### What is reported -/

section Reported

variable {lower : String → String} {current previous : List Finding} {f : Finding} {value : String}

theorem mem_onlyIn (o : SetOrder String) (h : (entities lower current).card ≤ maxDiffFindings) :
    f ∈ onlyIn o (indexed lower current) (indexed lower previous) ↔
      lastWhere (fun g => entityKey lower g = entityKey lower f) current = some f ∧
        ∀ g ∈ previous, entityKey lower g ≠ entityKey lower f := by
  have hlength : (o.order ((indexed lower current).keys \ (indexed lower previous).keys)).length ≤
      maxDiffFindings := by
    rw [o.length_order]
    exact (Finset.card_le_card Finset.sdiff_subset).trans (card_keys_le.trans h)
  rw [onlyIn, mem_collectUpTo (by decide) hlength]
  simp only [o.mem, Finset.mem_sdiff, mem_keys_indexed, get?_byKey]
  constructor
  · intro h
    obtain ⟨key, ⟨-, habsent⟩, hlast⟩ := h
    obtain rfl := (mem_of_lastWhere hlast).2
    exact ⟨hlast, fun g hg hkey => habsent ⟨g, hg, hkey⟩⟩
  · intro h
    refine ⟨entityKey lower f, ⟨⟨f, (mem_of_lastWhere h.1).1, rfl⟩, ?_⟩, h.1⟩
    intro hex
    obtain ⟨g, hg, hkey⟩ := hex
    exact h.2 g hg hkey

theorem changeOf_eq_some_iff {c : Change} :
    changeOf (indexed lower previous) (indexed lower current) value = some c ↔
      lastWhere (fun f => iocVal lower f = value) previous = some c.before ∧
        lastWhere (fun f => iocVal lower f = value) current = some c.after ∧
          typeAndId c.before ≠ typeAndId c.after := by
  have hpair : ∀ before after : Finding,
      (after.iocType ≠ before.iocType ∨ after.findingId ≠ before.findingId) ↔
        typeAndId before ≠ typeAndId after := by
    intro before after
    rw [Ne, Ne, Ne, typeAndId, typeAndId, Prod.mk.injEq, ← not_and_or, eq_comm,
      eq_comm (a := after.findingId)]
  rw [changeOf, get?_byVal, get?_byVal]
  split
  · next before after hbefore hafter =>
    rw [hbefore, hafter]
    simp only [hpair]
    split
    · next h =>
      rw [Option.some.injEq, Option.some.injEq, Option.some.injEq]
      constructor
      · intro hc
        subst hc
        exact ⟨rfl, rfl, h⟩
      · intro hc
        obtain ⟨rfl, rfl, -⟩ := hc
        rfl
    · next h =>
      apply iff_of_false (by simp)
      intro hc
      rw [Option.some.injEq, Option.some.injEq] at hc
      obtain ⟨rfl, rfl, hne⟩ := hc
      exact h hne
  · next hnone =>
    apply iff_of_false (by simp)
    intro hc
    exact hnone _ _ hc.1 hc.2.1

theorem mem_changedEntities (o : SetOrder String) {c : Change}
    (h : (entities lower current).card ≤ maxDiffFindings) :
    c ∈ (diffOf lower current previous o).changedEntities ↔
      ∃ value, lastWhere (fun f => iocVal lower f = value) previous = some c.before ∧
        lastWhere (fun f => iocVal lower f = value) current = some c.after ∧
          typeAndId c.before ≠ typeAndId c.after := by
  have hlength : (o.order ((indexed lower previous).byVal.keys.toFinset ∩
      (indexed lower current).byVal.keys.toFinset)).length ≤ maxDiffFindings := by
    rw [o.length_order]
    exact (Finset.card_le_card Finset.inter_subset_right).trans (card_byVal_le.trans h)
  show c ∈ collectUpTo _ _ _ _ ↔ _
  rw [mem_collectUpTo (by decide) hlength]
  simp only [o.mem, changeOf_eq_some_iff]
  constructor
  · intro h
    obtain ⟨value, -, h⟩ := h
    exact ⟨value, h⟩
  · intro h
    obtain ⟨value, h⟩ := h
    refine ⟨value, ?_, h⟩
    rw [Finset.mem_inter, List.mem_toFinset, List.mem_toFinset, mem_byVal, mem_byVal]
    exact ⟨⟨_, mem_of_lastWhere h.1⟩, ⟨_, mem_of_lastWhere h.2.1⟩⟩

theorem mem_changedValues_diffOf (o : SetOrder String)
    (h : (entities lower current).card ≤ maxDiffFindings) :
    value ∈ changedValues lower (diffOf lower current previous o) ↔
      ∃ p c, lastWhere (fun f => iocVal lower f = value) previous = some p ∧
        lastWhere (fun f => iocVal lower f = value) current = some c ∧ typeAndId p ≠ typeAndId c := by
  rw [mem_changedValues]
  simp only [mem_changedEntities o h]
  constructor
  · intro h
    obtain ⟨c, ⟨v, hp, hc, hne⟩, rfl⟩ := h
    obtain rfl := (mem_of_lastWhere hc).2
    exact ⟨_, _, hp, hc, hne⟩
  · intro h
    obtain ⟨p, c, hp, hc, hne⟩ := h
    exact ⟨⟨p, c⟩, ⟨value, hp, hc, hne⟩, (mem_of_lastWhere hc).2⟩

end Reported

/-! ### Where the difference is exact -/

section Iff

variable {lower : String → String} {current previous a b : List Finding} {f g p c : Finding}

theorem entityKey_congr (h : entity lower f = entity lower g) : entityKey lower f = entityKey lower g := by
  rw [entityKey, entityKey, h]

variable (lower) in
theorem entities_perm (h : a.Perm b) : entities lower a = entities lower b :=
  List.toFinset_eq_of_perm _ _ (h.map _)

theorem pairsUnder_perm (h : a.Perm b) (value : String) :
    pairsUnder lower value a = pairsUnder lower value b :=
  List.toFinset_eq_of_perm _ _ ((h.filter _).map _)

theorem KeysApart.symm (h : KeysApart lower a b) : KeysApart lower b a := by
  intro f hf g hg hkey
  rw [List.mem_append, or_comm, ← List.mem_append] at hf hg
  rw [Finset.inter_comm]
  exact h f hf g hg hkey

theorem KeysApart.perm {a' b' : List Finding} (h : KeysApart lower a b) (ha : a'.Perm a)
    (hb : b'.Perm b) : KeysApart lower a' b' := by
  intro f hf g hg hkey
  rw [entities_perm lower ha, entities_perm lower hb]
  exact h f ((ha.append hb).mem_iff.1 hf) g ((ha.append hb).mem_iff.1 hg) hkey

theorem mem_entities_onlyIn (o : SetOrder String) (h : (entities lower a).card ≤ maxDiffFindings)
    {e : String × String} :
    e ∈ entities lower (onlyIn o (indexed lower a) (indexed lower b)) ↔
      ∃ f, entity lower f = e ∧ lastWhere (fun g => entityKey lower g = entityKey lower f) a = some f ∧
        ∀ g ∈ b, entityKey lower g ≠ entityKey lower f := by
  rw [mem_entities]
  simp only [mem_onlyIn o h]
  constructor
  · intro h
    obtain ⟨f, hf, he⟩ := h
    exact ⟨f, he, hf⟩
  · intro h
    obtain ⟨f, he, hf⟩ := h
    exact ⟨f, hf, he⟩

theorem entities_onlyIn (o : SetOrder String) (h : (entities lower a).card ≤ maxDiffFindings)
    (hapart : KeysApart lower a b) :
    entities lower (onlyIn o (indexed lower a) (indexed lower b)) = entities lower a \ entities lower b := by
  ext e
  rw [mem_entities_onlyIn o h, Finset.mem_sdiff]
  constructor
  · intro he
    obtain ⟨f, rfl, hlast, habsent⟩ := he
    refine ⟨mem_entities.2 ⟨f, (mem_of_lastWhere hlast).1, rfl⟩, fun hmem => ?_⟩
    obtain ⟨g, hg, he⟩ := mem_entities.1 hmem
    exact habsent g hg (entityKey_congr he)
  · intro he
    obtain ⟨hmem, hnot⟩ := he
    obtain ⟨f, hf, rfl⟩ := mem_entities.1 hmem
    -- a finding with the key of `f` is of the entity of `f`, which is in one list only
    have hsame : ∀ g ∈ a ++ b, entityKey lower g = entityKey lower f → entity lower g = entity lower f := by
      intro g hg hkey
      cases hapart f (List.mem_append_left _ hf) g hg hkey.symm with
      | inl h => exact h.symm
      | inr h => exact absurd (Finset.mem_inter.1 (h f List.mem_cons_self)).2 hnot
    obtain ⟨g, hlast⟩ := exists_lastWhere (p := fun g => entityKey lower g = entityKey lower f) hf rfl
    obtain ⟨hg, hkey⟩ := mem_of_lastWhere hlast
    refine ⟨g, hsame g (List.mem_append_left _ hg) hkey, hkey ▸ hlast, fun k hk heq => hnot ?_⟩
    exact mem_entities.2 ⟨k, hk, hsame k (List.mem_append_right _ hk) (heq.trans hkey)⟩

theorem entity_eq_of_reported (o : SetOrder String) (h : (entities lower a).card ≤ maxDiffFindings)
    (hreport : entities lower (onlyIn o (indexed lower a) (indexed lower b)) =
      entities lower a \ entities lower b)
    (hf : entity lower f ∈ entities lower a) (hfb : entity lower f ∉ entities lower b)
    (hg : entity lower g ∈ entities lower a ∨ entity lower g ∈ entities lower b)
    (hkey : entityKey lower f = entityKey lower g) : entity lower f = entity lower g := by
  obtain ⟨f', hf', hlast, habsent⟩ :=
    (mem_entities_onlyIn o h).1 (hreport ▸ Finset.mem_sdiff.2 ⟨hf, hfb⟩)
  have hkeyf : entityKey lower f' = entityKey lower f := entityKey_congr hf'
  have hgb : entity lower g ∉ entities lower b := by
    intro hmem
    obtain ⟨k, hk, he⟩ := mem_entities.1 hmem
    exact habsent k hk ((entityKey_congr he).trans (hkey.symm.trans hkeyf.symm))
  have hga := hg.resolve_right hgb
  obtain ⟨g', hg', hlast', -⟩ :=
    (mem_entities_onlyIn o h).1 (hreport ▸ Finset.mem_sdiff.2 ⟨hga, hgb⟩)
  -- one finding is kept for the key of both
  have hkeyg : entityKey lower g' = entityKey lower f' :=
    (entityKey_congr hg').trans (hkey.symm.trans hkeyf.symm)
  rw [hkeyg, hlast, Option.some.injEq] at hlast'
  rw [← hf', ← hg', hlast']

theorem keysApart_of_reported (o : SetOrder String) (ha : (entities lower a).card ≤ maxDiffFindings)
    (hb : (entities lower b).card ≤ maxDiffFindings)
    (hab : entities lower (onlyIn o (indexed lower a) (indexed lower b)) =
      entities lower a \ entities lower b)
    (hba : entities lower (onlyIn o (indexed lower b) (indexed lower a)) =
      entities lower b \ entities lower a) : KeysApart lower a b := by
  have hmem : ∀ f ∈ a ++ b, entity lower f ∈ entities lower a ∨ entity lower f ∈ entities lower b := by
    intro f hf
    exact (List.mem_append.1 hf).imp (fun h => mem_entities.2 ⟨f, h, rfl⟩)
      fun h => mem_entities.2 ⟨f, h, rfl⟩
  have hboth : ∀ f ∈ a ++ b, ∀ g ∈ a ++ b, entityKey lower f = entityKey lower g →
      entity lower f ≠ entity lower g → entity lower f ∈ entities lower a ∩ entities lower b := by
    intro f hf g hg hkey hne
    rw [Finset.mem_inter]
    by_contra hnot
    cases hmem f hf with
    | inl hfa => exact hne (entity_eq_of_reported o ha hab hfa (fun h => hnot ⟨hfa, h⟩) (hmem g hg) hkey)
    | inr hfb =>
      exact hne (entity_eq_of_reported o hb hba hfb (fun h => hnot ⟨h, hfb⟩) (hmem g hg).symm hkey)
  intro f hf g hg hkey
  rw [or_iff_not_imp_left]
  intro hne h hh
  cases List.mem_cons.1 hh with
  | inl heq => exact heq ▸ hboth f hf g hg hkey hne
  | inr heq =>
    obtain rfl := List.mem_singleton.1 heq
    exact hboth h hg f hf hkey.symm (Ne.symm hne)

theorem mem_changedValues_of_settled {current' previous' : List Finding}
    (hsettled : PairsSettled lower current previous) (hcurrent : current'.Perm current)
    (hprevious : previous'.Perm previous) (hcard : (entities lower current).card ≤ maxDiffFindings)
    (o : SetOrder String) {value : String} :
    value ∈ changedValues lower (diffOf lower current' previous' o) ↔
      ∃ p ∈ previous, ∃ c ∈ current, iocVal lower p = value ∧ iocVal lower c = value ∧
        typeAndId p ≠ typeAndId c := by
  rw [mem_changedValues_diffOf o (entities_perm lower hcurrent ▸ hcard)]
  constructor
  · intro h
    obtain ⟨p, c, hp, hc, hne⟩ := h
    have hp := mem_of_lastWhere hp
    have hc := mem_of_lastWhere hc
    exact ⟨p, hprevious.mem_iff.1 hp.1, c, hcurrent.mem_iff.1 hc.1, hp.2, hc.2, hne⟩
  · intro h
    obtain ⟨p, hp, c, hc, hvp, hvc, hne⟩ := h
    obtain ⟨p', hp'⟩ := exists_lastWhere (p := fun f => iocVal lower f = value) (hprevious.mem_iff.2 hp) hvp
    obtain ⟨c', hc'⟩ := exists_lastWhere (p := fun f => iocVal lower f = value) (hcurrent.mem_iff.2 hc) hvc
    refine ⟨p', c', hp', hc', fun heq => hne ?_⟩
    obtain ⟨hmp, hvp'⟩ := mem_of_lastWhere hp'
    obtain ⟨hmc, hvc'⟩ := mem_of_lastWhere hc'
    cases hsettled p' (hprevious.mem_iff.1 hmp) c' (hcurrent.mem_iff.1 hmc) (hvp'.trans hvc'.symm) with
    | inl hall =>
      exact (hall p (List.mem_append_right _ hp) (hvp.trans hvc'.symm)).trans
        (hall c (List.mem_append_left _ hc) (hvc.trans hvc'.symm)).symm
    | inr h => exact absurd heq h.1

theorem mem_changedValues_iff_ne (h : ExactDiff lower current previous)
    (hcard : (entities lower current).card ≤ maxDiffFindings) (o : SetOrder String)
    (hp : p ∈ previous) (hc : c ∈ current) (hvalue : iocVal lower p = iocVal lower c) :
    iocVal lower c ∈ changedValues lower (diffOf lower current previous o) ↔
      typeAndId p ≠ typeAndId c := by
  obtain ⟨previous', hprevious, hlastp⟩ :=
    exists_perm_lastWhere (p := fun f => iocVal lower f = iocVal lower c) hp hvalue
  obtain ⟨current', hcurrent, hlastc⟩ :=
    exists_perm_lastWhere (p := fun f => iocVal lower f = iocVal lower c) hc rfl
  rw [← (h.permuted o o current' previous' hcurrent hprevious).changed,
    mem_changedValues_diffOf o (entities_perm lower hcurrent ▸ hcard), hlastp, hlastc]
  constructor
  · intro hex
    obtain ⟨p', c', hp', hc', hne⟩ := hex
    obtain rfl := Option.some.inj hp'
    obtain rfl := Option.some.inj hc'
    exact hne
  · intro hne
    exact ⟨p, c, rfl, rfl, hne⟩

theorem pairsSettled_of_exact (h : ExactDiff lower current previous)
    (hcard : (entities lower current).card ≤ maxDiffFindings) : PairsSettled lower current previous := by
  obtain ⟨o⟩ : Nonempty (SetOrder String) := inferInstance
  intro p hp c hc hvalue
  rw [or_iff_not_imp_left]
  intro hall
  push Not at hall
  obtain ⟨q, hq, hvq, hne⟩ := hall
  have hiff : ∀ p ∈ previous, ∀ d ∈ current, iocVal lower p = iocVal lower c →
      iocVal lower d = iocVal lower c →
      (iocVal lower c ∈ changedValues lower (diffOf lower current previous o) ↔
        typeAndId p ≠ typeAndId d) := by
    intro p hp d hd hvp hvd
    rw [← hvd]
    exact mem_changedValues_iff_ne h hcard o hp hd (hvp.trans hvd.symm)
  have hreported : iocVal lower c ∈ changedValues lower (diffOf lower current previous o) := by
    by_cases hpc : typeAndId p = typeAndId c
    · cases List.mem_append.1 hq with
      | inl hq => exact (hiff p hp q hq hvalue hvq).2 fun heq => hne (heq.symm.trans hpc)
      | inr hq => exact (hiff q hq c hc hvq rfl).2 hne
    · exact (hiff p hp c hc hvalue rfl).2 hpc
  exact ⟨(hiff p hp c hc hvalue rfl).1 hreported, (h.reports o).changed _ hreported⟩

variable (lower) in
theorem eq_nil_of_entities (h : entities lower a = ∅) : a = [] := by
  rw [entities, List.toFinset_eq_empty_iff] at h
  exact List.map_eq_nil_iff.1 h

/-- The difference of two lists is exact if and only if the keys tell apart the entities that are in one
list alone, and the pairs under each value of both are settled. -/
theorem exactDiff_iff (lower : String → String) (current previous : List Finding)
    (hcurrent : (entities lower current).card ≤ maxDiffFindings)
    (hprevious : (entities lower previous).card ≤ maxDiffFindings) :
    ExactDiff lower current previous ↔
      KeysApart lower current previous ∧ PairsSettled lower current previous := by
  constructor
  · intro h
    obtain ⟨o⟩ : Nonempty (SetOrder String) := inferInstance
    exact ⟨keysApart_of_reported o hcurrent hprevious (h.reports o).new (h.reports o).disappeared,
      pairsSettled_of_exact h hcurrent⟩
  · intro h
    obtain ⟨hapart, hsettled⟩ := h
    have hnew : ∀ o, entities lower (diffOf lower current previous o).newFindings =
        entities lower current \ entities lower previous :=
      fun o => entities_onlyIn o hcurrent hapart
    have hgone : ∀ o, entities lower (diffOf lower current previous o).disappearedFindings =
        entities lower previous \ entities lower current :=
      fun o => entities_onlyIn o hprevious hapart.symm
    have hchanged : ∀ o, ∀ v ∈ changedValues lower (diffOf lower current previous o),
        pairsUnder lower v previous ≠ pairsUnder lower v current := by
      intro o v hv
      obtain ⟨p, hp, c, hc, hvp, rfl, hne⟩ :=
        (mem_changedValues_of_settled hsettled (.refl _) (.refl _) hcurrent o).1 hv
      cases hsettled p hp c hc hvp with
      | inl hall => exact absurd (hall p (List.mem_append_right _ hp) hvp) hne
      | inr h => exact h.2
    constructor
    · exact fun o => ⟨hnew o, hgone o, hchanged o⟩
    · intro o o' current' previous' hc hp
      have hapart' := hapart.perm hc hp
      constructor
      · rw [hnew, ← entities_perm lower hc, ← entities_perm lower hp]
        exact entities_onlyIn o' (entities_perm lower hc ▸ hcurrent) hapart'
      · rw [hgone, ← entities_perm lower hc, ← entities_perm lower hp]
        exact entities_onlyIn o' (entities_perm lower hp ▸ hprevious) hapart'.symm
      · ext v
        rw [mem_changedValues_of_settled hsettled hc hp hcurrent o',
          mem_changedValues_of_settled hsettled (.refl _) (.refl _) hcurrent o]
    · intro o hperm
      refine ⟨?_, ?_, ?_⟩
      · apply eq_nil_of_entities lower
        rw [hnew, entities_perm lower hperm, Finset.sdiff_self]
      · apply eq_nil_of_entities lower
        rw [hgone, entities_perm lower hperm, Finset.sdiff_self]
      · apply List.eq_nil_iff_forall_not_mem.2
        intro c hc
        exact hchanged o _ (mem_changedValues.2 ⟨c, hc, rfl⟩) (pairsUnder_perm hperm.symm _)
    · intro o o'
      rw [hnew, hgone]
      exact ⟨entities_onlyIn o' hprevious hapart.symm, entities_onlyIn o' hcurrent hapart⟩

end Iff

/-- A list of one finding. -/
def joined (iocType iocValue : String) : List Finding := [⟨iocType, iocValue, some "f1"⟩]

theorem exactDiff_iff_same : (entities id (joined "domain" "a")).card ≤ maxDiffFindings ∧
    (ExactDiff id (joined "domain" "a") (joined "domain" "a") ↔
      KeysApart id (joined "domain" "a") (joined "domain" "a") ∧
        PairsSettled id (joined "domain" "a") (joined "domain" "a")) :=
  ⟨by decide, exactDiff_iff id _ _ (by decide) (by decide)⟩

/-- An entity is not reported as new where another one of the previous list has its key. -/
theorem not_exactDiff : ¬ ∀ lower current previous,
    (entities lower current).card ≤ maxDiffFindings → (entities lower previous).card ≤ maxDiffFindings →
      ExactDiff lower current previous := by
  intro h
  obtain ⟨o⟩ : Nonempty (SetOrder String) := inferInstance
  have hnew := ((h id (joined "a::b" "c") (joined "a" "b::c") (by decide) (by decide)).reports o).new
  have hmem : ("a::b", "c") ∈ entities id (joined "a::b" "c") \ entities id (joined "a" "b::c") := by
    decide
  rw [← hnew] at hmem
  obtain ⟨f, hf, hlast, habsent⟩ := (mem_entities_onlyIn o (by decide)).1 hmem
  obtain rfl := List.mem_singleton.1 (mem_of_lastWhere hlast).1
  exact habsent _ List.mem_cons_self (by decide)

end SprintDiffEngine

end Hledac.Knowledge
