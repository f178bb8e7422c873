import Mathlib.Tactic.Linarith
import Hledac.Lib.Dict

/-!
# The delta index of sprint bundles

`MmapDeltaIndex` puts the entity indexes of bundles into one dictionary, the entries of a bundle over those
of the bundles before it, and answers from it whether an entity is fresh, one by one or for many. Times
are rational numbers. The files do not change while bundles are registered, so the cache of their bytes
is left out, and so are the counters.
-/

namespace Hledac.Knowledge

open Hledac.Lib

/-- An entry of a bundle's entity index. -/
structure IndexEntry where
  entityValue : Option String := none
  iocType : Option String := none
  mmapOffset : Option Int := none
  mmapLength : Option Int := none
  lastConfirmedTs : Option ℚ := none
  firstSeenTs : Option ℚ := none
  confidenceSum : Option ℚ := none
  sourceCount : Option Int := none
  sources : Option (List String) := none
  sha256 : Option String := none
  deriving DecidableEq

/-- A bundle's path and its sprint. -/
structure Bundle where
  path : String
  sprintId : String
  deriving DecidableEq, Repr

/-- An entry with the bundle it was loaded from. -/
structure LoadedEntry extends IndexEntry where
  sprintId : String
  bundlePath : String
  deriving DecidableEq

/-- The time of the last confirmation. -/
def LoadedEntry.confirmedAt (e : LoadedEntry) : ℚ := e.lastConfirmedTs.getD 0

/-- What `get_delta_patch` returns. -/
structure DeltaPatch where
  entityValue : String
  iocType : String
  bundlePath : String
  mmapOffset : Int
  mmapLength : Int
  lastConfirmedTs : ℚ
  firstSeenTs : ℚ
  confidence : ℚ
  sourceCount : Int
  sources : List String
  sprintId : String
  sha256 : String
  skipFetch : Bool := true
  skipReason : String := "delta_confirmed"
  deriving DecidableEq

/-- The readable entity index of each bundle file. -/
abbrev BundleFiles := String → Option (Dict String IndexEntry)

/-- The index, the bundles registered by their sprint, and the two settings. -/
structure MmapDeltaIndex where
  index : Dict String LoadedEntry := .empty
  bundleMap : Dict String String := .empty
  enabled : Bool := true
  maxAgeHours : ℚ := 24

namespace MmapDeltaIndex

/-- The entry as it is put into the index. -/
def loaded (b : Bundle) (e : IndexEntry) : LoadedEntry :=
  { e with sprintId := b.sprintId, bundlePath := b.path }

/-- `_register_bundle_impl`; `knowledge/sprint_delta_index.py:880-947`. -/
def registerBundleImpl (files : BundleFiles) (b : Bundle) (s : MmapDeltaIndex) : Nat × MmapDeltaIndex :=
  if b.sprintId ∈ s.bundleMap.keys then (0, s)
  else
    match files b.path with
    | none => (0, s)
    | some entityData =>
      (entityData.size,
        { s with
          index := s.index.insertAll (entityData.entries.map fun e => (e.1, loaded b e.2))
          bundleMap := s.bundleMap.insert b.sprintId b.path })

/-- `register_bundle`; lines 849-878. -/
def registerBundle (files : BundleFiles) (b : Bundle) (s : MmapDeltaIndex) : Nat × MmapDeltaIndex :=
  if s.enabled then registerBundleImpl files b s else (0, s)

/-- Bundles registered one after the other. -/
def registerAll (files : BundleFiles) (s : MmapDeltaIndex) (bundles : List Bundle) : MmapDeltaIndex :=
  bundles.foldl (fun s b => (registerBundle files b s).2) s

/-- `_make_key`; lines 1037-1039. -/
def makeKey (entityValue iocType : String) : String := iocType ++ ":" ++ entityValue

/-- The bound on the age of an entity, in seconds. -/
def maxAgeSeconds (maxAgeHours : Option ℚ) (s : MmapDeltaIndex) : ℚ :=
  maxAgeHours.getD s.maxAgeHours * 3600

/-- `is_fresh`; lines 1073-1107. -/
def isFresh (entityValue iocType : String) (maxAgeHours : Option ℚ) (now : ℚ) (s : MmapDeltaIndex) :
    Bool :=
  if !s.enabled then false
  else
    match s.index.get? (makeKey entityValue iocType) with
    | none => false
    | some e => !decide (now - e.confirmedAt > s.maxAgeSeconds maxAgeHours)

/-- The answer of the batch check on one key. -/
def freshInBatch (maxAgeHours : Option ℚ) (now : ℚ) (s : MmapDeltaIndex) (key : String) : Bool :=
  match s.index.get? key with
  | none => false
  | some e => decide (e.confirmedAt > now - s.maxAgeSeconds maxAgeHours)

/-- `is_fresh_batch`; lines 1109-1138. -/
def isFreshBatch (entities : List (String × String)) (maxAgeHours : Option ℚ) (now : ℚ)
    (s : MmapDeltaIndex) : Dict String Bool :=
  Dict.empty.insertAll (entities.map fun e =>
    (makeKey e.1 e.2, freshInBatch maxAgeHours now s (makeKey e.1 e.2)))

/-- The patch of an entry. -/
def patchOf (entityValue iocType : String) (e : LoadedEntry) : DeltaPatch where
  entityValue := e.entityValue.getD entityValue
  iocType := e.iocType.getD iocType
  bundlePath := e.bundlePath
  mmapOffset := e.mmapOffset.getD 0
  mmapLength := e.mmapLength.getD 0
  lastConfirmedTs := e.confirmedAt
  firstSeenTs := e.firstSeenTs.getD 0
  confidence := e.confidenceSum.getD 0 / max (e.sourceCount.getD 1) 1
  sourceCount := e.sourceCount.getD 0
  sources := e.sources.getD []
  sprintId := e.sprintId
  sha256 := e.sha256.getD ""

/-- `get_delta_patch`; lines 1140-1189. -/
def getDeltaPatch (entityValue iocType : String) (s : MmapDeltaIndex) : Option DeltaPatch :=
  if !s.enabled then none
  else (s.index.get? (makeKey entityValue iocType)).map (patchOf entityValue iocType)

/-! ### Bundles in any order -/

/-- Bundles of distinct sprints. -/
structure BundleSet where
  bundles : List Bundle
  nodup : (bundles.map Bundle.sprintId).Nodup

/-- The entries that the bundles have under a key. -/
def candidates (files : BundleFiles) (key : String) (bundles : List Bundle) : List LoadedEntry :=
  bundles.filterMap fun b => ((files b.path).bind (Dict.get? · key)).map (loaded b)

/-- The answer is a last confirmed entry, or there is none to choose from. -/
def IsLatest (entries : List LoadedEntry) : Option LoadedEntry → Prop
  | none => entries = []
  | some e => e ∈ entries ∧ ∀ e' ∈ entries, e'.confirmedAt ≤ e.confirmedAt

/-- The index answers for an entity from the one entry, or as where it has none. -/
def AnswersFrom (entityValue iocType : String) (entry : Option LoadedEntry) (s : MmapDeltaIndex) : Prop :=
  (∀ maxAgeHours now, s.isFresh entityValue iocType maxAgeHours now =
    (entry.map fun e => decide (now - e.confirmedAt ≤ s.maxAgeSeconds maxAgeHours)).getD false) ∧
  s.getDeltaPatch entityValue iocType = entry.map (patchOf entityValue iocType)

/-- In every order of the bundles a fresh index answers for an entity from one last confirmed entry. -/
def OrderFree (files : BundleFiles) (maxAgeHours : ℚ) (bundles : List Bundle) : Prop :=
  ∀ entityValue iocType, ∃ entry,
    IsLatest (candidates files (makeKey entityValue iocType) bundles) entry ∧
      ∀ bundles', bundles'.Perm bundles →
        (registerAll files { maxAgeHours } bundles').AnswersFrom entityValue iocType entry

/-- The bundle has an entry under the key. -/
def Holds (files : BundleFiles) (key : String) (b : Bundle) : Prop :=
  ∃ e, (files b.path).bind (Dict.get? · key) = some e

/-- No entity is in two bundles. -/
def EntitiesApart (files : BundleFiles) (bundles : List Bundle) : Prop :=
  ∀ entityValue iocType, ∀ b ∈ bundles, ∀ c ∈ bundles, Holds files (makeKey entityValue iocType) b →
    Holds files (makeKey entityValue iocType) c → b = c

/-- The batch check answers for each entity what the single one does. -/
def BatchAgrees (s : MmapDeltaIndex) (entities : List (String × String)) (maxAgeHours : Option ℚ)
    (now : ℚ) : Prop :=
  ∀ e ∈ entities, (s.isFreshBatch entities maxAgeHours now).get? (makeKey e.1 e.2) =
    some (s.isFresh e.1 e.2 maxAgeHours now)

/-- No listed entity is exactly as old as the bound, and where the index is off, none is younger. -/
def AgesApart (s : MmapDeltaIndex) (entities : List (String × String)) (maxAgeHours : Option ℚ)
    (now : ℚ) : Prop :=
  ∀ e ∈ entities, ∀ entry, s.index.get? (makeKey e.1 e.2) = some entry →
    if s.enabled then now - entry.confirmedAt ≠ s.maxAgeSeconds maxAgeHours
    else s.maxAgeSeconds maxAgeHours ≤ now - entry.confirmedAt

section Orders

variable {files : BundleFiles} {bundles : List Bundle} {b : Bundle} {e : IndexEntry}
  {key entityValue iocType : String} {maxAgeHours : ℚ}

theorem candidates_append (bundles : List Bundle) (b : Bundle) :
    candidates files key (bundles ++ [b]) =
      candidates files key bundles ++
        (((files b.path).bind (Dict.get? · key)).map (loaded b)).toList := by
  rw [candidates, List.filterMap_append, List.filterMap_cons]
  cases ((files b.path).bind (Dict.get? · key)).map (loaded b) <;> rfl

theorem mem_candidates {l : LoadedEntry} : l ∈ candidates files key bundles ↔
    ∃ b ∈ bundles, ∃ e, (files b.path).bind (Dict.get? · key) = some e ∧ loaded b e = l := by
  rw [candidates, List.mem_filterMap]
  simp only [Option.map_eq_some_iff]

theorem get?_insertAll_loaded (index : Dict String LoadedEntry) (data : Dict String IndexEntry)
    (b : Bundle) (key : String) :
    (index.insertAll (data.entries.map fun e => (e.1, loaded b e.2))).get? key =
      ((data.get? key).map (loaded b)).or (index.get? key) := by
  rw [Dict.get?_insertAll, ← List.map_reverse, List.find?_map, Option.map_map,
    ← Dict.find?_of_perm (List.reverse_perm data.entries), Option.map_map]
  rfl

/-- What a run of registrations leaves: the sprints registered are among those given, the settings stay,
and under each key is the entry of the last bundle that has one. -/
structure Registered (files : BundleFiles) (s : MmapDeltaIndex) (bundles : List Bundle)
    (t : MmapDeltaIndex) : Prop where
  sprints : ∀ sprint ∈ t.bundleMap.keys, sprint ∈ bundles.map Bundle.sprintId
  enabled : t.enabled = s.enabled
  maxAgeHours : t.maxAgeHours = s.maxAgeHours
  index : ∀ key, t.index.get? key = (candidates files key bundles).getLast?

theorem registered_registerAll (files : BundleFiles) (maxAgeHours : ℚ) (bundles : List Bundle)
    (hnodup : (bundles.map Bundle.sprintId).Nodup) :
    Registered files { maxAgeHours } bundles (registerAll files { maxAgeHours } bundles) := by
  induction bundles using List.reverseRecOn with
  | nil => exact ⟨fun _ h => h, rfl, rfl, fun _ => rfl⟩
  | append_singleton bundles b ih =>
    rw [List.map_append, List.nodup_append] at hnodup
    obtain ⟨hnodup, -, hdisjoint⟩ := hnodup
    have ih := ih hnodup
    have hnew : b.sprintId ∉ (registerAll files { maxAgeHours } bundles).bundleMap.keys := by
      intro h
      exact hdisjoint _ (ih.sprints _ h) _ List.mem_cons_self rfl
    have hstep : registerAll files { maxAgeHours } (bundles ++ [b]) =
        (registerBundleImpl files b (registerAll files { maxAgeHours } bundles)).2 := by
      rw [registerAll, List.foldl_append]
      show (registerBundle files b (registerAll files { maxAgeHours } bundles)).2 = _
      rw [registerBundle, ih.enabled]
      rfl
    rw [hstep, registerBundleImpl, if_neg hnew]
    cases hfile : files b.path with
    | none =>
      refine ⟨?_, ih.enabled, ih.maxAgeHours, ?_⟩
      · intro s hs
        rw [List.map_append]
        exact List.mem_append_left _ (ih.sprints s hs)
      intro key
      rw [candidates_append, hfile]
      exact (ih.index key).trans (congrArg _ (List.append_nil _).symm)
    | some data =>
      refine ⟨?_, ih.enabled, ih.maxAgeHours, ?_⟩
      · intro s hs
        rw [List.map_append]
        cases Dict.mem_keys_insert.1 hs with
        | inl h => exact List.mem_append_right _ (List.mem_singleton.2 h)
        | inr h => exact List.mem_append_left _ (ih.sprints s h)
      · intro key
        rw [candidates_append, hfile, Option.bind_some]
        refine (get?_insertAll_loaded _ data b key).trans ?_
        rw [ih.index key]
        cases hget : data.get? key with
        | none => rw [Option.map_none, Option.toList_none, List.append_nil]; rfl
        | some e => rw [Option.map_some, Option.toList_some, List.getLast?_concat]; rfl

theorem answersFrom_get? {s : MmapDeltaIndex} (h : s.enabled = true) (entityValue iocType : String) :
    s.AnswersFrom entityValue iocType (s.index.get? (makeKey entityValue iocType)) := by
  constructor
  · intro maxAgeHours now
    rw [isFresh, h]
    cases s.index.get? (makeKey entityValue iocType) with
    | none => rfl
    | some e =>
      show (!decide (now - e.confirmedAt > s.maxAgeSeconds maxAgeHours)) = decide _
      rw [← decide_not, decide_eq_decide, gt_iff_lt, not_lt]
  · rw [getDeltaPatch, h]
    rfl

theorem orderFree_of_apart (maxAgeHours : ℚ) (hnodup : (bundles.map Bundle.sprintId).Nodup)
    (h : EntitiesApart files bundles) : OrderFree files maxAgeHours bundles := by
  intro entityValue iocType
  -- two entries under the key are the entry of one bundle
  have hsame : ∀ l ∈ candidates files (makeKey entityValue iocType) bundles,
      ∀ l' ∈ candidates files (makeKey entityValue iocType) bundles, l = l' := by
    intro l hl l' hl'
    obtain ⟨b, hb, e, he, rfl⟩ := mem_candidates.1 hl
    obtain ⟨c, hc, e', he', rfl⟩ := mem_candidates.1 hl'
    obtain rfl := h entityValue iocType b hb c hc ⟨e, he⟩ ⟨e', he'⟩
    rw [he, Option.some.injEq] at he'
    rw [he']
  refine ⟨(candidates files (makeKey entityValue iocType) bundles).getLast?, ?_, ?_⟩
  · cases hlast : (candidates files (makeKey entityValue iocType) bundles).getLast? with
    | none => exact List.getLast?_eq_none_iff.1 hlast
    | some l =>
      have hl := List.mem_of_getLast? hlast
      exact ⟨hl, fun l' hl' => le_of_eq (congrArg _ (hsame l' hl' l hl))⟩
  · intro bundles' hperm
    have hreg := registered_registerAll files maxAgeHours bundles' ((hperm.map _).nodup_iff.2 hnodup)
    have hcandidates : (candidates files (makeKey entityValue iocType) bundles').Perm
        (candidates files (makeKey entityValue iocType) bundles) := hperm.filterMap _
    have hlast : (candidates files (makeKey entityValue iocType) bundles').getLast? =
        (candidates files (makeKey entityValue iocType) bundles).getLast? := by
      cases hlast : (candidates files (makeKey entityValue iocType) bundles).getLast? with
      | none =>
        rw [List.getLast?_eq_none_iff] at hlast ⊢
        exact (hlast ▸ hcandidates).eq_nil
      | some l =>
        have hl := hcandidates.mem_iff.2 (List.mem_of_getLast? hlast)
        obtain ⟨l', hl'⟩ := Option.isSome_iff_exists.1
          (List.getLast?_isSome.2 (List.ne_nil_of_mem hl))
        rw [hl', Option.some.injEq]
        exact hsame _ (hcandidates.mem_iff.1 (List.mem_of_getLast? hl')) _ (List.mem_of_getLast? hlast)
    have hanswers := answersFrom_get? hreg.enabled entityValue iocType
    rwa [hreg.index, hlast] at hanswers

theorem getDeltaPatch_last (maxAgeHours : ℚ) (hnodup : (bundles.map Bundle.sprintId).Nodup)
    (hb : b ∈ bundles) (hholds : (files b.path).bind (Dict.get? · (makeKey entityValue iocType)) = some e) :
    ∃ bundles', bundles'.Perm bundles ∧
      (registerAll files { maxAgeHours } bundles').getDeltaPatch entityValue iocType =
        some (patchOf entityValue iocType (loaded b e)) := by
  obtain ⟨before, after, rfl⟩ := List.append_of_mem hb
  have hperm : (before ++ after ++ [b]).Perm (before ++ b :: after) := by
    rw [List.append_assoc]
    exact List.Perm.append_left before (List.perm_append_singleton b after)
  refine ⟨before ++ after ++ [b], hperm, ?_⟩
  have hreg := registered_registerAll files maxAgeHours _ ((hperm.map _).nodup_iff.2 hnodup)
  rw [getDeltaPatch, hreg.enabled, hreg.index, candidates_append, hholds, Option.map_some,
    Option.toList_some, List.getLast?_concat]
  rfl

theorem apart_of_orderFree (hnodup : (bundles.map Bundle.sprintId).Nodup)
    (h : OrderFree files maxAgeHours bundles) : EntitiesApart files bundles := by
  intro entityValue iocType b hb c hc hbe hce
  obtain ⟨e, hbe⟩ := hbe
  obtain ⟨e', hce⟩ := hce
  obtain ⟨entry, -, hanswers⟩ := h entityValue iocType
  obtain ⟨first, hfirst, hpatchb⟩ := getDeltaPatch_last maxAgeHours hnodup hb hbe
  obtain ⟨second, hsecond, hpatchc⟩ := getDeltaPatch_last maxAgeHours hnodup hc hce
  rw [(hanswers first hfirst).2] at hpatchb
  rw [(hanswers second hsecond).2, hpatchb, Option.some.injEq] at hpatchc
  exact List.inj_on_of_nodup_map hnodup hb hc (congrArg DeltaPatch.sprintId hpatchc)

theorem get?_isFreshBatch (s : MmapDeltaIndex) (entities : List (String × String))
    (maxAge : Option ℚ) (now : ℚ) {e : String × String} (he : e ∈ entities) :
    (s.isFreshBatch entities maxAge now).get? (makeKey e.1 e.2) =
      some (freshInBatch maxAge now s (makeKey e.1 e.2)) := by
  rw [isFreshBatch, Dict.get?_insertAll, ← List.map_reverse, List.find?_map, Option.map_map]
  cases hfind : entities.reverse.find? ((fun e' : String × Bool => decide (e'.1 = makeKey e.1 e.2)) ∘
      fun e => (makeKey e.1 e.2, freshInBatch maxAge now s (makeKey e.1 e.2))) with
  | none =>
    exact absurd rfl (of_decide_eq_false (Bool.eq_false_iff.2
      (List.find?_eq_none.1 hfind e (List.mem_reverse.2 he))))
  | some e' =>
    have hkey : makeKey e'.1 e'.2 = makeKey e.1 e.2 := by
      have h := List.find?_some hfind
      exact of_decide_eq_true h
    show some (freshInBatch maxAge now s (makeKey e'.1 e'.2)) = _
    rw [hkey]

theorem freshInBatch_eq_iff (s : MmapDeltaIndex) (maxAge : Option ℚ) (now : ℚ)
    (entityValue iocType : String) :
    freshInBatch maxAge now s (makeKey entityValue iocType) = s.isFresh entityValue iocType maxAge now ↔
      ∀ entry, s.index.get? (makeKey entityValue iocType) = some entry →
        if s.enabled then now - entry.confirmedAt ≠ s.maxAgeSeconds maxAge
        else s.maxAgeSeconds maxAge ≤ now - entry.confirmedAt := by
  rw [freshInBatch, isFresh]
  cases s.index.get? (makeKey entityValue iocType) with
  | none => simp
  | some e =>
    simp only [Option.some.injEq, forall_eq']
    cases s.enabled with
    | true =>
      rw [if_neg (by decide), if_pos rfl, ← decide_not, decide_eq_decide]
      constructor
      · intro h heq
        exact absurd (h.2 (not_lt_of_ge heq.le)) (not_lt_of_ge (by linarith))
      · intro hne
        constructor
        · intro h
          exact not_lt_of_ge (by linarith)
        · intro h
          have hlt := lt_of_le_of_ne (not_lt.1 h) hne
          linarith
    | false =>
      rw [if_pos (by decide), if_neg (by decide), decide_eq_false_iff_not, gt_iff_lt, not_lt]
      constructor <;> intro h <;> linarith

end Orders

/-- Two sprints that both confirmed an entity. -/
private def twoSprints : BundleSet := ⟨[⟨"a", "s1"⟩, ⟨"b", "s2"⟩], by decide⟩

/-- Every file holds one entity. -/
private def oneEntity : BundleFiles := fun _ => some (Dict.empty.insert "domain:x" {})

end MmapDeltaIndex

end Hledac.Knowledge
