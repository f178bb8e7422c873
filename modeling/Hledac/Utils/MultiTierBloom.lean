import Mathlib.Algebra.Order.Ring.Rat
import Hledac.Lib.Bloom
import Hledac.Lib.Dict
import Hledac.Py.Url

/-!
# The multi-tier rotating Bloom filter

`MultiTierRotatingBloomFilter` has a global filter and one filter, a tier, for each host. A full tier is
replaced by an empty one, and tiers leave to make room or because they are old; the global filter only
grows. `hash` is the seeded hash of the filters, whose cache of positions is left out; the sizes are those
the filters were made with, and times are rational numbers.
-/

namespace Hledac.Utils

open Hledac.Lib Hledac.Py

/-- The size in bits and the number of hashes of a filter. -/
structure FilterSize where
  size : Nat
  hashCount : Nat
  size_pos : 0 < size
  hashCount_pos : 0 < hashCount

/-- `_get_hash_positions`; `utils/bloom_filter.py:128-160`. -/
def FilterSize.shape (f : FilterSize) (hash : Nat → String → Nat) : BloomShape String where
  positions item := (List.range f.hashCount).map fun i => hash i item % f.size
  positions_ne_nil item := by
    have h := f.hashCount_pos
    rw [Ne, List.map_eq_nil_iff, List.range_eq_nil]
    omega

/-- `BloomFilter`; lines 94-251. `bits` are the positions that are set. -/
structure BloomFilter where
  bits : Finset Nat := ∅
  elementCount : Nat := 0

/-- An entry of `_tier_stats`. -/
structure TierStats where
  createdAt : ℚ
  elementCount : Nat := 0
  rotations : Nat := 0

/-- The arguments of `__init__`, and the hash. -/
structure TierConfig where
  hash : Nat → String → Nat
  perHost : FilterSize
  global : FilterSize
  maxTiers : Nat
  maxFillRatio : ℚ

/-- `MultiTierRotatingBloomFilter`; lines 408-506. The order of use lists the hosts, the next
to leave first. -/
structure MultiTier where
  globalFilter : BloomFilter := {}
  hostTiers : Dict String BloomFilter := .empty
  tierStats : Dict String TierStats := .empty
  lruOrder : Dict String Unit := .empty

namespace MultiTier

variable (c : TierConfig)

/-- Whether the item is in the global filter. -/
def inGlobal (item : String) (s : MultiTier) : Bool :=
  (c.global.shape c.hash).mem s.globalFilter.bits item

/-- Whether the item is in a tier. -/
def inTier (item : String) (tier : BloomFilter) : Bool := (c.perHost.shape c.hash).mem tier.bits item

/-- `BloomFilter.add`. -/
def addTo (shape : BloomShape String) (item : String) (f : BloomFilter) : BloomFilter where
  bits := shape.put f.bits item
  elementCount := f.elementCount + 1

/-- `_evict_lru_tier`; lines 533-543. -/
def evictLruTier (s : MultiTier) : MultiTier :=
  match s.lruOrder.keys.head? with
  | none => s
  | some host =>
    { s with
      lruOrder := s.lruOrder.popFirst
      hostTiers := s.hostTiers.erase host
      tierStats := s.tierStats.erase host }

/-- `_get_or_create_host_tier`; lines 508-531. -/
def getOrCreateHostTier (host : String) (now : ℚ) (s : MultiTier) : BloomFilter × MultiTier :=
  match s.hostTiers.get? host with
  | some tier => (tier, { s with lruOrder := s.lruOrder.moveToEnd host })
  | none =>
    let s := if c.maxTiers ≤ s.hostTiers.size then s.evictLruTier else s
    ({}, { s with
      hostTiers := s.hostTiers.insert host {}
      tierStats := s.tierStats.insert host { createdAt := now }
      lruOrder := s.lruOrder.insert host () })

/-- `_should_rotate_tier`; lines 545-548. -/
def shouldRotateTier (tier : BloomFilter) : Bool :=
  decide (c.maxFillRatio ≤ (tier.bits.card : ℚ) / c.perHost.size)

/-- `_rotate_tier`; lines 550-562. -/
def rotateTier (host : String) (s : MultiTier) : BloomFilter × MultiTier :=
  ({}, { s with
    tierStats :=
      match s.tierStats.get? host with
      | some stats => s.tierStats.insert host { stats with rotations := stats.rotations + 1 }
      | none => s.tierStats
    hostTiers := s.hostTiers.insert host {} })

/-- The tier that an item of the host goes to: a full one is rotated first. -/
def tierFor (host : String) (now : ℚ) (s : MultiTier) : BloomFilter × MultiTier :=
  let (tier, s) := s.getOrCreateHostTier c host now
  if shouldRotateTier c tier then s.rotateTier host else (tier, s)

/-- `add`; lines 564-596. -/
def add (item host : String) (now : ℚ) (s : MultiTier) : Bool × MultiTier :=
  if s.inGlobal c item then (false, s)
  else
    let (tier, s) := s.tierFor c host now
    let wasNew := !inTier c item tier
    let s := { s with hostTiers := s.hostTiers.insert host (addTo (c.perHost.shape c.hash) item tier) }
    (wasNew,
      if wasNew then
        { s with
          globalFilter := addTo (c.global.shape c.hash) item s.globalFilter
          tierStats :=
            match s.tierStats.get? host with
            | some stats => s.tierStats.insert host { stats with elementCount := stats.elementCount + 1 }
            | none => s.tierStats }
      else s)

/-- `_extract_host`; lines 659-667. -/
def extractHost (parser : UrlParser) (url : String) : String :=
  match parser.netloc url.toList with
  | none => "unknown"
  | some location => if location = [] then "unknown" else String.ofList location

/-- The loop of `add_batch`, the clock read anew for each item. -/
def addEach : List (String × String × ℚ) → MultiTier → List Bool × MultiTier
  | [], s => ([], s)
  | (item, host, now) :: rest, s =>
    let (wasNew, s) := s.add c item host now
    let (results, s) := addEach rest s
    (wasNew :: results, s)

/-- `add_batch`; lines 598-622. It raises `ValueError` where the lengths differ. -/
def addBatch (parser : UrlParser) (items : List String) (hosts : Option (List String)) (now : Nat → ℚ)
    (s : MultiTier) : Except String (List Bool) × MultiTier :=
  let hosts := hosts.getD (items.map (extractHost parser))
  if items = [] then (.ok [], s)
  else if hosts.length ≠ items.length then (.error "items and hosts must have same length", s)
  else
    let (results, s) := addEach c ((items.zip hosts).zipIdx.map fun e => (e.1.1, e.1.2, now e.2)) s
    (.ok results, s)

/-- `contains`; lines 624-645. -/
def contains (item : String) (host : Option String) (s : MultiTier) : Bool :=
  s.inGlobal c item &&
    match host.bind s.hostTiers.get? with
    | some tier => inTier c item tier
    | none => s.hostTiers.entries.any fun e => inTier c item e.2

/-- The hosts whose tiers were made too long ago. -/
def idleHosts (maxIdleSeconds now : ℚ) (s : MultiTier) : List String :=
  (s.tierStats.entries.filter fun e => decide (now - e.2.createdAt > maxIdleSeconds)).map Prod.fst

/-- `evict_idle_tiers`; lines 718-749. -/
def evictIdleTiers (maxIdleSeconds now : ℚ) (s : MultiTier) : Nat × MultiTier :=
  let toEvict := s.idleHosts maxIdleSeconds now
  (toEvict.length,
    { s with
      hostTiers := toEvict.foldl Dict.erase s.hostTiers
      tierStats := toEvict.foldl Dict.erase s.tierStats
      lruOrder := toEvict.foldl Dict.erase s.lruOrder })

/-! ### Runs -/

/-- A call of `add`, or of `evict_idle_tiers`. -/
inductive Call where
  | add (item host : String) (now : ℚ)
  | evictIdleTiers (maxIdleSeconds now : ℚ)

/-- The filter with the items added so far and the time at which each host's tier was used last. -/
structure Tracked where
  filter : MultiTier := {}
  added : List String := []
  lastAccess : String → Option ℚ := fun _ => none

/-- The filter after a call. -/
def Tracked.step (t : Tracked) : Call → Tracked
  | .add item host now =>
    { filter := (t.filter.add c item host now).2
      added := item :: t.added
      lastAccess := if t.filter.inGlobal c item then t.lastAccess
        else Function.update t.lastAccess host (some now) }
  | .evictIdleTiers maxIdleSeconds now =>
    { t with filter := (t.filter.evictIdleTiers maxIdleSeconds now).2 }

/-- A run of a new filter. -/
def runCalls (calls : List Call) : Tracked := calls.foldl (Tracked.step c) {}

/-- Every item added is found, whichever host is asked for. -/
def NoFalseNegatives (t : Tracked) : Prop :=
  ∀ item ∈ t.added, ∀ host, t.filter.contains c item host = true

/-- The call answers and evicts as it should: an item is new where it was not found before, and a tier
that leaves was not used for the given time. -/
def Answers (t : Tracked) : Call → Prop
  | .add item host now => ∀ asked ∈ [none, some host],
    ((t.filter.add c item host now).1 = false ↔ t.filter.contains c item asked = true)
  | .evictIdleTiers maxIdleSeconds now => ∀ host ∈ t.filter.hostTiers.keys,
    host ∉ (t.filter.evictIdleTiers maxIdleSeconds now).2.hostTiers.keys →
      ∀ last, t.lastAccess host = some last → now - last > maxIdleSeconds

/-- An item is in the global filter where it is in a tier and only there; where it is new, there is no tier
of another host, and the host's is not full. No tier was made longer ago than it may be idle. -/
def Meets (t : Tracked) : Call → Prop
  | .add item host _ =>
    (t.filter.inGlobal c item = true ↔ ∃ e ∈ t.filter.hostTiers.entries, inTier c item e.2 = true) ∧
      (t.filter.inGlobal c item = false → ∀ e ∈ t.filter.hostTiers.entries,
        e.1 = host ∧ shouldRotateTier c e.2 = false)
  | .evictIdleTiers maxIdleSeconds now => t.filter.idleHosts maxIdleSeconds now = []

section Runs

variable {c : TierConfig} {s : MultiTier} {t : Tracked} {item host : String}

theorem addEach_eq (c : TierConfig) (calls : List (String × String × ℚ)) (t : Tracked) :
    (addEach c calls t.filter).2 =
      ((calls.map fun e => Call.add e.1 e.2.1 e.2.2).foldl (Tracked.step c) t).filter := by
  induction calls generalizing t with
  | nil => rfl
  | cons e calls ih => exact ih (t.step c (.add e.1 e.2.1 e.2.2))

theorem inTier_empty : inTier c item {} = false := BloomShape.mem_empty

/-- Where the tiers are the host's at most, and not full, an item goes to the host's tier, or to an empty
one where there is none. -/
theorem tierFor_eq (now : ℚ) (hmax : 0 < c.maxTiers)
    (hone : ∀ e ∈ s.hostTiers.entries, e.1 = host ∧ shouldRotateTier c e.2 = false) :
    (s.tierFor c host now).1 = (s.hostTiers.get? host).getD {} ∧
      (s.tierFor c host now).2.globalFilter = s.globalFilter ∧
      ∀ h, host ≠ h → (s.tierFor c host now).2.hostTiers.get? h = none := by
  have hother : ∀ h, host ≠ h → s.hostTiers.get? h = none := by
    intro h hne
    rw [← Dict.notMem_keys_iff, Dict.keys, List.mem_map]
    intro hmem
    obtain ⟨e, he, rfl⟩ := hmem
    exact hne (hone e he).1.symm
  cases hget : s.hostTiers.get? host with
  | some tier =>
    have hcreate : s.getOrCreateHostTier c host now =
        (tier, { s with lruOrder := s.lruOrder.moveToEnd host }) := by
      rw [getOrCreateHostTier, hget]
    have hnot := (hone (host, tier) (Dict.get?_eq_some_iff.1 hget)).2
    rw [tierFor, hcreate]
    dsimp only
    rw [hnot]
    exact ⟨rfl, rfl, hother⟩
  | none =>
    -- there is no tier at all, so that none leaves; whether the new one is rotated, it is empty
    have hempty : s.hostTiers.size = 0 := by
      cases hentries : s.hostTiers.entries with
      | nil => rw [Dict.size, hentries]; rfl
      | cons e rest =>
        have he : e ∈ s.hostTiers.entries := hentries ▸ List.mem_cons_self
        have hmem : (host, e.2) ∈ s.hostTiers.entries := (hone e he).1 ▸ he
        rw [Dict.get?_eq_some_iff.2 hmem] at hget
        exact absurd hget (by simp)
    have hcreate : s.getOrCreateHostTier c host now =
        ({}, { s with
          hostTiers := s.hostTiers.insert host {}
          tierStats := s.tierStats.insert host { createdAt := now }
          lruOrder := s.lruOrder.insert host () }) := by
      rw [getOrCreateHostTier, hget]
      dsimp only
      rw [if_neg (by omega)]
    rw [tierFor, hcreate]
    dsimp only
    split
    · refine ⟨rfl, rfl, fun h hne => ?_⟩
      show ((s.hostTiers.insert host {}).insert host {}).get? h = none
      rw [Dict.get?_insert_of_ne hne, Dict.get?_insert_of_ne hne, hother h hne]
    · refine ⟨rfl, rfl, fun h hne => ?_⟩
      show (s.hostTiers.insert host {}).get? h = none
      rw [Dict.get?_insert_of_ne hne, hother h hne]

theorem add_of_new (now : ℚ) (hmax : 0 < c.maxTiers)
    (hone : ∀ e ∈ s.hostTiers.entries, e.1 = host ∧ shouldRotateTier c e.2 = false)
    (hglobal : s.inGlobal c item = false)
    (htiers : ∀ e ∈ s.hostTiers.entries, inTier c item e.2 = false) :
    (s.add c item host now).1 = true ∧
      (s.add c item host now).2.globalFilter = addTo (c.global.shape c.hash) item s.globalFilter ∧
      ∀ h, (s.add c item host now).2.hostTiers.get? h =
        if host = h then some (addTo (c.perHost.shape c.hash) item ((s.hostTiers.get? host).getD {}))
        else none := by
  obtain ⟨htier, hkept, hother⟩ := tierFor_eq now hmax hone
  have hnew : inTier c item (s.tierFor c host now).1 = false := by
    rw [htier]
    cases hget : s.hostTiers.get? host with
    | none => exact inTier_empty
    | some tier => exact htiers (host, tier) (Dict.get?_eq_some_iff.1 hget)
  rw [add, hglobal]
  dsimp only
  rw [hnew]
  refine ⟨rfl, ?_, fun h => ?_⟩
  · show addTo _ item (s.tierFor c host now).2.globalFilter = _
    rw [hkept]
  · show ((s.tierFor c host now).2.hostTiers.insert host _).get? h = _
    rw [Dict.get?_insert, htier]
    by_cases hh : host = h
    · rw [if_pos hh, if_pos hh]
    · rw [if_neg hh, if_neg hh, hother h hh]

theorem inGlobal_addTo {a : String} (h : a = item ∨ s.inGlobal c a = true) {s' : MultiTier}
    (hs' : s'.globalFilter = addTo (c.global.shape c.hash) item s.globalFilter) :
    s'.inGlobal c a = true := by
  rw [inGlobal, hs']
  cases h with
  | inl heq => exact heq ▸ BloomShape.mem_put_self
  | inr h => exact BloomShape.mem_put_of_mem h

theorem inTier_addTo {a : String} {tier : BloomFilter} (h : a = item ∨ inTier c a tier = true) :
    inTier c a (addTo (c.perHost.shape c.hash) item tier) = true := by
  cases h with
  | inl heq => exact heq ▸ BloomShape.mem_put_self
  | inr h => exact BloomShape.mem_put_of_mem h

/-- There is one tier at most, and what was added is in the global filter and in it. -/
structure Sound (c : TierConfig) (t : Tracked) : Prop where
  one : ∀ e ∈ t.filter.hostTiers.entries, ∀ e' ∈ t.filter.hostTiers.entries, e = e'
  heldGlobal : ∀ a ∈ t.added, t.filter.inGlobal c a = true
  nonempty : t.added ≠ [] → t.filter.hostTiers.entries ≠ []
  heldTier : ∀ a ∈ t.added, ∀ e ∈ t.filter.hostTiers.entries, inTier c a e.2 = true

theorem Sound.noFalseNegatives (h : Sound c t) : NoFalseNegatives c t := by
  intro a ha host
  rw [contains, h.heldGlobal a ha, Bool.true_and]
  split
  · next tier hget =>
    obtain ⟨asked, -, hasked⟩ := Option.bind_eq_some_iff.1 hget
    exact h.heldTier a ha (asked, tier) (Dict.get?_eq_some_iff.1 hasked)
  · obtain ⟨e, rest, hentries⟩ := List.exists_cons_of_ne_nil (h.nonempty (List.ne_nil_of_mem ha))
    have he : e ∈ t.filter.hostTiers.entries := hentries ▸ List.mem_cons_self
    exact List.any_eq_true.2 ⟨e, he, h.heldTier a ha e he⟩

theorem contains_of_inTier (hone : ∀ e ∈ s.hostTiers.entries, ∀ e' ∈ s.hostTiers.entries, e = e')
    (hglobal : s.inGlobal c item = true) {e : String × BloomFilter} (he : e ∈ s.hostTiers.entries)
    (htier : inTier c item e.2 = true) (asked : Option String) : s.contains c item asked = true := by
  rw [contains, hglobal, Bool.true_and]
  split
  · next tier hget =>
    obtain ⟨h, -, hh⟩ := Option.bind_eq_some_iff.1 hget
    rwa [hone _ he _ (Dict.get?_eq_some_iff.1 hh)] at htier
  · exact List.any_eq_true.2 ⟨e, he, htier⟩

theorem Sound.answers (h : Sound c t) (hmax : 0 < c.maxTiers) {call : Call} (hmeets : Meets c t call) :
    Answers c t call := by
  cases call with
  | add item host now =>
    obtain ⟨hagree, hone⟩ := hmeets
    intro asked _
    cases hglobal : t.filter.inGlobal c item with
    | true =>
      obtain ⟨e, he, htier⟩ := hagree.1 hglobal
      rw [add, hglobal, contains_of_inTier h.one hglobal he htier asked]
      exact Iff.intro (fun _ => rfl) fun _ => rfl
    | false =>
      have htiers : ∀ e ∈ t.filter.hostTiers.entries, inTier c item e.2 = false := by
        intro e he
        rw [Bool.eq_false_iff]
        intro htier
        rw [hagree.2 ⟨e, he, htier⟩] at hglobal
        exact absurd hglobal (by decide)
      rw [(add_of_new now hmax (hone hglobal) hglobal htiers).1, contains, hglobal, Bool.false_and]
      exact iff_of_false (by decide) (by decide)
  | evictIdleTiers maxIdleSeconds now =>
    intro host hhost hgone
    have hnone : t.filter.idleHosts maxIdleSeconds now = [] := hmeets
    rw [evictIdleTiers, hnone] at hgone
    exact absurd hhost hgone

theorem Sound.step (h : Sound c t) (hmax : 0 < c.maxTiers) {call : Call} (hmeets : Meets c t call) :
    Sound c (t.step c call) := by
  cases call with
  | add item host now =>
    obtain ⟨hagree, hone⟩ := hmeets
    cases hglobal : t.filter.inGlobal c item with
    | true =>
      have hsame : (t.filter.add c item host now).2 = t.filter := by
        rw [add, hglobal]
        rfl
      obtain ⟨e, he, htier⟩ := hagree.1 hglobal
      rw [Tracked.step, hsame]
      refine ⟨h.one, ?_, fun _ => List.ne_nil_of_mem he, ?_⟩
      · exact List.forall_mem_cons.2 ⟨hglobal, h.heldGlobal⟩
      · refine List.forall_mem_cons.2 ⟨fun e' he' => ?_, h.heldTier⟩
        rwa [h.one e he e' he'] at htier
    | false =>
      have htiers : ∀ e ∈ t.filter.hostTiers.entries, inTier c item e.2 = false := by
        intro e he
        rw [Bool.eq_false_iff]
        intro htier
        rw [hagree.2 ⟨e, he, htier⟩] at hglobal
        exact absurd hglobal (by decide)
      obtain ⟨-, hfilter, hget⟩ := add_of_new now hmax (hone hglobal) hglobal htiers
      -- the one tier left is the host's, with the item in it
      have hentry : ∀ e ∈ (t.filter.add c item host now).2.hostTiers.entries,
          e = (host, addTo (c.perHost.shape c.hash) item ((t.filter.hostTiers.get? host).getD {})) := by
        intro e he
        have hsome := Dict.get?_eq_some_iff.2 he
        rw [hget] at hsome
        split at hsome
        · next heq => exact Prod.ext heq.symm (Option.some.inj hsome).symm
        · exact absurd hsome (by simp)
      have hmem := Dict.get?_eq_some_iff.1 ((hget host).trans (if_pos rfl))
      refine ⟨?_, ?_, fun _ => List.ne_nil_of_mem hmem, ?_⟩
      · intro e he e' he'
        rw [hentry e he, hentry e' he']
      · intro a ha
        apply inGlobal_addTo ?_ hfilter
        exact (List.mem_cons.1 ha).imp_right (h.heldGlobal a)
      · intro a ha e he
        rw [hentry e he]
        apply inTier_addTo
        refine (List.mem_cons.1 ha).imp_right fun hadded => ?_
        obtain ⟨e, rest, hentries⟩ :=
          List.exists_cons_of_ne_nil (h.nonempty (List.ne_nil_of_mem hadded))
        have he : e ∈ t.filter.hostTiers.entries := hentries ▸ List.mem_cons_self
        have hheld : (host, e.2) ∈ t.filter.hostTiers.entries := (hone hglobal e he).1 ▸ he
        rw [Dict.get?_eq_some_iff.2 hheld]
        exact h.heldTier a hadded e he
  | evictIdleTiers maxIdleSeconds now =>
    have hnone : t.filter.idleHosts maxIdleSeconds now = [] := hmeets
    rw [Tracked.step, evictIdleTiers, hnone]
    exact ⟨h.one, h.heldGlobal, h.nonempty, h.heldTier⟩

/-- In every run whose calls all meet the condition, what was added is found in every state reached, and
every call answers and evicts as it should. -/
theorem noFalseNegatives_run (c : TierConfig) (hmax : 1 ≤ c.maxTiers) (calls : List Call)
    (hmeets : ∀ before call after, calls = before ++ call :: after → Meets c (runCalls c before) call) :
    (∀ before after, calls = before ++ after → NoFalseNegatives c (runCalls c before)) ∧
      ∀ before call after, calls = before ++ call :: after → Answers c (runCalls c before) call := by
  have hsound : ∀ before after, calls = before ++ after → Sound c (runCalls c before) := by
    intro before
    induction before using List.reverseRecOn with
    | nil =>
      intro _ _
      refine ⟨?_, ?_, fun h => absurd rfl h, ?_⟩
      · exact fun e he => absurd he List.not_mem_nil
      · exact fun a ha => absurd ha List.not_mem_nil
      · exact fun a ha => absurd ha List.not_mem_nil
    | append_singleton before call ih =>
      intro after heq
      rw [List.append_assoc] at heq
      rw [runCalls, List.foldl_append]
      exact (ih _ heq).step hmax (hmeets before call after heq)
  constructor
  · intro before after heq
    exact (hsound before after heq).noFalseNegatives
  · intro before call after heq
    exact (hsound before (call :: after) heq).answers hmax (hmeets before call after heq)

end Runs

/-- Filters of eight bits that place an item by its length. -/
def byLength : TierConfig where
  hash _ item := item.length
  perHost := ⟨8, 1, by decide, by decide⟩
  global := ⟨8, 1, by decide, by decide⟩
  maxTiers := 2
  maxFillRatio := 1

theorem noFalseNegatives_add :
    (1 ≤ byLength.maxTiers ∧ ∀ before call after, [Call.add "a" "h" 0] = before ++ call :: after →
      Meets byLength (runCalls byLength before) call) ∧
    NoFalseNegatives byLength (runCalls byLength [.add "a" "h" 0]) := by
  have hmeets : ∀ before call after, [Call.add "a" "h" 0] = before ++ call :: after →
      Meets byLength (runCalls byLength before) call := by
    intro before call after heq
    cases before with
    | nil =>
      obtain ⟨rfl, -⟩ := List.cons.inj heq
      constructor
      · exact iff_of_false (by decide) fun ⟨e, he, _⟩ => absurd he List.not_mem_nil
      · exact fun _ e he => absurd he List.not_mem_nil
    | cons first before => exact absurd (congrArg List.length heq) (by simp)
  exact ⟨⟨by decide, hmeets⟩, (noFalseNegatives_run byLength (by decide) _ hmeets).1 _ [] rfl⟩

/-- An item of one host is not found for another host that has a tier. -/
theorem not_noFalseNegatives : ¬ ∀ c : TierConfig, 1 ≤ c.maxTiers → ∀ calls,
    NoFalseNegatives c (runCalls c calls) := by
  intro h
  have hfound := h byLength (by decide) [.add "a" "h1" 0, .add "bb" "h2" 0] "a" (by decide) (some "h2")
  exact absurd hfound (by decide +kernel)

end MultiTier

end Hledac.Utils
