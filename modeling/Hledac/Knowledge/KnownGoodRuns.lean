import Hledac.Knowledge.KnownGood

/-!
# Runs of the cache of confirmed entities

Over whole runs the keys of the cache stand in the order of their last use, where no load renews an
entry in place, and the filter skips soundly where an entry was not stored long after its confirmation.
-/

namespace Hledac.Knowledge

open Hledac.Lib Hledac.Py

namespace KnownGoodCache

/-- A call of `set` or `get`, or one value of a `bulk_load`. -/
inductive CacheStep where
  | set (key : String) (value : CacheValue) (now : ℚ)
  | load (value : CacheValue) (now : ℚ)
  | get (key : String) (now : ℚ)

/-- The key that leaves to make room, and the cache after the step. -/
def CacheStep.run (s : KnownGoodCache) : CacheStep → Option String × KnownGoodCache
  | .set key value now => s.set key value now
  | .load value now => s.loadEntry value now
  | .get key now => (none, (s.get key now).2)

/-- The key that the step uses: what it stores, or what it finds. -/
def CacheStep.used (s : KnownGoodCache) : CacheStep → Option String
  | .set key _ _ => some key
  | .load value _ => loadKey value
  | .get key now => (s.get key now).1.map fun _ => key

/-- A cache with the keys used so far, the latest first. -/
structure Tracked where
  cache : KnownGoodCache
  history : List String := []

/-- The cache after a step. -/
def Tracked.step (t : Tracked) (st : CacheStep) : Tracked where
  cache := (st.run t.cache).2
  history := (st.used t.cache).toList ++ t.history

/-- A run of a new cache. -/
def runSteps (maxsize : Nat) (steps : List CacheStep) : Tracked :=
  steps.foldl Tracked.step { cache := new maxsize }

/-- A load renews no entry, but the one used last. -/
def InPlace (st : CacheStep) (t : Tracked) : Prop :=
  match st with
  | .load value _ => ∀ key, loadKey value = some key → key ∈ t.cache.data.keys →
    t.cache.data.keys.getLast? = some key
  | _ => True

/-- What leaves to make room was used before all else that is held. -/
def EvictsLru (st : CacheStep) (t : Tracked) : Prop :=
  ∀ key, (st.run t.cache).1 = some key →
    ∀ key' ∈ t.cache.data.keys, key' ≠ key → key' ∈ Recency.since t.history key

/-- The keys stand in the order of their last use, and there are no more than the bound. -/
structure Kept (t : Tracked) : Prop where
  inOrder : Recency.InOrder t.history t.cache.data.keys
  size_le : t.cache.data.size ≤ knownGoodCacheMaxSize

section Steps

variable {s : KnownGoodCache} {t : Tracked} {key : String} {data : Dict String CacheEntry}

theorem bulkLoad_eq (entries : List CacheValue) (now : ℚ) (s : KnownGoodCache) :
    (s.bulkLoad entries now).2 =
      (entries.map (CacheStep.load · now)).foldl (fun s st => (st.run s).2) s := by
  rw [bulkLoad, List.foldl_map]
  rfl

theorem keys_makeRoom (hkey : key ∉ data.keys) (hsize : data.size ≤ knownGoodCacheMaxSize)
    (entry : CacheEntry) :
    ∃ rest, rest.Sublist data.keys ∧ ((makeRoom key data).2.insert key entry).keys = rest ++ [key] ∧
      ((makeRoom key data).2.insert key entry).size ≤ knownGoodCacheMaxSize := by
  have hinsert : ∀ d : Dict String CacheEntry, key ∉ d.keys → d.size < knownGoodCacheMaxSize →
      (d.insert key entry).keys = d.keys ++ [key] ∧ (d.insert key entry).size ≤ knownGoodCacheMaxSize := by
    intro d hd hlt
    rw [Dict.keys_insert, if_neg hd, Dict.size_insert, if_neg hd]
    exact ⟨rfl, hlt⟩
  by_cases hfull : knownGoodCacheMaxSize ≤ data.size
  · have hsub : data.popFirst.keys.Sublist data.keys := by
      rw [Dict.keys_popFirst]
      exact List.tail_sublist _
    have hlt : data.popFirst.size < knownGoodCacheMaxSize := by
      have hpos : 0 < data.size := Nat.lt_of_lt_of_le (by decide) hfull
      rw [← Dict.length_keys, Dict.keys_popFirst, List.length_tail, Dict.length_keys]
      omega
    rw [makeRoom, if_pos ⟨hkey, hfull⟩]
    exact ⟨_, hsub, hinsert _ (fun h => hkey (hsub.mem h)) hlt⟩
  · rw [makeRoom, if_neg fun h => hfull h.2]
    exact ⟨_, List.Sublist.refl _, hinsert _ hkey (Nat.lt_of_not_le hfull)⟩

theorem Kept.makeRoom (h : Kept t) (hkey : key ∉ t.cache.data.keys) (entry : CacheEntry) :
    Kept ⟨⟨(makeRoom key t.cache.data).2.insert key entry⟩, key :: t.history⟩ := by
  obtain ⟨rest, hsub, hkeys, hsize⟩ := keys_makeRoom hkey h.size_le entry
  refine ⟨?_, hsize⟩
  show Recency.InOrder _ (Dict.keys _)
  rw [hkeys]
  exact (h.inOrder.sublist hsub).use fun hmem => hkey (hsub.mem hmem)

theorem Kept.moveToEnd (h : Kept t) (hkey : key ∈ t.cache.data.keys) :
    Kept ⟨⟨t.cache.data.moveToEnd key⟩, key :: t.history⟩ := by
  have hkeys := Dict.keys_moveToEnd hkey
  constructor
  · show Recency.InOrder _ (Dict.keys _)
    rw [hkeys]
    exact (h.inOrder.sublist List.erase_sublist).use t.cache.data.nodup.not_mem_erase
  · show Dict.size _ ≤ _
    rw [← Dict.length_keys, hkeys, List.length_append, List.length_erase_of_mem hkey, Dict.length_keys]
    have hpos : 0 < t.cache.data.size := by
      rw [← Dict.length_keys]
      exact List.length_pos_of_mem hkey
    have hle := h.size_le
    simp only [List.length_singleton]
    omega

theorem Kept.insert {data : Dict String CacheEntry} {history : List String}
    (h : Kept ⟨⟨data⟩, history⟩) (hkey : key ∈ data.keys) (entry : CacheEntry) :
    Kept ⟨⟨data.insert key entry⟩, history⟩ := by
  constructor
  · show Recency.InOrder _ (Dict.keys _)
    rw [Dict.keys_insert, if_pos hkey]
    exact h.inOrder
  · show Dict.size _ ≤ _
    rw [Dict.size_insert, if_pos hkey]
    exact h.size_le

theorem Kept.step (h : Kept t) {st : CacheStep} (hplace : InPlace st t) : Kept (t.step st) := by
  cases st with
  | set key value now =>
    by_cases hkey : key ∈ t.cache.data.keys
    · have hmem : key ∈ (t.cache.data.moveToEnd key).keys := by
        rw [Dict.keys_moveToEnd hkey]
        exact List.mem_append_right _ List.mem_cons_self
      have hkept := (h.moveToEnd hkey).insert hmem { value with cachedAtS := now }
      rw [Tracked.step, CacheStep.run, KnownGoodCache.set, if_pos hkey]
      exact hkept
    · rw [Tracked.step, CacheStep.run, KnownGoodCache.set, if_neg hkey]
      exact h.makeRoom hkey _
  | load value now =>
    rw [Tracked.step, CacheStep.run, CacheStep.used, loadEntry]
    cases hload : loadKey value with
    | none => exact h
    | some key =>
      by_cases hkey : key ∈ t.cache.data.keys
      · -- the entry is the last, so that its use leaves the order as it is
        obtain ⟨init, hinit⟩ := List.getLast?_eq_some_iff.1 (hplace key hload hkey)
        have hnodup := t.cache.data.nodup
        rw [hinit] at hnodup
        have horder : Recency.InOrder (key :: t.history) t.cache.data.keys := by
          rw [hinit]
          exact (h.inOrder.sublist (hinit ▸ List.sublist_append_left _ _)).use
            (List.disjoint_singleton.1 (List.disjoint_of_nodup_append hnodup))
        have hroom : KnownGoodCache.makeRoom key t.cache.data = (none, t.cache.data) := if_neg fun hn => hn.1 hkey
        dsimp only
        rw [hroom]
        have hkept : Kept ⟨⟨t.cache.data⟩, key :: t.history⟩ := ⟨horder, h.size_le⟩
        exact hkept.insert hkey _
      · exact h.makeRoom hkey _
  | get key now =>
    rw [Tracked.step, CacheStep.run, CacheStep.used, KnownGoodCache.get]
    cases hget : t.cache.data.get? key with
    | none => exact h
    | some entry =>
      have hkey := Dict.mem_keys_of_get? hget
      dsimp only
      split
      · constructor
        · show Recency.InOrder _ (Dict.keys _)
          rw [Dict.keys_erase]
          exact h.inOrder.sublist List.erase_sublist
        · show Dict.size _ ≤ _
          rw [Dict.size_erase hkey]
          exact (Nat.sub_le _ _).trans h.size_le
      · exact h.moveToEnd hkey

theorem Kept.evictsLru (h : Kept t) (st : CacheStep) : EvictsLru st t := by
  have hroom : ∀ key evicted, (KnownGoodCache.makeRoom key t.cache.data).1 = some evicted →
      ∀ key' ∈ t.cache.data.keys, key' ≠ evicted → key' ∈ Recency.since t.history evicted := by
    intro key evicted hevicted key' hkey' hne
    rw [KnownGoodCache.makeRoom] at hevicted
    split at hevicted
    · obtain ⟨rest, hrest⟩ := List.head?_eq_some_iff.1 hevicted
      have horder := h.inOrder
      rw [hrest] at horder hkey'
      exact horder.head ((List.mem_cons.1 hkey').resolve_left hne)
    · exact absurd hevicted (by simp)
  intro evicted hevicted
  cases st with
  | set key value now =>
    rw [CacheStep.run, KnownGoodCache.set] at hevicted
    by_cases hkey : key ∈ t.cache.data.keys
    · rw [if_pos hkey] at hevicted
      exact absurd hevicted (by simp)
    · rw [if_neg hkey] at hevicted
      exact hroom key evicted hevicted
  | load value now =>
    rw [CacheStep.run, loadEntry] at hevicted
    split at hevicted
    · exact absurd hevicted (by simp)
    · exact hroom _ evicted hevicted
  | get key now => exact absurd hevicted (by simp [CacheStep.run])

theorem kept_runSteps (maxsize : Nat) (steps : List CacheStep)
    (hplace : ∀ before st after, steps = before ++ st :: after → InPlace st (runSteps maxsize before)) :
    Kept (runSteps maxsize steps) := by
  induction steps using List.reverseRecOn with
  | nil => exact ⟨Recency.inOrder_nil, Nat.zero_le _⟩
  | append_singleton steps st ih =>
    rw [runSteps, List.foldl_append]
    apply (ih ?_).step (hplace steps st [] rfl)
    intro before st' after heq
    exact hplace before st' (after ++ [st]) (by rw [heq, List.append_assoc]; rfl)

end Steps

end KnownGoodCache

/-! ### What the filter skips -/

namespace DeltaSyncEngine

section Filter

variable (parser : UrlParser) (initialized : Bool) (url : String) (first second : ℚ) (s : KnownGoodCache)

/-- A skip comes from an entry under the URL or under its host, confirmed within the time to live. -/
def SkipSound : Prop :=
  ∀ r s', preFetchFilter parser initialized url first second s = (.ok (some r), s') →
    (∃ e, s.data.get? ("url:" ++ url) = some e ∧ makeResult e url "url" = .ok r ∧
      second - e.confirmedAt ≤ cacheEntryTtlS) ∨
    ∃ host e, parser.hostname url.toList = some host ∧
      s.data.get? ("domain:" ++ String.ofList host) = some e ∧ makeResult e url "domain" = .ok r ∧
        first - e.confirmedAt ≤ cacheEntryTtlS

/-- No entry under the keys that are looked up was stored within the time to live and last confirmed before
it, and the domain looked up has no entry or is the host. -/
structure SkipsRight : Prop where
  urlFresh : ∀ e, s.data.get? ("url:" ++ url) = some e → second - e.cachedAtS ≤ cacheEntryTtlS →
    second - e.confirmedAt ≤ cacheEntryTtlS
  domainFresh : ∀ domain e, extractDomain parser url = some domain →
    s.data.get? ("domain:" ++ domain) = some e → first - e.cachedAtS ≤ cacheEntryTtlS →
      first - e.confirmedAt ≤ cacheEntryTtlS
  host : ∀ domain e, extractDomain parser url = some domain →
    s.data.get? ("domain:" ++ domain) = some e → parser.hostname url.toList = some domain.toList

variable {parser initialized url first second s}

theorem get_eq_some {key : String} {now : ℚ} {e : CacheEntry} (h : (s.get key now).1 = some e) :
    s.data.get? key = some e ∧ now - e.cachedAtS ≤ cacheEntryTtlS := by
  rw [KnownGoodCache.get] at h
  split at h
  · exact absurd h (by simp)
  · next entry hget =>
    split at h
    · exact absurd h (by simp)
    · next hage =>
      obtain rfl := Option.some.inj h
      exact ⟨hget, not_lt.1 hage⟩

theorem get?_of_get {key key' : String} {now : ℚ} {e : CacheEntry}
    (h : (s.get key now).2.data.get? key' = some e) : s.data.get? key' = some e := by
  rw [KnownGoodCache.get] at h
  split at h
  · exact h
  · split at h
    · replace h : (s.data.erase key).get? key' = some e := h
      rw [Dict.get?_erase] at h
      split at h
      · exact absurd h (by simp)
      · exact h
    · rwa [Dict.get?_moveToEnd] at h

theorem filterByUrl_eq_some {r : FilterResult} {s' : KnownGoodCache}
    (h : filterByUrl url second s = (.ok (some r), s')) :
    ∃ e, s.data.get? ("url:" ++ url) = some e ∧ makeResult e url "url" = .ok r ∧
      second - e.cachedAtS ≤ cacheEntryTtlS := by
  rw [filterByUrl] at h
  split at h
  · next entry after hget =>
    obtain ⟨hheld, hage⟩ := get_eq_some (congrArg Prod.fst hget)
    refine ⟨entry, hheld, ?_, hage⟩
    cases hresult : makeResult entry url "url" with
    | error err =>
      rw [hresult] at h
      exact absurd (congrArg Prod.fst h) (by simp [Except.map])
    | ok r' =>
      rw [hresult] at h
      have hr := congrArg Prod.fst h
      simp only [Except.map, Except.ok.injEq, Option.some.injEq] at hr
      rw [hr]
  · exact absurd (congrArg Prod.fst h) (by simp)

theorem skipSound_of_right (h : SkipsRight parser url first second s) :
    SkipSound parser initialized url first second s := by
  intro r s' hskip
  rw [preFetchFilter] at hskip
  split at hskip
  · exact absurd (congrArg Prod.fst hskip) (by simp)
  · split at hskip
    · obtain ⟨e, hheld, hresult, hage⟩ := filterByUrl_eq_some hskip
      exact Or.inl ⟨e, hheld, hresult, h.urlFresh e hheld hage⟩
    · next domain hdomain =>
      have hdomain := (Option.filter_eq_some_iff.1 hdomain).1
      split at hskip
      · next entry after hget =>
        obtain ⟨hheld, hage⟩ := get_eq_some (congrArg Prod.fst hget)
        refine Or.inr ⟨domain.toList, entry, h.host domain entry hdomain hheld, ?_, ?_,
          h.domainFresh domain entry hdomain hheld hage⟩
        · rwa [String.ofList_toList]
        · cases hresult : makeResult entry url "domain" with
          | error err =>
            rw [hresult] at hskip
            exact absurd (congrArg Prod.fst hskip) (by simp [Except.map])
          | ok r' =>
            rw [hresult] at hskip
            have hr := congrArg Prod.fst hskip
            simp only [Except.map, Except.ok.injEq, Option.some.injEq] at hr
            rw [hr]
      · next after hget =>
        obtain ⟨e, hheld, hresult, hage⟩ := filterByUrl_eq_some hskip
        have hafter : (s.get ("domain:" ++ domain) first).2.data.get? ("url:" ++ url) = some e := by
          rw [hget]
          exact hheld
        exact Or.inl ⟨e, get?_of_get hafter, hresult, h.urlFresh e (get?_of_get hafter) hage⟩

/-- In every run of a cache made large enough, in which no load renews an entry that was not used last, the
bound holds, what leaves to make room was used before all else, and the filter skips soundly in every
state where the entries it looks at are as they should be. -/
theorem knownGood_runs (maxsize : Nat) (hmax : knownGoodCacheMaxSize ≤ maxsize)
    (steps : List KnownGoodCache.CacheStep)
    (hplace : ∀ before st after, steps = before ++ st :: after →
      KnownGoodCache.InPlace st (KnownGoodCache.runSteps maxsize before)) :
    (∀ before after, steps = before ++ after →
      (KnownGoodCache.runSteps maxsize before).cache.data.size ≤ maxsize) ∧
    (∀ before st after, steps = before ++ st :: after →
      KnownGoodCache.EvictsLru st (KnownGoodCache.runSteps maxsize before)) ∧
    ∀ parser initialized url first second,
      SkipsRight parser url first second (KnownGoodCache.runSteps maxsize steps).cache →
        SkipSound parser initialized url first second (KnownGoodCache.runSteps maxsize steps).cache := by
  have hkept : ∀ before after, steps = before ++ after →
      KnownGoodCache.Kept (KnownGoodCache.runSteps maxsize before) := by
    intro before after heq
    apply KnownGoodCache.kept_runSteps
    intro first st rest hbefore
    exact hplace first st (rest ++ after) (by rw [heq, hbefore, List.append_assoc]; rfl)
  refine ⟨?_, ?_, ?_⟩
  · intro before after heq
    exact (hkept before after heq).size_le.trans hmax
  · intro before st after heq
    exact (hkept before (st :: after) heq).evictsLru st
  · intro parser initialized url first second hright
    exact skipSound_of_right hright

end Filter

/-- A library that refuses no location and lowers ASCII letters. -/
def asciiParser : UrlParser := ⟨fun _ => false, fun cs => cs.map Char.toLower⟩

/-- A page that was confirmed at time zero is loaded a hundred days later. -/
def loadLate : List KnownGoodCache.CacheStep :=
  [.load { entityValue := some "x", iocType := some "url", lastConfirmedTs := some 0 } 8640000]

theorem knownGood_runs_load :
    (knownGoodCacheMaxSize ≤ 4096 ∧ ∀ before st after, loadLate = before ++ st :: after →
      KnownGoodCache.InPlace st (KnownGoodCache.runSteps 4096 before)) ∧
    (KnownGoodCache.runSteps 4096 loadLate).cache.data.size ≤ 4096 := by
  have hplace : ∀ before st after, loadLate = before ++ st :: after →
      KnownGoodCache.InPlace st (KnownGoodCache.runSteps 4096 before) := by
    intro before st after heq
    cases before with
    | nil =>
      obtain ⟨rfl, rfl⟩ := List.cons.inj heq
      exact fun key _ hmem => absurd hmem List.not_mem_nil
    | cons first before => exact absurd (congrArg List.length heq) (by simp [loadLate])
  exact ⟨⟨le_rfl, hplace⟩, (knownGood_runs 4096 le_rfl loadLate hplace).1 loadLate [] rfl⟩

/-- An entry that was confirmed long before it was loaded is skipped. -/
theorem not_skipSound : ¬ ∀ parser initialized url first second steps,
    SkipSound parser initialized url first second (KnownGoodCache.runSteps 4096 steps).cache := by
  intro h
  have hskip : ((preFetchFilter asciiParser true "x" 8640000 8640000
      (KnownGoodCache.runSteps 4096 loadLate).cache).1.toOption.bind id).isSome = true := by
    decide +kernel
  obtain ⟨r, hr⟩ := Option.isSome_iff_exists.1 hskip
  have hok : (preFetchFilter asciiParser true "x" 8640000 8640000
      (KnownGoodCache.runSteps 4096 loadLate).cache).1 = .ok (some r) := by
    cases hout : (preFetchFilter asciiParser true "x" 8640000 8640000
        (KnownGoodCache.runSteps 4096 loadLate).cache).1 with
    | error err =>
      rw [hout] at hr
      exact absurd hr (by simp [Except.toOption])
    | ok found =>
      rw [hout] at hr
      exact congrArg Except.ok hr
  obtain ⟨e, hheld, -, hage⟩ | ⟨host, -, hhost, -⟩ :=
    h asciiParser true "x" 8640000 8640000 loadLate r _ (Prod.ext hok rfl)
  · have hentry : (KnownGoodCache.runSteps 4096 loadLate).cache.data.get? ("url:" ++ "x") =
        some (KnownGoodCache.loadedEntry
          { entityValue := some "x", iocType := some "url", lastConfirmedTs := some 0 } 8640000) := by
      decide
    rw [hentry, Option.some.injEq] at hheld
    rw [← hheld] at hage
    exact absurd hage (by decide +kernel)
  · have hnone : asciiParser.hostname "x".toList = none := by decide
    rw [hnone] at hhost
    exact absurd hhost (by simp)

end DeltaSyncEngine

end Hledac.Knowledge
