import Mathlib.Algebra.Order.BigOperators.Group.List
import Hledac.Lib.Dict
import Hledac.Lib.Digest
import Hledac.Lib.Machine
import Hledac.Lib.Recency

/-!
# The byte-bounded LRU cache

`BoundedLruCache` keeps the values in an ordered dictionary, their sizes in another and the sum of the sizes beside them;
`knowledge/sprint_delta_index.py:638-729`. A value larger than the whole cache is refused, and a refused key keeps the
value it had.
-/

namespace Hledac.Knowledge

open Hledac.Lib

/-- `BoundedLruCache`; lines 638-662. -/
structure BoundedLruCache where
  data : Dict String Bytes := .empty
  sizes : Dict String Nat := .empty
  totalBytes : Int := 0
  maxBytes : Nat
  evictions : Nat := 0
  hits : Nat := 0
  misses : Nat := 0

namespace BoundedLruCache

/-- `get`; lines 664-671. -/
def get (s : BoundedLruCache) (key : String) : Option Bytes × BoundedLruCache :=
  if key ∈ s.data.keys then
    let data := s.data.moveToEnd key
    (data.get? key, { s with data := data, hits := s.hits + 1 })
  else (none, { s with misses := s.misses + 1 })

/-- The entry of the key is taken out; lines 692-697. -/
def remove (s : BoundedLruCache) (key : String) : BoundedLruCache :=
  if key ∈ s.data.keys then
    { s with
      data := s.data.erase key
      sizes := s.sizes.erase key
      totalBytes := s.totalBytes - (s.sizes.get? key).getD 0 }
  else s

/-- One turn of the eviction loop, which pops the first entry; lines 700-704. -/
def evictFirst (s : BoundedLruCache) (evictedKey : String) : BoundedLruCache :=
  { s with
    data := s.data.popFirst
    sizes := s.sizes.erase evictedKey
    totalBytes := s.totalBytes - (s.sizes.get? evictedKey).getD 0
    evictions := s.evictions + 1 }

/-- The eviction loop over the entries in their order; lines 699-704. -/
def makeRoom (valueSize : Nat) : List (String × Bytes) → BoundedLruCache → BoundedLruCache
  | [], s => s
  | e :: rest, s => if s.maxBytes < s.totalBytes + valueSize then makeRoom valueSize rest (s.evictFirst e.1) else s

/-- The new entry goes to the end; lines 706-709. -/
def store (s : BoundedLruCache) (key : String) (value : Bytes) : BoundedLruCache :=
  { s with
    data := s.data.insert key value
    sizes := s.sizes.insert key value.length
    totalBytes := s.totalBytes + value.length }

/-- `set`; lines 673-710. -/
def set (s : BoundedLruCache) (key : String) (value : Bytes) : Bool × BoundedLruCache :=
  if s.maxBytes < value.length then (false, s)
  else
    let s := s.remove key
    (true, (makeRoom value.length s.data.entries s).store key value)

/-- `clear`; lines 712-718. -/
def clear (s : BoundedLruCache) : BoundedLruCache :=
  { s with
    data := .empty
    sizes := .empty
    totalBytes := 0
    hits := 0
    misses := 0 }

/-! ### Runs -/

/-- The calls of the cache. -/
inductive Call where
  | get (key : String)
  | set (key : String) (value : Bytes)
  | clear
  deriving DecidableEq

/-- The cache after a call. -/
def after (s : BoundedLruCache) : Call → BoundedLruCache
  | .get key => (s.get key).2
  | .set key value => (s.set key value).2
  | .clear => s.clear

/-- The keys that a call uses: the one it finds, or the one it stores. -/
def used (s : BoundedLruCache) : Call → List String
  | .get key => if key ∈ s.data.keys then [key] else []
  | .set key value => if s.maxBytes < value.length then [] else [key]
  | .clear => []

/-- The cache beside what its callers know: the last value that was set for each key, and the keys in the order of their
uses, the latest first. -/
structure Observed where
  cache : BoundedLruCache
  lastSet : String → Option Bytes := fun _ => none
  history : List String := []

namespace Observed

def step (o : Observed) (c : Call) : Observed where
  cache := o.cache.after c
  lastSet := match c with
    | .set key value => Function.update o.lastSet key (some value)
    | _ => o.lastSet
  history := o.cache.used c ++ o.history

/-- An empty cache. -/
def start (maxBytes : Nat) : Observed where
  cache := { maxBytes := maxBytes }

end Observed

/-- A call refuses no value whose key is held. -/
def RefusesOnlyNew (o : Observed) : Call → Prop
  | .set key value => o.cache.maxBytes < value.length → key ∉ o.cache.data.keys
  | _ => True

/-- The recorded total is the sum of the lengths of the values held, and within the limit. -/
structure Accounted (s : BoundedLruCache) : Prop where
  total : s.totalBytes = (s.data.total List.length : Nat)
  bounded : s.totalBytes ≤ s.maxBytes

/-- What `get` returns is nothing, or the last value that was set. -/
def ReturnsLatest (o : Observed) : Prop :=
  ∀ key, (o.cache.get key).1 = none ∨ (o.cache.get key).1 = o.lastSet key

/-- A value that is set evicts an entry only with every entry used less recently, its own key apart. -/
def EvictsLeastRecent (o : Observed) (key : String) (value : Bytes) : Prop :=
  ∀ evicted ∈ o.cache.data.keys, evicted ≠ key → evicted ∉ (o.cache.set key value).2.data.keys →
    ∀ other ∈ o.cache.data.keys, other ≠ key → evicted ∈ Recency.since o.history other →
      other ∉ (o.cache.set key value).2.data.keys

/-- The account is right, no value is older than the last that was set, and every value that comes next evicts the
least recent entries. -/
structure KeepsPromises (o : Observed) : Prop where
  accounted : Accounted o.cache
  latest : ReturnsLatest o
  evicts : ∀ key value, EvictsLeastRecent o key value

/-! ### The account -/

/-- The sizes are those of the values, and the total is their sum. -/
structure Tallied (data : Dict String Bytes) (sizes : Dict String Nat) (total : Int) : Prop where
  sizes : ∀ key, sizes.get? key = (data.get? key).map List.length
  total : total = (data.total List.length : Nat)

section Account

variable {data : Dict String Bytes} {sizes : Dict String Nat} {total : Int} {key : String} {value : Bytes}
  {s : BoundedLruCache} {entries : List (String × Bytes)} {valueSize : Nat}

theorem Tallied.erase (h : Tallied data sizes total) (key : String) :
    Tallied (data.erase key) (sizes.erase key) (total - (sizes.get? key).getD 0) := by
  constructor
  · intro j
    rw [Dict.get?_erase, Dict.get?_erase, h.sizes j]
    split
    · rfl
    · rfl
  · rw [h.total, h.sizes key]
    cases hkey : data.get? key with
    | none =>
      rw [Dict.erase_of_notMem (Dict.notMem_keys_iff.2 hkey)]
      simp
    | some value =>
      rw [Dict.total_eq_add_erase List.length hkey]
      simp

theorem Tallied.insert (h : Tallied data sizes total) (hkey : key ∉ data.keys) (value : Bytes) :
    Tallied (data.insert key value) (sizes.insert key value.length) (total + value.length) := by
  constructor
  · intro j
    rw [Dict.get?_insert, Dict.get?_insert, h.sizes j]
    split
    · rfl
    · rfl
  · rw [h.total, Dict.total_insert_of_notMem List.length hkey]
    omega

private theorem tallied_moveToEnd (h : Tallied data sizes total) (key : String) :
    Tallied (data.moveToEnd key) sizes total := by
  constructor
  · intro j
    rw [h.sizes j, Dict.get?_moveToEnd]
  · rw [h.total, Dict.moveToEnd]
    cases hvalue : data.get? key with
    | none => rfl
    | some value =>
      show (_ : Int) = (((data.erase key).insert key value).total List.length : Nat)
      rw [Dict.total_insert_of_notMem List.length (by simp), ← Dict.total_eq_add_erase List.length hvalue]

private theorem popFirst_eq_erase {e : String × Bytes} (h : data.entries = e :: entries) :
    data.popFirst = data.erase e.1 := by
  have hnodup := data.nodup_keys
  rw [h, List.map_cons, List.nodup_cons] at hnodup
  ext1
  show data.entries.tail = data.entries.filter _
  rw [h, List.tail_cons, List.filter_cons_of_neg (by simp), eq_comm, List.filter_eq_self]
  intro b hb
  have hne : b.1 ≠ e.1 := fun hc => hnodup.1 (hc ▸ List.mem_map_of_mem hb)
  simp [hne]

@[simp] theorem maxBytes_remove (s : BoundedLruCache) (key : String) : (s.remove key).maxBytes = s.maxBytes := by
  unfold remove
  split <;> rfl

@[simp] theorem data_remove (s : BoundedLruCache) (key : String) : (s.remove key).data = s.data.erase key := by
  unfold remove
  split
  · rfl
  · next h => exact (Dict.erase_of_notMem h).symm

theorem tallied_remove (h : Tallied s.data s.sizes s.totalBytes) (key : String) :
    Tallied (s.remove key).data (s.remove key).sizes (s.remove key).totalBytes := by
  unfold remove
  split
  · exact h.erase key
  · exact h

theorem makeRoom_spec (hs : s.data.entries = entries) (h : Tallied s.data s.sizes s.totalBytes)
    (hfits : valueSize ≤ s.maxBytes) :
    let t := makeRoom valueSize entries s
    t.maxBytes = s.maxBytes ∧ Tallied t.data t.sizes t.totalBytes ∧ t.totalBytes + valueSize ≤ s.maxBytes ∧
      ∃ n, t.data.entries = entries.drop n := by
  induction entries generalizing s with
  | nil =>
    have hnone : s.totalBytes = 0 := by
      rw [h.total, Dict.total, hs]
      rfl
    refine ⟨rfl, h, ?_, 0, hs⟩
    show s.totalBytes + valueSize ≤ s.maxBytes
    omega
  | cons e rest ih =>
    simp only [makeRoom]
    split
    · have hpop := popFirst_eq_erase hs
      have htallied : Tallied (s.evictFirst e.1).data (s.evictFirst e.1).sizes (s.evictFirst e.1).totalBytes := by
        rw [evictFirst, hpop]
        exact h.erase e.1
      have hrest : (s.evictFirst e.1).data.entries = rest := by
        show s.data.entries.tail = rest
        rw [hs, List.tail_cons]
      have hroom := ih hrest htallied hfits
      refine ⟨hroom.1, hroom.2.1, hroom.2.2.1, ?_⟩
      cases hroom.2.2.2 with
      | intro n hn => exact ⟨n + 1, hn⟩
    · next hroom => exact ⟨rfl, h, by omega, 0, hs⟩

theorem set_spec (key : String) (h : Tallied s.data s.sizes s.totalBytes) (hfits : value.length ≤ s.maxBytes) :
    let t := (s.set key value).2
    t.maxBytes = s.maxBytes ∧ Tallied t.data t.sizes t.totalBytes ∧ t.totalBytes ≤ t.maxBytes ∧
      ∃ n, t.data.entries = (s.data.erase key).entries.drop n ++ [(key, value)] := by
  have hsize : value.length ≤ (s.remove key).maxBytes := by rw [maxBytes_remove]; exact hfits
  have hroom := makeRoom_spec rfl (tallied_remove h key) hsize
  simp only [maxBytes_remove] at hroom
  rw [set, if_neg (Nat.not_lt.2 hfits)]
  cases hroom.2.2.2 with
  | intro n hn =>
    rw [data_remove] at hn
    have hkey : key ∉ (makeRoom value.length (s.remove key).data.entries (s.remove key)).data.keys := by
      rw [Dict.keys, data_remove, hn]
      intro hmem
      have hold : key ∈ (s.data.erase key).keys := List.map_subset _ (List.drop_subset _ _) hmem
      exact (Dict.mem_keys_erase.1 hold).1 rfl
    refine ⟨hroom.1, hroom.2.1.insert hkey value, ?_, n, ?_⟩
    · show _ ≤ ((makeRoom value.length (s.remove key).data.entries (s.remove key)).maxBytes : Int)
      rw [hroom.1]
      exact hroom.2.2.1
    · show (Dict.insert _ key value).entries = _
      rw [Dict.entries_insert_of_notMem hkey, data_remove, hn]

theorem set_of_lt (h : s.maxBytes < value.length) : (s.set key value).2 = s := by
  rw [set, if_pos h]

theorem get_fst (s : BoundedLruCache) (key : String) : (s.get key).1 = s.data.get? key := by
  rw [get]
  split
  · exact Dict.get?_moveToEnd
  · next h => exact (Dict.notMem_keys_iff.1 h).symm

end Account

/-! ### Every run -/

/-- The account is right and the entries stand in the order of their uses. -/
structure Observed.Sound (o : Observed) : Prop where
  tallied : Tallied o.cache.data o.cache.sizes o.cache.totalBytes
  bounded : o.cache.totalBytes ≤ o.cache.maxBytes
  order : Recency.InOrder o.history o.cache.data.keys

namespace Observed

variable {o : Observed} {key : String} {value : Bytes}

theorem Sound.start (maxBytes : Nat) : (start maxBytes).Sound where
  tallied := ⟨fun _ => rfl, rfl⟩
  bounded := Int.natCast_nonneg maxBytes
  order := Recency.inOrder_nil

theorem Sound.keys_set (key : String) (h : o.Sound) (hfits : value.length ≤ o.cache.maxBytes) :
    ∃ n, (o.cache.set key value).2.data.keys = (o.cache.data.erase key).keys.drop n ++ [key] := by
  cases (set_spec key h.tallied hfits).2.2.2 with
  | intro n hn =>
    refine ⟨n, ?_⟩
    rw [Dict.keys, hn, List.map_append, List.map_drop]
    rfl

theorem Sound.step (h : o.Sound) (c : Call) : (o.step c).Sound := by
  cases c with
  | get key =>
    unfold Observed.step after used BoundedLruCache.get
    by_cases hkey : key ∈ o.cache.data.keys
    · simp only [if_pos hkey]
      refine ⟨tallied_moveToEnd h.tallied key, h.bounded, ?_⟩
      rw [Dict.keys_moveToEnd hkey]
      apply (h.order.sublist List.erase_sublist).use
      rw [← Dict.keys_erase]
      simp
    · simp only [if_neg hkey]
      exact ⟨h.tallied, h.bounded, h.order⟩
  | set key value =>
    by_cases hlarge : o.cache.maxBytes < value.length
    · have hsame : (o.step (.set key value)).cache = o.cache := set_of_lt hlarge
      constructor
      · rw [hsame]
        exact h.tallied
      · rw [hsame]
        exact h.bounded
      · rw [hsame]
        simp only [Observed.step, used, if_pos hlarge]
        exact h.order
    · have hspec := set_spec key h.tallied (Nat.le_of_not_lt hlarge)
      refine ⟨hspec.2.1, hspec.2.2.1, ?_⟩
      simp only [Observed.step, used, if_neg hlarge, after]
      cases h.keys_set key (Nat.le_of_not_lt hlarge) with
      | intro n hn =>
        rw [hn]
        have hsub : ((o.cache.data.erase key).keys.drop n).Sublist o.cache.data.keys := by
          rw [Dict.keys_erase]
          exact (List.drop_sublist _ _).trans List.erase_sublist
        apply (h.order.sublist hsub).use
        intro hmem
        exact (Dict.mem_keys_erase.1 (List.drop_subset _ _ hmem)).1 rfl
  | clear => exact ⟨⟨fun _ => rfl, rfl⟩, Int.natCast_nonneg _, Recency.inOrder_nil⟩

theorem Sound.accounted (h : o.Sound) : Accounted o.cache := ⟨h.tallied.total, h.bounded⟩

theorem Sound.evicts (h : o.Sound) (key : String) (value : Bytes) : EvictsLeastRecent o key value := by
  intro evicted hheld hne hgone other hother hotherne hsince hleft
  by_cases hlarge : o.cache.maxBytes < value.length
  · rw [set_of_lt hlarge] at hgone
    exact hgone hheld
  · cases h.keys_set key (Nat.le_of_not_lt hlarge) with
    | intro n hn =>
      rw [hn, List.mem_append, List.mem_singleton] at hgone hleft
      have hkept := hleft.resolve_right hotherne
      have hmem : evicted ∈ (o.cache.data.erase key).keys := Dict.mem_keys_erase.2 ⟨hne, hheld⟩
      rw [← List.take_append_drop n (o.cache.data.erase key).keys, List.mem_append] at hmem
      have hfront := hmem.resolve_right fun hc => hgone (.inl hc)
      -- what is gone stood before what is left, so it was used before it
      have horder : Recency.InOrder o.history (o.cache.data.erase key).keys := by
        rw [Dict.keys_erase]
        exact h.order.sublist List.erase_sublist
      rw [← List.take_append_drop n (o.cache.data.erase key).keys] at horder
      have hbefore := (List.pairwise_append.1 horder).2.2 evicted hfront other hkept
      exact Recency.notMem_since_of_mem hbefore hsince

/-- Sound, and no value older than the last that was set. -/
def Fresh (o : Observed) : Prop := o.Sound ∧ ReturnsLatest o

theorem Fresh.keepsPromises (h : o.Fresh) : KeepsPromises o := ⟨h.1.accounted, h.2, h.1.evicts⟩

theorem returnsLatest_iff : ReturnsLatest o ↔ ∀ key value, o.cache.data.get? key = some value →
    o.lastSet key = some value := by
  apply forall_congr'
  intro key
  rw [get_fst]
  cases o.cache.data.get? key with
  | none => simp
  | some value => simp [eq_comm]

theorem Fresh.returnsLatest_step (h : o.Fresh) (c : Call) : ReturnsLatest (o.step c) ↔ RefusesOnlyNew o c := by
  have hlatest := returnsLatest_iff.1 h.2
  rw [returnsLatest_iff]
  cases c with
  | get key =>
    apply iff_of_true _ trivial
    intro j value hj
    apply hlatest j value
    rw [← hj]
    simp only [Observed.step, after, BoundedLruCache.get]
    split
    · exact Dict.get?_moveToEnd.symm
    · rfl
  | clear =>
    apply iff_of_true _ trivial
    intro j value hj
    cases hj
  | set key value =>
    by_cases hlarge : o.cache.maxBytes < value.length
    · have hsame : (o.step (.set key value)).cache = o.cache := set_of_lt hlarge
      rw [hsame]
      constructor
      · intro hall _ hheld
        obtain ⟨old, hold⟩ := Option.isSome_iff_exists.1 (Dict.mem_keys_iff.1 hheld)
        have hsame := hall key old hold
        simp only [Observed.step, Function.update_self, Option.some.injEq] at hsame
        -- the value held is no longer than the cache
        have htotal := h.1.tallied.total
        rw [Dict.total_eq_add_erase List.length hold] at htotal
        have hbounded := h.1.bounded
        rw [hsame] at hlarge
        omega
      · intro hnew j old hj
        have hne : j ≠ key := by
          intro hc
          exact hnew hlarge (hc ▸ Dict.mem_keys_of_get? hj)
        simp only [Observed.step, Function.update_of_ne hne]
        exact hlatest j old hj
    · apply iff_of_true _ fun hc => absurd hc hlarge
      intro j old hj
      cases (set_spec key h.1.tallied (Nat.le_of_not_lt hlarge)).2.2.2 with
      | intro n hn =>
        have hmem := Dict.get?_eq_some_iff.1 hj
        simp only [Observed.step, after, hn, List.mem_append, List.mem_singleton, Prod.mk.injEq] at hmem
        cases hmem with
        | inl hmem =>
          have hold := Dict.get?_eq_some_iff.2 (List.drop_subset _ _ hmem)
          rw [Dict.get?_erase] at hold
          split at hold
          · cases hold
          · next hne =>
            simp only [Observed.step, Function.update_of_ne (Ne.symm hne)]
            exact hlatest j old hold
        | inr hmem => simp [Observed.step, hmem.1, hmem.2]

end Observed

/-- For every limit and every sequence of calls, the cache keeps its promises after each part of the run if and only if
no call refuses a value whose key is held. -/
theorem keepsPromises_iff (maxBytes : Nat) (calls : List Call) :
    (∀ pre, pre <+: calls → KeepsPromises (pre.foldl Observed.step (.start maxBytes))) ↔
      StepsMeet Observed.step RefusesOnlyNew (.start maxBytes) calls := by
  have hfresh : (Observed.start maxBytes).Fresh := ⟨.start maxBytes, fun key => .inl rfl⟩
  apply forall_prefix_iff_stepsMeet_of_carried (K := Observed.Fresh)
  · exact fun o h => h.keepsPromises
  · exact fun o c h hmeets => ⟨h.1.step c, (h.returnsLatest_step c).2 hmeets⟩
  · intro o c h
    constructor
    · exact fun hkeeps => (h.returnsLatest_step c).1 hkeeps.latest
    · exact fun hmeets => Observed.Fresh.keepsPromises ⟨h.1.step c, (h.returnsLatest_step c).2 hmeets⟩
  · exact hfresh

/-- In a cache of three bytes a key keeps its value when a value of four bytes is set for it. -/
theorem not_keepsPromises : ¬ ∀ pre, pre <+: [Call.set "k" [97], .set "k" [98, 98, 98, 98]] →
    KeepsPromises (pre.foldl Observed.step (.start 3)) := by
  intro h
  have hlatest := (h _ (List.prefix_refl _)).latest "k"
  revert hlatest
  decide

end BoundedLruCache

end Hledac.Knowledge
