import Mathlib.Algebra.Ring.Int.Defs
import Hledac.Utils.LruCache

/-!
# The lists of the adaptive cache

`_ARC` keeps the keys of a cache in two lists, and the keys that have left them in two ghost lists; all
four are LRU caches. `utils/cache/_adaptive.py:114-224`.
-/

namespace Hledac.Utils

open Hledac.Lib

/-! ### Caches that mirror a list -/

namespace LRUCache

variable {K V : Type} [DecidableEq K] {cap : Nat}

/-- The cache mirrors a list of at most `cap` entries. -/
def Valid (s : LRUCache K V) (cap : Nat) : Prop := ∃ c : FifoCache K V cap, s.Mirrors c

variable {s : LRUCache K V} {key : K} {value : V}

theorem valid_new (h : 0 < cap) : ({ maxSize := cap } : LRUCache K V).Valid cap := ⟨_, mirrors_new h⟩

theorem Valid.setItem (h : s.Valid cap) (key : K) (value : V) :
    ∃ s', s.setItem key value = (.ok (), s') ∧ s'.Valid cap := by
  obtain ⟨c, hc⟩ := h
  obtain ⟨s', hs', hset⟩ := setItem_spec hc key value
  exact ⟨s', hset, _, hs'⟩

theorem Valid.setItem_of_lt (h : s.Valid cap) (hlt : s.data.size < cap) (key : K) (value : V) :
    ∃ s', s.setItem key value = (.ok (), s') ∧ s'.Valid cap ∧ s'.data = s.data.insert key value := by
  obtain ⟨s', hset, hs'⟩ := h.setItem key value
  obtain ⟨c, hc⟩ := h
  have hdata : (s.setItem key value).2.data = s.data.insert key value := by
    apply data_setItem
    rw [hc.maxSize]
    exact .inr hlt
  rw [hset] at hdata
  exact ⟨s', hset, hs', hdata⟩

theorem Valid.popLru (h : s.Valid cap) (hpos : 0 < s.data.size) :
    ∃ key value s', s.popLru = (.ok (key, value), s') ∧ s'.Valid cap ∧ key ∈ s.data.keys ∧
      s'.data = s.data.erase key := by
  obtain ⟨c, hc⟩ := h
  have hpop := popLru_spec hc
  cases he : c.entries.head? with
  | none =>
    rw [List.head?_eq_none_iff] at he
    rw [hc.size_eq, he] at hpos
    cases hpos
  | some e =>
    rw [he] at hpop
    obtain ⟨s', hs', hpopped⟩ := hpop
    refine ⟨e.1, e.2, s', hpopped, ⟨_, hs'⟩, ?_⟩
    rw [LRUCache.popLru] at hpopped
    split at hpopped
    · cases hpopped
    · rw [evicted] at hpopped
      split at hpopped
      · cases hpopped
      · next hget =>
        cases hpopped
        exact ⟨Dict.mem_keys_of_get? hget, rfl⟩

theorem Valid.pop (h : s.Valid cap) (key : K) :
    (s.pop key none).2.Valid cap ∧ (s.pop key none).2.data = s.data.erase key := by
  obtain ⟨c, hc⟩ := h
  refine ⟨⟨_, (pop_spec hc key none).2⟩, ?_⟩
  rw [LRUCache.pop]
  cases hget : s.data.get? key with
  | none => exact (Dict.erase_of_notMem (Dict.notMem_keys_iff.2 hget)).symm
  | some _ => rfl

theorem Valid.moveToEnd (h : s.Valid cap) (key : K) : (s.moveToEnd key).Valid cap := by
  obtain ⟨c, hc⟩ := h
  exact ⟨_, mirrors_moveToEnd hc key⟩

theorem Valid.clear (h : s.Valid cap) : s.clear.Valid cap := by
  obtain ⟨c, hc⟩ := h
  exact ⟨_, hc.step .clear⟩

theorem length_order_popLru {s s' : LRUCache K V} {e : K × V} (h : s.popLru = (.ok e, s')) :
    s'.order.order.length + 1 = s.order.order.length := by
  rw [LRUCache.popLru, OrderTracker.popLru] at h
  cases horder : s.order.order with
  | nil =>
    rw [horder] at h
    cases h
  | cons key rest =>
    rw [horder] at h
    simp only [evicted] at h
    split at h
    · cases h
    · cases h
      rfl

end LRUCache

/-! ### The four lists -/

/-- `_ARC`; lines 131-157. -/
structure ARC where
  maxEntries : Nat
  maxSizeBytes : ℤ
  t1 : LRUCache String Unit := { maxSize := maxEntries }
  t2 : LRUCache String Unit := { maxSize := maxEntries }
  b1 : LRUCache String Unit := { maxSize := maxEntries }
  b2 : LRUCache String Unit := { maxSize := maxEntries }
  keyToSize : Dict String ℤ := .empty
  currentEntries : ℤ := 0
  currentBytes : ℤ := 0

namespace ARC

/-- `__contains__`; lines 159-161. -/
def Holds (a : ARC) (key : String) : Prop := key ∈ a.t1.data.keys ∨ key ∈ a.t2.data.keys

instance (a : ARC) (key : String) : Decidable (a.Holds key) := inferInstanceAs (Decidable (_ ∨ _))

/-- A key comes to `T2`, with what it adds to the counts. -/
def promote (a : ARC) (key : String) (size entries bytes : ℤ) :
    Except (CacheError String) Unit × ARC :=
  match a.t2.setItem key () with
  | (.error e, t2) => (.error e, { a with t2 := t2 })
  | (.ok _, t2) => (.ok (), { a with
      t2 := t2
      keyToSize := a.keyToSize.insert key size
      currentEntries := a.currentEntries + entries
      currentBytes := a.currentBytes + bytes })

/-- `on_access`; lines 163-182. -/
def onAccess (a : ARC) (key : String) (size : ℤ) : Except (CacheError String) Unit × ARC :=
  if key ∈ a.t1.data.keys then { a with t1 := (a.t1.pop key none).2 }.promote key size 0 0
  else if key ∈ a.t2.data.keys then (.ok (), { a with t2 := a.t2.moveToEnd key })
  else if key ∈ a.b1.data.keys then { a with b1 := (a.b1.pop key none).2 }.promote key size 1 size
  else if key ∈ a.b2.data.keys then { a with b2 := (a.b2.pop key none).2 }.promote key size 1 size
  else (.ok (), a)

/-- The counts without a key that has left `T1` or `T2`. -/
def forget (a : ARC) (key : String) : ARC :=
  { a with
    currentEntries := a.currentEntries - 1
    currentBytes := a.currentBytes - (a.keyToSize.get? key).getD 0
    keyToSize := a.keyToSize.erase key }

/-- `evict_one`; lines 184-203. -/
def evictOne (a : ARC) : Except (CacheError String) (Option String) × ARC :=
  if a.t2.length < a.t1.length ∧ 0 < a.t1.length then
    match a.t1.popLru with
    | (.error e, t1) => (.error e, { a with t1 := t1 })
    | (.ok (key, _), t1) =>
      match a.b1.setItem key () with
      | (.error e, b1) => (.error e, { a with t1 := t1, b1 := b1 })
      | (.ok _, b1) => (.ok (some key), { a with t1 := t1, b1 := b1 }.forget key)
  else if 0 < a.t2.length then
    match a.t2.popLru with
    | (.error e, t2) => (.error e, { a with t2 := t2 })
    | (.ok (key, _), t2) =>
      match a.b2.setItem key () with
      | (.error e, b2) => (.error e, { a with t2 := t2, b2 := b2 })
      | (.ok _, b2) => (.ok (some key), { a with t2 := t2, b2 := b2 }.forget key)
  else if 0 < a.t1.length then
    match a.t1.popLru with
    | (.error e, t1) => (.error e, { a with t1 := t1 })
    | (.ok (key, _), t1) => (.ok (some key), { a with t1 := t1 }.forget key)
  else (.ok none, a)

/-- `on_set`; lines 205-219. -/
def onSet (a : ARC) (key : String) (size : ℤ) : Except (CacheError String) Unit × ARC :=
  if a.Holds key then (.ok (), a)
  else if key ∈ a.b1.data.keys then { a with b1 := (a.b1.pop key none).2 }.promote key size 0 size
  else if key ∈ a.b2.data.keys then { a with b2 := (a.b2.pop key none).2 }.promote key size 0 size
  else
    match a.t1.setItem key () with
    | (.error e, t1) => (.error e, { a with t1 := t1 })
    | (.ok _, t1) => (.ok (), { a with
        t1 := t1
        keyToSize := a.keyToSize.insert key size
        currentEntries := a.currentEntries + 1
        currentBytes := a.currentBytes + size })

/-- `clear`; lines 221-229. -/
def clear (a : ARC) : ARC :=
  { a with
    t1 := a.t1.clear
    t2 := a.t2.clear
    b1 := a.b1.clear
    b2 := a.b2.clear
    keyToSize := .empty
    currentEntries := 0
    currentBytes := 0 }

/-- What is left to evict, counted along the orders. -/
def orderLength (a : ARC) : Nat := a.t1.order.order.length + a.t2.order.order.length

/-- An eviction shortens an order, raises, or changes nothing. -/
theorem evictOne_cases (a : ARC) :
    (∃ e, a.evictOne = (.error e, a.evictOne.2)) ∨ a.evictOne = (.ok none, a) ∨
      ∃ key, a.evictOne = (.ok (some key), a.evictOne.2) ∧
        a.evictOne.2.orderLength + 1 = a.orderLength := by
  rw [ARC.evictOne]
  split
  · cases hpop : a.t1.popLru with
    | mk result t1 =>
      cases result with
      | error e => exact .inl ⟨e, rfl⟩
      | ok entry =>
        have hlength := LRUCache.length_order_popLru hpop
        simp only
        cases hset : a.b1.setItem entry.1 () with
        | mk done b1 =>
          cases done with
          | error e => exact .inl ⟨e, rfl⟩
          | ok _ =>
            refine .inr (.inr ⟨entry.1, rfl, ?_⟩)
            show t1.order.order.length + a.t2.order.order.length + 1 =
              a.t1.order.order.length + a.t2.order.order.length
            omega
  · split
    · cases hpop : a.t2.popLru with
      | mk result t2 =>
        cases result with
        | error e => exact .inl ⟨e, rfl⟩
        | ok entry =>
          have hlength := LRUCache.length_order_popLru hpop
          simp only
          cases hset : a.b2.setItem entry.1 () with
          | mk done b2 =>
            cases done with
            | error e => exact .inl ⟨e, rfl⟩
            | ok _ =>
              refine .inr (.inr ⟨entry.1, rfl, ?_⟩)
              show a.t1.order.order.length + t2.order.order.length + 1 =
                a.t1.order.order.length + a.t2.order.order.length
              omega
    · split
      · cases hpop : a.t1.popLru with
        | mk result t1 =>
          cases result with
          | error e => exact .inl ⟨e, rfl⟩
          | ok entry =>
            have hlength := LRUCache.length_order_popLru hpop
            refine .inr (.inr ⟨entry.1, rfl, ?_⟩)
            show t1.order.order.length + a.t2.order.order.length + 1 =
              a.t1.order.order.length + a.t2.order.order.length
            omega
      · exact .inr (.inl rfl)

/-! ### The operations on valid lists -/

/-- The lists mirror lists of at most `cap` keys, and no key is in both `T1` and `T2`. -/
structure Valid (a : ARC) (cap : Nat) : Prop where
  t1 : a.t1.Valid cap
  t2 : a.t2.Valid cap
  b1 : a.b1.Valid cap
  b2 : a.b2.Valid cap
  apart : ∀ key ∈ a.t1.data.keys, key ∉ a.t2.data.keys

section Spec

variable {a : ARC} {cap : Nat} {key : String}

theorem valid_new (h : 0 < cap) (maxSizeBytes : ℤ) :
    ({ maxEntries := cap, maxSizeBytes := maxSizeBytes } : ARC).Valid cap where
  t1 := LRUCache.valid_new h
  t2 := LRUCache.valid_new h
  b1 := LRUCache.valid_new h
  b2 := LRUCache.valid_new h
  apart _ hk := absurd hk List.not_mem_nil

theorem Valid.clear (h : a.Valid cap) : a.clear.Valid cap where
  t1 := h.t1.clear
  t2 := h.t2.clear
  b1 := h.b1.clear
  b2 := h.b2.clear
  apart _ hk := absurd hk List.not_mem_nil

theorem not_holds_clear (a : ARC) (key : String) : ¬ a.clear.Holds key := by
  rw [Holds, not_or]
  exact ⟨List.not_mem_nil, List.not_mem_nil⟩

theorem Valid.size_eq (h : a.Valid cap) {V : Type} {d : Dict String V}
    (hkeys : ∀ key, a.Holds key ↔ key ∈ d.keys) : d.size = a.t1.data.size + a.t2.data.size := by
  have hnodup : (a.t1.data.keys ++ a.t2.data.keys).Nodup := by
    rw [List.nodup_append]
    refine ⟨a.t1.data.nodup, a.t2.data.nodup, ?_⟩
    intro x hx y hy hxy
    exact h.apart x hx (hxy ▸ hy)
  rw [Dict.size_eq_length hnodup, List.length_append, Dict.length_keys, Dict.length_keys]
  intro k
  rw [List.mem_append, ← hkeys]
  rfl

theorem Valid.promote (h : a.Valid cap) (hnew : ¬ a.Holds key) (hroom : a.t2.data.size < cap)
    (size entries bytes : ℤ) :
    ∃ a', a.promote key size entries bytes = (.ok (), a') ∧ a'.Valid cap ∧
      (∀ k, a'.Holds k ↔ k = key ∨ a.Holds k) ∧ a'.keyToSize = a.keyToSize.insert key size ∧
        a'.currentBytes = a.currentBytes + bytes := by
  obtain ⟨t2, hset, ht2, hdata⟩ := h.t2.setItem_of_lt hroom key ()
  rw [Holds, not_or] at hnew
  rw [ARC.promote, hset]
  refine ⟨_, rfl, ⟨h.t1, ht2, h.b1, h.b2, ?_⟩, ?_, rfl, rfl⟩
  · intro k hk
    rw [hdata, Dict.mem_keys_insert, not_or]
    refine ⟨?_, h.apart k hk⟩
    rintro rfl
    exact hnew.1 hk
  · intro k
    rw [Holds, Holds, hdata, Dict.mem_keys_insert]
    tauto

theorem onSet_of_holds (h : a.Holds key) (size : ℤ) : a.onSet key size = (.ok (), a) := if_pos h

theorem Valid.onSet (h : a.Valid cap) (hnew : ¬ a.Holds key)
    (hroom : a.t1.data.size + a.t2.data.size < cap) (size : ℤ) :
    ∃ a', a.onSet key size = (.ok (), a') ∧ a'.Valid cap ∧
      (∀ k, a'.Holds k ↔ k = key ∨ a.Holds k) ∧ a'.keyToSize = a.keyToSize.insert key size ∧
        a'.currentBytes = a.currentBytes + size := by
  rw [ARC.onSet, if_neg hnew]
  split
  · have hpopped : ({ a with b1 := (a.b1.pop key none).2 } : ARC).Valid cap :=
      ⟨h.t1, h.t2, (h.b1.pop key).1, h.b2, h.apart⟩
    exact hpopped.promote hnew (show a.t2.data.size < cap by omega) size 0 size
  · split
    · have hpopped : ({ a with b2 := (a.b2.pop key none).2 } : ARC).Valid cap :=
        ⟨h.t1, h.t2, h.b1, (h.b2.pop key).1, h.apart⟩
      exact hpopped.promote hnew (show a.t2.data.size < cap by omega) size 0 size
    · obtain ⟨t1, hset, ht1, hdata⟩ := h.t1.setItem_of_lt (by omega) key ()
      rw [Holds, not_or] at hnew
      rw [hset]
      refine ⟨_, rfl, ⟨ht1, h.t2, h.b1, h.b2, ?_⟩, ?_, rfl, rfl⟩
      · intro k hk
        rw [hdata, Dict.mem_keys_insert] at hk
        cases hk with
        | inl hk => rw [hk]; exact hnew.2
        | inr hk => exact h.apart k hk
      · intro k
        rw [Holds, Holds, hdata, Dict.mem_keys_insert]
        tauto

/-- A hit moves a key between the lists. -/
theorem Valid.onAccess (h : a.Valid cap) (hheld : a.Holds key)
    (hroom : a.t1.data.size + a.t2.data.size ≤ cap) (size : ℤ) :
    ∃ a', a.onAccess key size = (.ok (), a') ∧ a'.Valid cap ∧ (∀ k, a'.Holds k ↔ a.Holds k) ∧
      (∀ k, a'.keyToSize.get? k = a.keyToSize.get? k ∨ key = k ∧ a'.keyToSize.get? k = some size) ∧
        a'.currentBytes = a.currentBytes := by
  rw [ARC.onAccess]
  split
  · next ht1 =>
    obtain ⟨hvalid, hdata⟩ := h.t1.pop key
    have hgone : ∀ k ∈ (a.t1.pop key none).2.data.keys, k ∈ a.t1.data.keys := by
      intro k hk
      rw [hdata, Dict.mem_keys_erase] at hk
      exact hk.2
    have hpopped : ({ a with t1 := (a.t1.pop key none).2 } : ARC).Valid cap :=
      ⟨hvalid, h.t2, h.b1, h.b2, fun k hk => h.apart k (hgone k hk)⟩
    have hnew : ¬ ({ a with t1 := (a.t1.pop key none).2 } : ARC).Holds key := by
      rw [Holds, not_or, hdata, Dict.mem_keys_erase]
      exact ⟨fun hc => hc.1 rfl, h.apart key ht1⟩
    have hpos : 0 < a.t1.data.size := by
      rw [← Dict.length_keys]
      exact List.length_pos_of_mem ht1
    obtain ⟨a', hpromote, hvalid', hholds, hsizes, hbytes⟩ :=
      hpopped.promote hnew (show a.t2.data.size < cap by omega) size 0 0
    refine ⟨a', hpromote, hvalid', ?_, ?_, ?_⟩
    · intro k
      rw [hholds, Holds, Holds, hdata, Dict.mem_keys_erase]
      by_cases hk : k = key
      · subst hk
        exact iff_of_true (.inl rfl) (.inl ht1)
      · tauto
    · intro k
      rw [hsizes, Dict.get?_insert]
      split
      · next hk => exact .inr ⟨hk, rfl⟩
      · exact .inl rfl
    · rw [hbytes]
      exact Int.add_zero _
  · next ht1 =>
    have ht2 := hheld.resolve_left ht1
    rw [if_pos ht2]
    exact ⟨_, rfl, ⟨h.t1, h.t2.moveToEnd key, h.b1, h.b2, h.apart⟩, fun _ => Iff.rfl, fun _ => .inl rfl,
      rfl⟩

/-- An eviction takes a key that is held, where there is one. -/
theorem Valid.evictOne (h : a.Valid cap) (hheld : ∃ key, a.Holds key) :
    ∃ key a', a.evictOne = (.ok (some key), a') ∧ a'.Valid cap ∧ a.Holds key ∧
      (∀ k, a'.Holds k ↔ k ≠ key ∧ a.Holds k) ∧ a'.keyToSize = a.keyToSize.erase key ∧
        a'.currentBytes = a.currentBytes - (a.keyToSize.get? key).getD 0 := by
  rw [ARC.evictOne]
  split
  · next hlonger =>
    obtain ⟨key, _, t1, hpop, ht1, hmem, hdata⟩ := h.t1.popLru hlonger.2
    obtain ⟨b1, hset, hb1⟩ := h.b1.setItem key ()
    rw [hpop]
    simp only
    rw [hset]
    refine ⟨key, _, rfl, ⟨ht1, h.t2, hb1, h.b2, ?_⟩, .inl hmem, ?_, rfl, rfl⟩
    · intro k hk
      have hk' : k ∈ t1.data.keys := hk
      rw [hdata, Dict.mem_keys_erase] at hk'
      exact h.apart k hk'.2
    · intro k
      show k ∈ t1.data.keys ∨ k ∈ a.t2.data.keys ↔ _
      rw [Holds, hdata, Dict.mem_keys_erase]
      have hother : k = key → k ∉ a.t2.data.keys := fun hk => hk ▸ h.apart key hmem
      tauto
  · next hshorter =>
    split
    · next hpos =>
      obtain ⟨key, _, t2, hpop, ht2, hmem, hdata⟩ := h.t2.popLru hpos
      obtain ⟨b2, hset, hb2⟩ := h.b2.setItem key ()
      rw [hpop]
      simp only
      rw [hset]
      refine ⟨key, _, rfl, ⟨h.t1, ht2, h.b1, hb2, ?_⟩, .inr hmem, ?_, rfl, rfl⟩
      · intro k hk
        show k ∉ t2.data.keys
        rw [hdata, Dict.mem_keys_erase]
        exact fun hc => h.apart k hk hc.2
      · intro k
        show k ∈ a.t1.data.keys ∨ k ∈ t2.data.keys ↔ _
        rw [Holds, hdata, Dict.mem_keys_erase]
        have hother : k = key → k ∉ a.t1.data.keys := fun hk hc => h.apart k hc (hk ▸ hmem)
        tauto
    · next hempty =>
      -- nothing is held
      obtain ⟨key, hkey⟩ := hheld
      exfalso
      cases hkey with
      | inl hmem =>
        have hpos : 0 < a.t1.length := by
          rw [LRUCache.length, ← Dict.length_keys]
          exact List.length_pos_of_mem hmem
        omega
      | inr hmem =>
        apply hempty
        rw [LRUCache.length, ← Dict.length_keys]
        exact List.length_pos_of_mem hmem

end Spec

end ARC

end Hledac.Utils
