import Mathlib.Algebra.Order.Field.Rat
import Mathlib.Data.List.MinMax
import Hledac.Lib.Dict
import Hledac.Lib.Machine

/-!
# The federated Q-table

`FederatedQTable` keeps a Q-value for each state and action it has seen, and an index with the highest of
each state. An update raises the index, an eviction lowers it, but nothing lowers it when a Q-value falls.
Q-values are rational numbers, and states of any type with equality.
-/

namespace Hledac.Federated

open Hledac.Lib

variable {S : Type*} [DecidableEq S]

/-- `FederatedQTable`; `federated/qtable.py:38-58`. -/
structure FederatedQTable (S : Type*) where
  alpha : ℚ
  gamma : ℚ
  maxEntries : Nat
  q : Dict (S × String) ℚ := .empty
  maxQPerState : Dict S ℚ := .empty

/-- The arguments of `update`. -/
structure Update (S : Type*) where
  state : S
  action : String
  reward : ℚ
  nextState : S

namespace FederatedQTable

/-- `__init__`; lines 52-58. -/
def new (alpha gamma : ℚ) (maxEntries : Int) : FederatedQTable S where
  alpha := alpha
  gamma := gamma
  maxEntries := (max 1 maxEntries).toNat

/-- `get_q`; lines 60-66. -/
def getQ (t : FederatedQTable S) (state : S) (action : String) : ℚ := (t.q.get? (state, action)).getD 0

/-- The loop of `get_best_action` over the actions after the first. -/
def betterAction (t : FederatedQTable S) (state : S) : String → List String → String
  | best, [] => best
  | best, a :: rest => betterAction t state (if t.getQ state best < t.getQ state a then a else best) rest

/-- `get_best_action`; lines 68-83. -/
def getBestAction (t : FederatedQTable S) (state : S) : List String → String
  | [] => ""
  | a :: rest => t.betterAction state a rest

/-- `next_max_q` of a state, read from the index. -/
def nextMaxQ (t : FederatedQTable S) (state : S) : ℚ := (t.maxQPerState.get? state).getD 0

/-- `new_q` of an update; lines 95-99. -/
def newQ (t : FederatedQTable S) (u : Update S) : ℚ :=
  t.getQ u.state u.action +
    t.alpha * (u.reward + t.gamma * t.nextMaxQ u.nextState - t.getQ u.state u.action)

/-- The Q-values of a state. -/
def stateQs (q : Dict (S × String) ℚ) (state : S) : List ℚ :=
  (q.entries.filter fun e => decide (e.1.1 = state)).map Prod.snd

/-- The key of the lowest Q-value, the first of them. -/
def minKey (q : Dict (S × String) ℚ) : Option (S × String) := q.keys.argmin fun k => (q.get? k).getD 0

/-- `_evict_lowest`; lines 108-125. -/
def evictLowest (t : FederatedQTable S) : FederatedQTable S :=
  match minKey t.q with
  | none => t
  | some key =>
    { t with
      q := t.q.erase key
      maxQPerState :=
        if key.1 ∈ t.maxQPerState.keys then
          match (stateQs (t.q.erase key) key.1).max? with
          | some highest => t.maxQPerState.insert key.1 highest
          | none => t.maxQPerState.erase key.1
        else t.maxQPerState }

/-- The table with the new Q-value, before an eviction; lines 100-103. -/
def assign (t : FederatedQTable S) (u : Update S) : FederatedQTable S :=
  { t with
    q := t.q.insert (u.state, u.action) (t.newQ u)
    maxQPerState :=
      if t.nextMaxQ u.state < t.newQ u then t.maxQPerState.insert u.state (t.newQ u) else t.maxQPerState }

/-- `update`; lines 85-106. -/
def update (t : FederatedQTable S) (u : Update S) : FederatedQTable S :=
  if t.maxEntries < (t.assign u).q.size then (t.assign u).evictLowest else t.assign u

end FederatedQTable

open FederatedQTable

/-! ### What the scan gives -/

/-- The highest Q-value of a state, or zero, by a scan over all entries. -/
def scanMaxQ (q : Dict (S × String) ℚ) (state : S) : ℚ := (stateQs q state).foldr max 0

section Scan

variable {q : Dict (S × String) ℚ} {state other : S} {action : String} {v x : ℚ}

theorem mem_stateQs : v ∈ stateQs q state ↔ ∃ action, q.get? (state, action) = some v := by
  rw [stateQs, List.mem_map]
  constructor
  · intro ⟨⟨⟨s, a⟩, w⟩, he, hv⟩
    rw [List.mem_filter, decide_eq_true_iff] at he
    obtain ⟨hmem, rfl⟩ := he
    exact ⟨a, Dict.get?_eq_some_iff.2 (hv ▸ hmem)⟩
  · intro ⟨a, ha⟩
    exact ⟨((state, a), v), List.mem_filter.2 ⟨Dict.get?_eq_some_iff.1 ha, decide_eq_true rfl⟩, rfl⟩

theorem le_foldr_max_iff {l : List ℚ} : x ≤ l.foldr max 0 ↔ x ≤ 0 ∨ ∃ v ∈ l, x ≤ v := by
  induction l with
  | nil => simp
  | cons v rest ih =>
    rw [List.foldr_cons, le_max_iff, ih, List.exists_mem_cons_iff, or_left_comm]

theorem foldr_max_le_iff {l : List ℚ} : l.foldr max 0 ≤ x ↔ 0 ≤ x ∧ ∀ v ∈ l, v ≤ x := by
  induction l with
  | nil => simp
  | cons v rest ih => rw [List.foldr_cons, max_le_iff, ih, List.forall_mem_cons, and_left_comm]

theorem le_scanMaxQ_iff : x ≤ scanMaxQ q state ↔ x ≤ 0 ∨ ∃ action v, q.get? (state, action) = some v ∧ x ≤ v := by
  rw [scanMaxQ, le_foldr_max_iff]
  apply or_congr_right
  constructor
  · intro ⟨v, hv, hx⟩
    obtain ⟨action, haction⟩ := mem_stateQs.1 hv
    exact ⟨action, v, haction, hx⟩
  · intro ⟨action, v, haction, hx⟩
    exact ⟨v, mem_stateQs.2 ⟨action, haction⟩, hx⟩

theorem scanMaxQ_le_iff : scanMaxQ q state ≤ x ↔ 0 ≤ x ∧ ∀ action v, q.get? (state, action) = some v → v ≤ x := by
  rw [scanMaxQ, foldr_max_le_iff]
  apply and_congr_right
  intro _
  constructor
  · exact fun h action v hv => h v (mem_stateQs.2 ⟨action, hv⟩)
  · intro h v hv
    obtain ⟨action, haction⟩ := mem_stateQs.1 hv
    exact h action v haction

theorem scanMaxQ_nonneg : 0 ≤ scanMaxQ q state := le_scanMaxQ_iff.2 (Or.inl le_rfl)

theorem le_scanMaxQ (h : q.get? (state, action) = some v) : v ≤ scanMaxQ q state :=
  le_scanMaxQ_iff.2 (Or.inr ⟨action, v, h, le_rfl⟩)

theorem exists_of_scanMaxQ_pos (h : 0 < scanMaxQ q state) :
    ∃ action, q.get? (state, action) = some (scanMaxQ q state) := by
  rcases le_scanMaxQ_iff.1 (le_refl (scanMaxQ q state)) with hle | ⟨action, v, hv, hle⟩
  · exact absurd h (not_lt.2 hle)
  · exact ⟨action, hv.trans (congrArg some (le_antisymm (le_scanMaxQ hv) hle))⟩

theorem scanMaxQ_congr {q' : Dict (S × String) ℚ} (h : ∀ action, q.get? (state, action) = q'.get? (state, action)) :
    scanMaxQ q state = scanMaxQ q' state := by
  apply eq_of_forall_ge_iff
  intro x
  simp only [scanMaxQ_le_iff, h]

end Scan

/-! ### The index and the scan -/

/-- The index gives what the scan gives. -/
def Indexed (t : FederatedQTable S) : Prop := ∀ state, t.nextMaxQ state = scanMaxQ t.q state

/-- The update does not lower a positive Q-value that no other action of the state reaches. -/
def KeepsMax (t : FederatedQTable S) (u : Update S) : Prop :=
  t.getQ u.state u.action ≤ 0 ∨ t.getQ u.state u.action ≤ t.newQ u ∨
    ∃ action ≠ u.action, t.getQ u.state u.action ≤ t.getQ u.state action

/-- The index gives what the scan gives, and has only states with a positive Q-value. -/
structure Sound (t : FederatedQTable S) : Prop where
  indexed : Indexed t
  pos : ∀ state highest, t.maxQPerState.get? state = some highest → 0 < highest

section Spec

variable {t : FederatedQTable S} {u : Update S} {state : S} {k : S × String} {v : ℚ}

theorem sound_new (alpha gamma : ℚ) (maxEntries : Int) : Sound (new alpha gamma maxEntries : FederatedQTable S) where
  indexed _ := rfl
  pos _ _ h := by cases h

theorem Sound.nextMaxQ_nonneg (h : Sound t) (state : S) : 0 ≤ t.nextMaxQ state := h.indexed state ▸ scanMaxQ_nonneg

theorem getQ_le_scanMaxQ (t : FederatedQTable S) (state : S) (action : String) :
    t.getQ state action ≤ scanMaxQ t.q state := by
  rw [getQ]
  cases hget : t.q.get? (state, action) with
  | none => exact scanMaxQ_nonneg
  | some v => exact le_scanMaxQ hget

theorem nextMaxQ_assign (t : FederatedQTable S) (u : Update S) (state : S) :
    (t.assign u).nextMaxQ state =
      if u.state = state then max (t.nextMaxQ state) (t.newQ u) else t.nextMaxQ state := by
  rw [nextMaxQ, assign]
  by_cases hlt : t.nextMaxQ u.state < t.newQ u
  · simp only [if_pos hlt, Dict.get?_insert]
    by_cases hstate : u.state = state
    · rw [if_pos hstate, if_pos hstate, ← hstate, max_eq_right hlt.le]
      rfl
    · rw [if_neg hstate, if_neg hstate]
      rfl
  · simp only [if_neg hlt]
    by_cases hstate : u.state = state
    · rw [if_pos hstate, ← hstate, max_eq_left (not_lt.1 hlt)]
      rfl
    · rw [if_neg hstate]
      rfl

theorem scanMaxQ_assign_of_ne (h : u.state ≠ state) : scanMaxQ (t.assign u).q state = scanMaxQ t.q state := by
  apply scanMaxQ_congr
  intro action
  apply Dict.get?_insert_of_ne
  intro heq
  exact h (congrArg Prod.fst heq)

theorem le_scanMaxQ_assign {x : ℚ} :
    x ≤ scanMaxQ (t.assign u).q u.state ↔
      x ≤ 0 ∨ x ≤ t.newQ u ∨ ∃ action ≠ u.action, x ≤ t.getQ u.state action := by
  have hget : ∀ action, (t.assign u).q.get? (u.state, action) =
      if u.action = action then some (t.newQ u) else t.q.get? (u.state, action) := by
    intro action
    show (t.q.insert (u.state, u.action) (t.newQ u)).get? (u.state, action) = _
    simp only [Dict.get?_insert, Prod.mk.injEq, true_and]
  rw [le_scanMaxQ_iff]
  simp only [hget]
  constructor
  · rintro (hx | ⟨action, v, hv, hx⟩)
    · exact Or.inl hx
    · by_cases haction : u.action = action
      · rw [if_pos haction] at hv
        exact Or.inr (Or.inl (Option.some.inj hv ▸ hx))
      · rw [if_neg haction] at hv
        refine Or.inr (Or.inr ⟨action, Ne.symm haction, ?_⟩)
        rw [getQ, hv]
        exact hx
  · rintro (hx | hx | ⟨action, haction, hx⟩)
    · exact Or.inl hx
    · exact Or.inr ⟨u.action, t.newQ u, if_pos rfl, hx⟩
    · rw [getQ] at hx
      cases hv : t.q.get? (u.state, action) with
      | none =>
        rw [hv] at hx
        exact Or.inl hx
      | some v =>
        rw [hv] at hx
        exact Or.inr ⟨action, v, (if_neg (Ne.symm haction)).trans hv, hx⟩

theorem Sound.indexed_assign_iff (h : Sound t) : Indexed (t.assign u) ↔ KeepsMax t u := by
  have hle : scanMaxQ (t.assign u).q u.state ≤ max (scanMaxQ t.q u.state) (t.newQ u) := by
    rcases le_scanMaxQ_assign.1 (le_refl (scanMaxQ (t.assign u).q u.state)) with hx | hx | ⟨action, -, hx⟩
    · exact hx.trans (scanMaxQ_nonneg.trans (le_max_left _ _))
    · exact hx.trans (le_max_right _ _)
    · exact hx.trans ((getQ_le_scanMaxQ t _ _).trans (le_max_left _ _))
  have hnew : t.newQ u ≤ scanMaxQ (t.assign u).q u.state := le_scanMaxQ_assign.2 (Or.inr (Or.inl le_rfl))
  have hstate : (t.assign u).nextMaxQ u.state = scanMaxQ (t.assign u).q u.state ↔
      t.getQ u.state u.action ≤ scanMaxQ (t.assign u).q u.state := by
    rw [nextMaxQ_assign, if_pos rfl, h.indexed u.state]
    constructor
    · intro heq
      exact ((getQ_le_scanMaxQ t _ _).trans (le_max_left _ _)).trans heq.le
    · intro hold
      refine le_antisymm (max_le ?_ hnew) hle
      rw [scanMaxQ_le_iff]
      refine ⟨scanMaxQ_nonneg, fun action v hv => ?_⟩
      have hv' : t.getQ u.state action = v := by rw [getQ, hv, Option.getD_some]
      by_cases haction : action = u.action
      · rw [← hv', haction]
        exact hold
      · rw [← hv']
        exact le_scanMaxQ_assign.2 (Or.inr (Or.inr ⟨action, haction, le_rfl⟩))
  rw [KeepsMax, ← le_scanMaxQ_assign, ← hstate]
  constructor
  · exact fun hindexed => hindexed u.state
  · intro heq state
    by_cases hne : u.state = state
    · rw [← hne, heq]
    · rw [nextMaxQ_assign, if_neg hne, scanMaxQ_assign_of_ne hne, h.indexed state]

theorem Sound.assign (h : Sound t) (hkeeps : KeepsMax t u) : Sound (t.assign u) where
  indexed := h.indexed_assign_iff.2 hkeeps
  pos := by
    intro state highest hget
    rw [FederatedQTable.assign] at hget
    by_cases hlt : t.nextMaxQ u.state < t.newQ u
    · simp only [if_pos hlt, Dict.get?_insert] at hget
      by_cases hstate : u.state = state
      · rw [if_pos hstate] at hget
        rw [← Option.some.inj hget]
        exact lt_of_le_of_lt (h.nextMaxQ_nonneg u.state) hlt
      · rw [if_neg hstate] at hget
        exact h.pos state highest hget
    · simp only [if_neg hlt] at hget
      exact h.pos state highest hget

theorem minKey_eq_some (h : minKey t.q = some k) :
    ∃ v, t.q.get? k = some v ∧ ∀ j w, t.q.get? j = some w → v ≤ w := by
  have hmem : k ∈ t.q.keys := List.argmin_mem h
  obtain ⟨v, hv⟩ := Option.isSome_iff_exists.1 (Dict.mem_keys_iff.1 hmem)
  refine ⟨v, hv, fun j w hw => ?_⟩
  have hle := List.le_of_mem_argmin (Dict.mem_keys_of_get? hw) h
  rw [hv, hw] at hle
  exact hle

theorem evictLowest_q (h : 0 < t.q.size) :
    ∃ k v, t.q.get? k = some v ∧ (∀ j w, t.q.get? j = some w → v ≤ w) ∧ t.evictLowest.q = t.q.erase k := by
  cases hmin : minKey t.q with
  | none =>
    rw [minKey, List.argmin_eq_none] at hmin
    rw [← Dict.length_keys, hmin] at h
    cases h
  | some k =>
    obtain ⟨v, hv, hlow⟩ := minKey_eq_some hmin
    exact ⟨k, v, hv, hlow, by rw [evictLowest, hmin]⟩

theorem Sound.max?_stateQs_erase (h : Sound t) (hmin : minKey t.q = some k) {highest : ℚ}
    (hindex : t.maxQPerState.get? k.1 = some highest) :
    (stateQs (t.q.erase k) k.1).max? = none ∨ (stateQs (t.q.erase k) k.1).max? = some highest := by
  obtain ⟨low, hk, hlow⟩ := minKey_eq_some hmin
  have hscan : highest = scanMaxQ t.q k.1 := by
    rw [← h.indexed k.1, nextMaxQ, hindex, Option.getD_some]
  have hpos := h.pos k.1 highest hindex
  rw [hscan] at hpos
  obtain ⟨action, haction⟩ := exists_of_scanMaxQ_pos hpos
  rw [← hscan] at haction
  cases hmax : (stateQs (t.q.erase k) k.1).max? with
  | none => exact Or.inl rfl
  | some m =>
    rw [List.max?_eq_some_iff] at hmax
    obtain ⟨a, ha⟩ := mem_stateQs.1 hmax.1
    rw [Dict.get?_erase] at ha
    by_cases hka : k = (k.1, a)
    · rw [if_pos hka] at ha
      cases ha
    · rw [if_neg hka] at ha
      have hle : m ≤ highest := by
        rw [hscan]
        exact le_scanMaxQ ha
      have hge : highest ≤ m := by
        by_cases hkey : k = (k.1, action)
        · rw [hkey, haction] at hk
          exact (Option.some.inj hk).le.trans (hlow _ m ha)
        · apply hmax.2
          exact mem_stateQs.2 ⟨action, (Dict.get?_erase_of_ne hkey).trans haction⟩
      rw [le_antisymm hle hge]
      exact Or.inr rfl

theorem scanMaxQ_erase_of_ne (h : k.1 ≠ state) : scanMaxQ (t.q.erase k) state = scanMaxQ t.q state := by
  apply scanMaxQ_congr
  intro action
  apply Dict.get?_erase_of_ne
  intro heq
  exact h (congrArg Prod.fst heq)

theorem scanMaxQ_erase_le : scanMaxQ (t.q.erase k) state ≤ scanMaxQ t.q state := by
  rw [scanMaxQ_le_iff]
  refine ⟨scanMaxQ_nonneg, fun action v hv => ?_⟩
  rw [Dict.get?_erase] at hv
  split at hv
  · cases hv
  · exact le_scanMaxQ hv

theorem Sound.get?_evictLowest (h : Sound t) (hmin : minKey t.q = some k) (state : S) :
    (t.evictLowest.maxQPerState.get? state = t.maxQPerState.get? state ∧
      t.nextMaxQ state ≤ scanMaxQ (t.q.erase k) state) ∨
    (t.evictLowest.maxQPerState.get? state = none ∧ stateQs (t.q.erase k) state = []) := by
  have hother : k.1 ≠ state → t.nextMaxQ state ≤ scanMaxQ (t.q.erase k) state := by
    intro hstate
    rw [scanMaxQ_erase_of_ne hstate, h.indexed state]
  rw [FederatedQTable.evictLowest, hmin]
  dsimp only
  cases hindex : t.maxQPerState.get? k.1 with
  | none =>
    rw [if_neg (Dict.notMem_keys_iff.2 hindex)]
    refine Or.inl ⟨rfl, ?_⟩
    by_cases hstate : k.1 = state
    · rw [← hstate, nextMaxQ, hindex]
      exact scanMaxQ_nonneg
    · exact hother hstate
  | some highest =>
    rw [if_pos (Dict.mem_keys_of_get? hindex)]
    cases h.max?_stateQs_erase hmin hindex with
    | inl hmax =>
      rw [hmax]
      by_cases hstate : k.1 = state
      · rw [← hstate]
        exact Or.inr ⟨Dict.get?_erase_self, List.max?_eq_none_iff.1 hmax⟩
      · exact Or.inl ⟨Dict.get?_erase_of_ne hstate, hother hstate⟩
    | inr hmax =>
      rw [hmax]
      by_cases hstate : k.1 = state
      · rw [← hstate, nextMaxQ, hindex]
        obtain ⟨action, haction⟩ := mem_stateQs.1 (List.max?_eq_some_iff.1 hmax).1
        exact Or.inl ⟨Dict.get?_insert_self, le_scanMaxQ haction⟩
      · exact Or.inl ⟨Dict.get?_insert_of_ne hstate, hother hstate⟩

theorem Sound.evictLowest (h : Sound t) : Sound t.evictLowest := by
  cases hmin : minKey t.q with
  | none =>
    rw [FederatedQTable.evictLowest, hmin]
    exact h
  | some k =>
    have hq : t.evictLowest.q = t.q.erase k := by rw [FederatedQTable.evictLowest, hmin]
    constructor
    · intro state
      rw [nextMaxQ, hq]
      rcases h.get?_evictLowest hmin state with ⟨hget, hle⟩ | ⟨hget, hnone⟩
      · rw [hget]
        exact le_antisymm hle (scanMaxQ_erase_le.trans (h.indexed state).ge)
      · rw [hget, scanMaxQ, hnone]
        rfl
    · intro state highest hget
      rcases h.get?_evictLowest hmin state with ⟨heq, -⟩ | ⟨hnone, -⟩
      · exact h.pos state highest (heq ▸ hget)
      · rw [hnone] at hget
        cases hget

/-! ### Runs of updates -/

/-- The table is within its limit. -/
def Bounded (t : FederatedQTable S) : Prop := t.q.size ≤ t.maxEntries

theorem notMem_keys_of_lt_size (hbound : Bounded t) (h : t.maxEntries < (t.assign u).q.size) :
    (u.state, u.action) ∉ t.q.keys := by
  intro hmem
  rw [FederatedQTable.assign] at h
  dsimp only at h
  rw [Dict.size_insert, if_pos hmem] at h
  exact absurd hbound (Nat.not_le.2 h)

theorem keepsMax_of_lt_size (hbound : Bounded t) (h : t.maxEntries < (t.assign u).q.size) : KeepsMax t u := by
  left
  rw [getQ, Dict.notMem_keys_iff.1 (notMem_keys_of_lt_size hbound h), Option.getD_none]

theorem update_of_le (h : (t.assign u).q.size ≤ t.maxEntries) : t.update u = t.assign u := if_neg (Nat.not_lt.2 h)

theorem update_of_lt (h : t.maxEntries < (t.assign u).q.size) : t.update u = (t.assign u).evictLowest := if_pos h

theorem maxEntries_evictLowest (t : FederatedQTable S) : t.evictLowest.maxEntries = t.maxEntries := by
  rw [FederatedQTable.evictLowest]
  cases minKey t.q with
  | none => rfl
  | some k => rfl

theorem maxEntries_update (t : FederatedQTable S) (u : Update S) : (t.update u).maxEntries = t.maxEntries := by
  rw [FederatedQTable.update]
  split
  · exact maxEntries_evictLowest _
  · rfl

theorem bounded_update (hbound : Bounded t) (u : Update S) : Bounded (t.update u) := by
  by_cases h : t.maxEntries < (t.assign u).q.size
  · rw [Bounded, update_of_lt h]
    have hsize : (t.assign u).q.size ≤ t.maxEntries + 1 := by
      rw [FederatedQTable.assign]
      dsimp only
      rw [Dict.size_insert, if_neg (notMem_keys_of_lt_size hbound h)]
      exact Nat.succ_le_succ hbound
    obtain ⟨k, v, hk, -, hq⟩ := evictLowest_q (Nat.lt_of_le_of_lt (Nat.zero_le _) h)
    rw [hq, Dict.size_erase (Dict.mem_keys_of_get? hk)]
    have hmax : (t.assign u).evictLowest.maxEntries = t.maxEntries := maxEntries_evictLowest _
    omega
  · rw [Bounded, update_of_le (Nat.not_lt.1 h)]
    exact Nat.not_lt.1 h

theorem indexed_update_iff (h : Sound t) (hbound : Bounded t) : Indexed (t.update u) ↔ KeepsMax t u := by
  by_cases hfull : t.maxEntries < (t.assign u).q.size
  · have hkeeps := keepsMax_of_lt_size hbound hfull
    rw [update_of_lt hfull]
    exact iff_of_true (h.assign hkeeps).evictLowest.indexed hkeeps
  · rw [update_of_le (Nat.not_lt.1 hfull)]
    exact h.indexed_assign_iff

theorem Sound.update (h : Sound t) (hkeeps : KeepsMax t u) : Sound (t.update u) := by
  rw [FederatedQTable.update]
  split
  · exact (h.assign hkeeps).evictLowest
  · exact h.assign hkeeps

end Spec

/-- In every run from an empty table the index gives what a scan gives, in every table reached and for every
state, if and only if no update lowers a positive Q-value that no other action of its state reaches. The table
stays within its limit, and an update that goes over it removes an entry of lowest Q-value. -/
theorem indexed_run_iff (alpha gamma : ℚ) (maxEntries : Int) (updates : List (Update S)) :
    let start : FederatedQTable S := new alpha gamma maxEntries
    ((∀ before, before <+: updates → Indexed (before.foldl update start)) ↔
      StepsMeet update KeepsMax start updates) ∧
    (∀ before, before <+: updates → (before.foldl update start).q.size ≤ (max 1 maxEntries).toNat) ∧
    ∀ before u, before ++ [u] <+: updates →
      let t := before.foldl update start
      let q := t.q.insert (u.state, u.action) (t.newQ u)
      (q.size ≤ (max 1 maxEntries).toNat → (t.update u).q = q) ∧
      ((max 1 maxEntries).toNat < q.size →
        ∃ k v, q.get? k = some v ∧ (∀ j w, q.get? j = some w → v ≤ w) ∧ (t.update u).q = q.erase k) := by
  intro start
  have hreach : ∀ before : List (Update S), Bounded (before.foldl update start) ∧
      (before.foldl update start).maxEntries = (max 1 maxEntries).toNat := by
    intro before
    apply foldl_invariant (I := fun t => Bounded t ∧ t.maxEntries = (max 1 maxEntries).toNat)
    · exact fun t u h => ⟨bounded_update h.1 u, (maxEntries_update t u).trans h.2⟩
    · exact ⟨Nat.zero_le _, rfl⟩
  refine ⟨?_, ?_, ?_⟩
  · exact forall_prefix_iff_stepsMeet_of_carried (K := fun t => Sound t ∧ Bounded t) (fun _ h => h.1.indexed)
      (fun t u h hkeeps => ⟨h.1.update hkeeps, bounded_update h.2 u⟩) (fun t u h => indexed_update_iff h.1 h.2)
      ⟨sound_new alpha gamma maxEntries, Nat.zero_le _⟩ updates
  · intro before _
    rw [← (hreach before).2]
    exact (hreach before).1
  · intro before u _ t q
    rw [← (hreach before).2]
    constructor
    · intro hsize
      exact congrArg FederatedQTable.q (update_of_le (u := u) hsize)
    · intro hsize
      rw [update_of_lt (u := u) hsize]
      exact evictLowest_q (t := t.assign u) (Nat.lt_of_le_of_lt (Nat.zero_le _) hsize)

/-- A Q-value that rises and falls again leaves the index too high. -/
theorem not_indexed :
    ¬ Indexed ([⟨0, "a", 1, 1⟩, ⟨0, "a", -1, 1⟩].foldl update (new (1 / 10) (9 / 10) 1024 : FederatedQTable Nat)) := by
  intro h
  exact absurd (h 0) (by decide +kernel)

/-! ### The best action -/

end Hledac.Federated
