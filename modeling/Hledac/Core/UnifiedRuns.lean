import Hledac.Core.UnifiedLmdb

/-!
# Calls on a fresh store

`__init__` makes the event and leaves it unset, and only the end of an emergency shrink sets it, which
begins where the event is set. A fresh store waits for it in every call until the wait times out.
-/

namespace Hledac.Core

open Hledac.Lib

variable {maxDbs : Nat}

/-! ### Calls and their reference -/

/-- A call on the store. -/
inductive UnifiedCall where
  | put (idx : ℤ) (key value : Bytes)
  | putBatch (idx : ℤ) (items : List (Bytes × Bytes))
  | delete (idx : ℤ) (key : Bytes)
  | get (idx : ℤ) (key : Bytes)
  | scanPrefix (idx : ℤ) (head : Bytes)
  | setPressure (state : String)

/-- What a call returns. -/
inductive UnifiedAnswer where
  | wrote (b : Bool)
  | found (value : Option Bytes)
  | scanned (pairs : List (Bytes × Bytes))
  | adjusted
  deriving DecidableEq, Repr

namespace UnifiedCall

/-- The call, where every operation on LMDB succeeds. -/
def run : UnifiedCall → UnifiedM maxDbs UnifiedAnswer
  | put idx key value => return .wrote (← UnifiedLMDB.put idx key value)
  | putBatch idx items => return .wrote (← UnifiedLMDB.putBatch idx items)
  | delete idx key => return .wrote (← UnifiedLMDB.delete idx key)
  | get idx key => return .found (← UnifiedLMDB.get idx key)
  | scanPrefix idx head => return .scanned (← UnifiedLMDB.scanPrefix idx head)
  | setPressure state => do
    UnifiedLMDB.setPressure {} state
    return .adjusted

/-- The reference maps once the call is made. -/
def update (m : ℤ → SubTable) : UnifiedCall → ℤ → SubTable
  | put idx key value => Function.update m idx ((m idx).insert key value)
  | putBatch idx items =>
    Function.update m idx (items.foldl (fun t p => t.insert p.1 p.2) (m idx))
  | delete idx key => Function.update m idx ((m idx).erase key)
  | get _ _ | scanPrefix _ _ | setPressure _ => m

/-- What the reference maps answer. -/
def answer (m : ℤ → SubTable) : UnifiedCall → UnifiedAnswer
  | put _ _ _ | putBatch _ _ | delete _ _ => .wrote true
  | get idx key => .found (m idx)[key]?
  | scanPrefix idx head => .scanned ((m idx).toList.filter fun p => head.isPrefixOf p.1)
  | setPressure _ => .adjusted

/-- What the reference maps answer to a run of calls. -/
def answers (m : ℤ → SubTable) : List UnifiedCall → List UnifiedAnswer
  | [] => []
  | c :: calls => c.answer m :: answers (c.update m) calls

/-- What a store answers that no call gets into. -/
def refusal : UnifiedCall → UnifiedAnswer
  | put _ _ _ | putBatch _ _ | delete _ _ => .wrote false
  | get _ _ => .found none
  | scanPrefix _ _ => .scanned []
  | setPressure _ => .adjusted

end UnifiedCall

namespace UnifiedLMDB

private theorem toNat_lt_maxDbs {idx : ℤ} (h : 0 ≤ idx ∧ idx < maxDbs) : idx.toNat < maxDbs := by omega

/-- The maps that the file of a store holds by index. -/
def reference (s : UnifiedLMDB maxDbs) (idx : ℤ) : SubTable :=
  if h : 0 ≤ idx ∧ idx < maxDbs then s.table ⟨idx.toNat, toNat_lt_maxDbs h⟩ else ∅

/-- A store can be made, and after every part of the run the event is set and the calls have answered as
the reference maps do. -/
def Available (maxDbs : Nat) (weakrefable : Bool) (configured mapSize : Option Nat) (disk : DataFile)
    (calls : List UnifiedCall) : Prop :=
  ∃ s : UnifiedLMDB maxDbs, init weakrefable configured mapSize true disk = .ok s ∧
    ∀ pre, pre <+: calls → ∃ t, (pre.mapM UnifiedCall.run).exec s =
      (.ok (UnifiedCall.answers s.reference pre), t) ∧ t.reopenEvent = true

/-! ### Waiting for the event -/

/-- The store was never opened and waits for the event. -/
structure Waiting (s : UnifiedLMDB maxDbs) : Prop where
  notClosed : s.closed = false
  notInitialized : s.initialized = false
  noEvent : s.reopenEvent = false
  noEnv : s.env = .unset

theorem waiting_of_init {configured mapSize : Option Nat} {weakrefable : Bool} {disk : DataFile}
    {s : UnifiedLMDB maxDbs} (h : init weakrefable configured mapSize true disk = .ok s) : s.Waiting := by
  cases weakrefable with
  | false => cases h
  | true =>
    cases h
    exact ⟨rfl, rfl, rfl, rfl⟩

theorem waiting_ensureInit :
    Raising.Ensures Waiting (ensureInit : UnifiedM maxDbs PUnit) (fun _ _ => False) fun _ => Waiting := by
  intro s hs
  rw [ensureInit, Raising.exec_bind_ok (Raising.exec_get s), hs.notClosed, hs.notInitialized, hs.noEvent]
  exact hs

theorem waiting_envBegin (idx : ℤ) :
    Raising.Ensures Waiting (envBegin idx : UnifiedM maxDbs (Fin maxDbs)) (fun _ _ => False) fun _ => Waiting := by
  apply Raising.Ensures.bind (R := fun _ _ => False)
  · apply waiting_ensureInit.bind
    intro _ _ h
    exact h.elim
  · intro _ _ h
    exact h.elim

theorem yields_of_envBegin {α : Type} (idx : ℤ) (f : Fin maxDbs → UnifiedM maxDbs α) (a : α) :
    Raising.Yields Waiting (tryCatch (envBegin idx >>= f) fun _ => return a) a := by
  apply Raising.Ensures.tryCatch (R := fun _ => Waiting)
  · apply (waiting_envBegin idx).bind
    intro _ _ h
    exact h.elim
  · intro _
    exact Raising.yields_pure a

theorem yields_emergencyShrink (out : Reopening) (target : Nat) :
    Raising.Yields Waiting (emergencyShrink out target : UnifiedM maxDbs PUnit) ⟨⟩ := by
  intro s hs
  rw [emergencyShrink, Raising.exec_bind_ok (Raising.exec_get s), hs.notClosed, hs.noEvent]
  exact ⟨rfl, hs⟩

theorem yields_setPressure (out : Reopening) (state : String) :
    Raising.Yields Waiting (setPressure out state : UnifiedM maxDbs PUnit) ⟨⟩ := by
  intro s hs
  have hpressure : Waiting { s with pressureState := state } := ⟨hs.1, hs.2, hs.3, hs.4⟩
  rw [setPressure, Raising.exec_bind_ok (Raising.exec_get s)]
  by_cases hsame : state = s.pressureState
  · rw [if_pos hsame]
    exact ⟨rfl, hs⟩
  rw [if_neg hsame, Raising.exec_bind_ok (Raising.exec_modify _ s)]
  by_cases htarget : targetSize s.mapSizeDefault state = s.mapSizeCurrent
  · rw [if_pos htarget]
    exact ⟨rfl, hpressure⟩
  rw [if_neg htarget]
  by_cases hgrow : s.mapSizeCurrent < targetSize s.mapSizeDefault state
  · rw [if_pos hgrow, Raising.exec_swallow,
      Raising.exec_bind_error (exec_useEnv_of_unset "set_mapsize" hpressure.noEnv)]
    exact ⟨rfl, hpressure⟩
  rw [if_neg hgrow]
  by_cases hcritical : state = "CRITICAL"
  · rw [if_pos hcritical]
    exact yields_emergencyShrink out _ _ hpressure
  · rw [if_neg hcritical]
    exact ⟨rfl, hpressure⟩

theorem yields_refusal (c : UnifiedCall) :
    Raising.Yields Waiting (c.run : UnifiedM maxDbs UnifiedAnswer) c.refusal := by
  cases c with
  | put idx key value => exact (yields_of_envBegin idx _ false).bind (Raising.yields_pure _)
  | putBatch idx items => exact (yields_of_envBegin idx _ false).bind (Raising.yields_pure _)
  | delete idx key => exact (yields_of_envBegin idx _ false).bind (Raising.yields_pure _)
  | get idx key => exact (yields_of_envBegin idx _ none).bind (Raising.yields_pure _)
  | scanPrefix idx head => exact (yields_of_envBegin idx _ []).bind (Raising.yields_pure _)
  | setPressure state => exact (yields_setPressure {} state).bind (Raising.yields_pure _)

theorem yields_refusals (calls : List UnifiedCall) :
    Raising.Yields Waiting (calls.mapM UnifiedCall.run : UnifiedM maxDbs (List UnifiedAnswer))
      (calls.map UnifiedCall.refusal) :=
  Raising.yields_mapM fun c _ => yields_refusal c

/-- No run on a fresh store is served. -/
theorem not_available (maxDbs : Nat) (weakrefable : Bool) (configured mapSize : Option Nat)
    (disk : DataFile) (calls : List UnifiedCall) :
    ¬ Available maxDbs weakrefable configured mapSize disk calls := by
  intro h
  obtain ⟨s, hs, hserves⟩ := h
  obtain ⟨t, hrun, hevent⟩ := hserves calls (List.prefix_refl calls)
  obtain ⟨answers, u, hrefused, -, hu⟩ := (yields_refusals calls).exists_returns (waiting_of_init hs)
  rw [hrefused] at hrun
  cases hrun
  rw [hu.noEvent] at hevent
  cases hevent

/-- A store of the class itself cannot be made, and one of a subclass refuses its first put. -/
theorem not_available_first_put :
    ¬ Available 16 false none none (fun _ => ∅) [.put 0 [107] [118]] ∧
      ¬ Available 16 true none none (fun _ => ∅) [.put 0 [107] [118]] := by
  constructor
  · intro h
    obtain ⟨s, hs, -⟩ := h
    cases hs
  · intro h
    obtain ⟨s, hs, hserves⟩ := h
    obtain ⟨t, hput, -⟩ := hserves _ (List.prefix_refl _)
    cases hs
    cases hput

end UnifiedLMDB

end Hledac.Core
