import Mathlib.Data.List.Basic

/-!
# Runs over a list, and two of them side by side

A step takes a state and an entry to an output and a state. Two runs over one list give the same
observations exactly where, at each entry, the states before it agree on what the step looks at.
-/

namespace Hledac.Lib

universe u v w x y

section Run

variable {σ : Type u} {α : Type v} {β : Type w}

/-- The step, entry after entry. -/
def runEach (step : σ → α → β × σ) : σ → List α → List β × σ
  | s, [] => ([], s)
  | s, a :: as =>
    let r := step s a
    let rest := runEach step r.2 as
    (r.1 :: rest.1, rest.2)

/-- The state before entry number `i`. -/
def stateBefore (step : σ → α → β × σ) (s : σ) (as : List α) (i : Nat) : σ :=
  (runEach step s (as.take i)).2

variable (step : σ → α → β × σ)

@[simp] theorem stateBefore_zero (s : σ) (as : List α) : stateBefore step s as 0 = s := rfl

/-- One output for each entry, from the state before it. -/
theorem getElem?_runEach (s : σ) (as : List α) (i : Nat) :
    (runEach step s as).1[i]? = as[i]?.map fun a => (step (stateBefore step s as i) a).1 := by
  induction as generalizing s i with
  | nil => rfl
  | cons a as ih =>
    cases i with
    | zero => rfl
    | succ i => exact ih (step s a).2 i

end Run

section Lockstep

variable {σ : Type u} {τ : Type v} {α : Type w} {β : Type x} {γ : Type y} {ω : Type}
  {step : σ → α → β × σ} {step' : τ → α → γ × τ} {obs : β → ω} {obs' : γ → ω}
  {R : σ → τ → Prop} {C : σ → τ → α → Prop}

/-- From related states, two runs show the same exactly where the condition on the step holds at
every entry. -/
theorem runEach_agree_iff (hout : ∀ s t a, R s t → (obs (step s a).1 = obs' (step' t a).1 ↔ C s t a))
    (hstep : ∀ s t a, R s t → C s t a → R (step s a).2 (step' t a).2) {s : σ} {t : τ} (h : R s t)
    (as : List α) :
    (runEach step s as).1.map obs = (runEach step' t as).1.map obs' ↔
      ∀ i a, as[i]? = some a → C (stateBefore step s as i) (stateBefore step' t as i) a := by
  induction as generalizing s t with
  | nil =>
    constructor
    · intro _ i a ha
      cases ha
    · intro _
      rfl
  | cons b as ih =>
    rw [runEach, runEach, List.map_cons, List.map_cons, List.cons.injEq, hout s t b h]
    constructor
    · rintro ⟨hb, hrest⟩ i a ha
      cases i with
      | zero =>
        obtain rfl : b = a := Option.some_inj.1 ha
        exact hb
      | succ i => exact (ih (hstep s t b h hb)).1 hrest i a ha
    · intro hall
      have hb : C s t b := hall 0 b rfl
      exact ⟨hb, (ih (hstep s t b h hb)).2 fun i a ha => hall (i + 1) a ha⟩

/-- Under the condition the states stay related. -/
theorem stateBefore_related (hstep : ∀ s t a, R s t → C s t a → R (step s a).2 (step' t a).2)
    {s : σ} {t : τ} (h : R s t) {as : List α}
    (hall : ∀ i a, as[i]? = some a → C (stateBefore step s as i) (stateBefore step' t as i) a)
    (i : Nat) : R (stateBefore step s as i) (stateBefore step' t as i) := by
  induction as generalizing s t i with
  | nil =>
    rw [stateBefore, stateBefore, List.take_nil]
    exact h
  | cons b as ih =>
    cases i with
    | zero => exact h
    | succ i =>
      exact ih (hstep s t b h (hall 0 b rfl)) (fun j a ha => hall (j + 1) a ha) i

end Lockstep

/-! ### Two lists side by side -/

/-- Replacing an entry of the second list. -/
theorem forall₂_set {α : Type v} {β : Type w} {R : α → β → Prop} {as : List α} {bs : List β}
    (h : List.Forall₂ R as bs) {k : Nat} {a : α} {b : β} (ha : as[k]? = some a) (hb : R a b) :
    List.Forall₂ R as (bs.set k b) := by
  induction h generalizing k with
  | nil => exact .nil
  | cons hr hrest ih =>
    cases k with
    | zero =>
      cases ha
      exact .cons hb hrest
    | succ k => exact .cons hr (ih ha)

/-- The entry of the first list beside one of the second. -/
theorem forall₂_getElem? {α : Type v} {β : Type w} {R : α → β → Prop} {as : List α} {bs : List β}
    (h : List.Forall₂ R as bs) {k : Nat} {b : β} (hb : bs[k]? = some b) :
    ∃ a, as[k]? = some a ∧ R a b := by
  induction h generalizing k with
  | nil => cases hb
  | cons hr _ ih =>
    cases k with
    | zero =>
      cases hb
      exact ⟨_, rfl, hr⟩
    | succ k => exact ih hb

end Hledac.Lib
