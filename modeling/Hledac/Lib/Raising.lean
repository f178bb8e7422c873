import Mathlib.Data.List.Basic

/-!
# Stateful code that may raise

A computation that reads and writes a state and may raise an exception, as Python
methods do: an exception leaves the state as the raising statement found it, nothing
is rolled back. `exec` runs one, and the `exec_*` lemmas are its only interface. `Ensures` is its
triple of a precondition and two postconditions, one for each way to end.
-/

namespace Hledac.Lib

universe u

/-- Computations over a state `σ` that may raise an `ε`. -/
abbrev Raising (ε σ : Type u) := ExceptT ε (StateM σ)

namespace Raising

variable {ε σ α β : Type u}

/-- The result of a computation and the state it leaves behind. -/
def exec (x : Raising ε σ α) (s : σ) : Except ε α × σ :=
  x.run s

/-- Raise the error of a pure computation, or go on with its value. -/
def ofExcept (x : Except ε α) : Raising ε σ α :=
  match x with
  | .ok a => pure a
  | .error e => throw e

/-- `try: … except Exception: pass`. -/
def swallow (x : Raising ε σ PUnit) : Raising ε σ PUnit :=
  tryCatch x fun _ => pure ⟨⟩

@[simp] theorem exec_pure (a : α) (s : σ) : exec (pure a : Raising ε σ α) s = (.ok a, s) := rfl

@[simp] theorem exec_throw (e : ε) (s : σ) :
    exec (throw e : Raising ε σ α) s = (.error e, s) := rfl

@[simp] theorem exec_get (s : σ) : exec (get : Raising ε σ σ) s = (.ok s, s) := rfl

@[simp] theorem exec_set (t s : σ) : exec (set t : Raising ε σ PUnit) s = (.ok ⟨⟩, t) := rfl

@[simp] theorem exec_modify (f : σ → σ) (s : σ) :
    exec (modify f : Raising ε σ PUnit) s = (.ok ⟨⟩, f s) := rfl

theorem exec_bind (x : Raising ε σ α) (f : α → Raising ε σ β) (s : σ) :
    exec (x >>= f) s = match exec x s with
      | (.ok a, t) => exec (f a) t
      | (.error e, t) => (.error e, t) := by
  simp only [exec, ExceptT.run_bind]
  simp only [bind, StateT.bind]
  rcases (x.run s : Except ε α × σ) with ⟨_ | a, t⟩ <;> rfl

theorem exec_bind_ok {x : Raising ε σ α} {f : α → Raising ε σ β} {s t : σ} {a : α}
    (h : exec x s = (.ok a, t)) : exec (x >>= f) s = exec (f a) t := by
  rw [exec_bind, h]

theorem exec_bind_error {x : Raising ε σ α} {f : α → Raising ε σ β} {s t : σ} {e : ε}
    (h : exec x s = (.error e, t)) : exec (x >>= f) s = (.error e, t) := by
  rw [exec_bind, h]

theorem exec_ofExcept (x : Except ε α) (s : σ) :
    exec (ofExcept x : Raising ε σ α) s = (x, s) := by
  cases x <;> rfl

/-- A handler runs in the state the exception left. -/
theorem exec_tryCatch (x : Raising ε σ α) (handle : ε → Raising ε σ α) (s : σ) :
    exec (tryCatch x handle) s = match exec x s with
      | (.ok a, t) => (.ok a, t)
      | (.error e, t) => exec (handle e) t := by
  simp only [exec, tryCatch, tryCatchThe, MonadExceptOf.tryCatch, ExceptT.tryCatch,
    ExceptT.run, ExceptT.mk, bind, StateT.bind]
  rcases (x s : Except ε α × σ) with ⟨_ | a, t⟩ <;> rfl

theorem exec_swallow (x : Raising ε σ PUnit) (s : σ) :
    exec (swallow x) s = (.ok ⟨⟩, (exec x s).2) := by
  rw [swallow, exec_tryCatch]
  rcases exec x s with ⟨_ | a, t⟩ <;> rfl

/-! ### Pre- and postconditions -/

/-- Started under `P` the computation returns under `Q` or raises under `E`. -/
def Ensures (P : σ → Prop) (x : Raising ε σ α) (Q : α → σ → Prop) (E : ε → σ → Prop) : Prop :=
  ∀ s, P s → match exec x s with
    | (.ok a, t) => Q a t
    | (.error e, t) => E e t

section Rules

variable {P P' : σ → Prop} {Q Q' : α → σ → Prop} {E E' : ε → σ → Prop}

theorem Ensures.returns {x : Raising ε σ α} (h : Ensures P x Q E) {s t : σ} {a : α} (hs : P s)
    (hx : exec x s = (.ok a, t)) : Q a t := by
  have := h s hs
  rwa [hx] at this

theorem Ensures.final {R : σ → Prop} {x : Raising ε σ α} (h : Ensures P x (fun _ => R) fun _ => R) {s : σ}
    (hs : P s) : R (exec x s).2 := by
  have hx := h s hs
  rcases hr : exec x s with ⟨e | a, t⟩ <;> rw [hr] at hx
  · exact hx
  · exact hx

theorem ensures_of_returns {x : Raising ε σ α}
    (h : ∀ s, P s → ∃ a t, exec x s = (.ok a, t) ∧ Q a t) : Ensures P x Q E := by
  intro s hs
  obtain ⟨a, t, hx, hq⟩ := h s hs
  rw [hx]
  exact hq

theorem ensures_pure {a : α} (h : ∀ s, P s → Q a s) : Ensures P (pure a : Raising ε σ α) Q E :=
  ensures_of_returns fun s hs => ⟨a, s, rfl, h s hs⟩

theorem ensures_throw {e : ε} (h : ∀ s, P s → E e s) :
    Ensures P (throw e : Raising ε σ α) Q E := by
  intro s hs
  rw [exec_throw]
  exact h s hs

theorem ensures_get {Q : σ → σ → Prop} (h : ∀ s, P s → Q s s) :
    Ensures P (get : Raising ε σ σ) Q E :=
  ensures_of_returns fun s hs => ⟨s, s, rfl, h s hs⟩

theorem ensures_modify {Q : PUnit → σ → Prop} {f : σ → σ} (h : ∀ s, P s → Q ⟨⟩ (f s)) :
    Ensures P (modify f : Raising ε σ PUnit) Q E :=
  ensures_of_returns fun s hs => ⟨⟨⟩, f s, rfl, h s hs⟩

theorem ensures_ofExcept {x : Except ε α} (hok : ∀ a s, x = .ok a → P s → Q a s)
    (herror : ∀ e s, x = .error e → P s → E e s) : Ensures P (ofExcept x : Raising ε σ α) Q E := by
  intro s hs
  rw [exec_ofExcept]
  cases hx : x with
  | ok a => exact hok a s hx hs
  | error e => exact herror e s hx hs

theorem Ensures.bind {R : α → σ → Prop} {Q : β → σ → Prop} {x : Raising ε σ α}
    {f : α → Raising ε σ β} (hx : Ensures P x R E) (hf : ∀ a, Ensures (R a) (f a) Q E) :
    Ensures P (x >>= f) Q E := by
  intro s hs
  have h := hx s hs
  rw [exec_bind]
  rcases hr : exec x s with ⟨e | a, t⟩ <;> rw [hr] at h
  · exact h
  · exact hf a t h

/-- The handler starts from what the raising computation ensures. -/
theorem Ensures.tryCatch {R : ε → σ → Prop} {x : Raising ε σ α} {handle : ε → Raising ε σ α}
    (hx : Ensures P x Q R) (hh : ∀ e, Ensures (R e) (handle e) Q E) :
    Ensures P (tryCatch x handle) Q E := by
  intro s hs
  have h := hx s hs
  rw [exec_tryCatch]
  rcases hr : exec x s with ⟨e | a, t⟩ <;> rw [hr] at h
  · exact hh e t h
  · exact h

/-- Rule of consequence. -/
theorem Ensures.imp {x : Raising ε σ α} (h : Ensures P x Q E) (hp : ∀ s, P' s → P s)
    (hq : ∀ a s, Q a s → Q' a s) (he : ∀ e s, E e s → E' e s) : Ensures P' x Q' E' := by
  intro s hs
  have hx := h s (hp s hs)
  rcases hr : exec x s with ⟨e | a, t⟩ <;> rw [hr] at hx
  · exact he e t hx
  · exact hq a t hx

theorem Ensures.exists_returns {x : Raising ε σ α} (h : Ensures P x Q fun _ _ => False) {s : σ}
    (hs : P s) : ∃ a t, exec x s = (.ok a, t) ∧ Q a t := by
  have hx := h s hs
  rcases hr : exec x s with ⟨e | a, t⟩ <;> rw [hr] at hx
  · exact hx.elim
  · exact ⟨a, t, rfl, hx⟩

end Rules

/-! ### Computations that return one value, and computations that never return -/

/-- Started under `P` the computation returns `v`, and `P` still holds. -/
def Yields (P : σ → Prop) (x : Raising ε σ α) (v : α) : Prop :=
  Ensures P x (fun a s => a = v ∧ P s) fun _ _ => False

/-- Started under `P` the computation raises. -/
def Fails (P : σ → Prop) (x : Raising ε σ α) : Prop :=
  Ensures P x (fun _ _ => False) fun _ _ => True

section Outcomes

variable {P : σ → Prop}

theorem yields_pure (v : α) : Yields P (pure v : Raising ε σ α) v :=
  ensures_pure fun _ h => ⟨rfl, h⟩

theorem yields_modify {f : σ → σ} (h : ∀ s, P s → P (f s)) :
    Yields P (modify f : Raising ε σ PUnit) ⟨⟩ :=
  ensures_modify fun s hs => ⟨rfl, h s hs⟩

theorem Yields.bind {x : Raising ε σ α} {v : α} (h : Yields P x v) {f : α → Raising ε σ β}
    {Q : β → σ → Prop} {E : ε → σ → Prop} (hf : Ensures P (f v) Q E) : Ensures P (x >>= f) Q E := by
  intro s hs
  obtain ⟨a, t, hx, rfl, ht⟩ := h.exists_returns hs
  rw [exec_bind_ok hx]
  exact hf t ht

theorem fails_throw (e : ε) : Fails P (throw e : Raising ε σ α) :=
  ensures_throw fun _ _ => trivial

theorem Fails.bind {x : Raising ε σ α} (h : Fails P x) (f : α → Raising ε σ β)
    {Q : β → σ → Prop} : Ensures P (x >>= f) Q fun _ _ => True := by
  apply Ensures.bind (R := fun _ _ => False) h
  intro a s hs
  exact hs.elim

/-- Started from `s` the computation returns, with a value as `Q` says. -/
def Returns (s : σ) (x : Raising ε σ α) (Q : α → Prop) : Prop :=
  ∃ a t, exec x s = (.ok a, t) ∧ Q a

theorem returns_ofExcept_bind_iff {s : σ} {x : Except ε α} {f : α → Raising ε σ β} {Q : β → Prop} :
    Returns s (ofExcept x >>= f) Q ↔ ∃ a, x = .ok a ∧ Returns s (f a) Q := by
  cases x with
  | error e =>
    constructor
    · rintro ⟨_, _, hx, _⟩
      cases hx
    · rintro ⟨_, hx, _⟩
      cases hx
  | ok a =>
    constructor
    · intro h
      exact ⟨a, rfl, h⟩
    · rintro ⟨_, hx, h⟩
      cases hx
      exact h

/-- After a computation that returns `v`, the rest decides. -/
theorem Yields.returns_bind_iff {x : Raising ε σ α} {v : α} (h : Yields P x v) {s : σ} (hs : P s)
    {f : α → Raising ε σ β} {Q : β → Prop} {R : Prop}
    (hf : ∀ t, P t → (Returns t (f v) Q ↔ R)) : Returns s (x >>= f) Q ↔ R := by
  obtain ⟨a, t, hx, rfl, ht⟩ := h.exists_returns hs
  rw [← hf t ht, Returns, exec_bind_ok hx, Returns]

theorem Fails.not_returns_bind {x : Raising ε σ α} (h : Fails P x) {s : σ} (hs : P s)
    {f : α → Raising ε σ β} {Q : β → Prop} : ¬ Returns s (x >>= f) Q := by
  rintro ⟨a, t, hx, _⟩
  exact (h.bind f).returns (Q := fun _ _ => False) hs hx

end Outcomes

/-! ### Loops -/

/-- `for a, b in zip(as, bs, strict=True)`: the loop over what both lists hold, and `e` where one of
them holds more. -/
def foldZip {τ : Type u} (e : ε) (f : τ → α → β → Raising ε σ τ) :
    τ → List α → List β → Raising ε σ τ
  | t, [], [] => pure t
  | t, a :: as, b :: bs => do foldZip e f (← f t a b) as bs
  | _, _, _ => throw e

section Loops

variable {P : σ → Prop} {τ : Type u}

/-- Over lists of different lengths the loop raises, if not in its body. -/
theorem fails_foldZip {e : ε} {f : τ → α → β → Raising ε σ τ} {t : τ} {as : List α} {bs : List β}
    (h : as.length ≠ bs.length) : Fails P (foldZip e f t as bs) := by
  induction as generalizing P t bs with
  | nil =>
    cases bs with
    | nil => exact absurd rfl h
    | cons b bs => exact fails_throw e
  | cons a as ih =>
    cases bs with
    | nil => exact fails_throw e
    | cons b bs =>
      apply Ensures.bind (R := fun _ _ => True)
      · intro s _
        split <;> trivial
      · intro t'
        apply ih
        simpa using h

/-- A loop that is entered raises when its body does. -/
theorem fails_foldZip_of_body {e : ε} {f : τ → α → β → Raising ε σ τ} {t : τ} {as : List α}
    {bs : List β} (h : as ≠ []) (hf : ∀ a b, Fails P (f t a b)) : Fails P (foldZip e f t as bs) := by
  cases as with
  | nil => exact absurd rfl h
  | cons a as =>
    cases bs with
    | nil => exact fails_throw e
    | cons b bs => exact (hf a b).bind _

/-- A loop whose body always returns. -/
theorem yields_foldZip {e : ε} {f : τ → α → β → Raising ε σ τ} {g : τ → α → β → τ} {as : List α}
    {bs : List β} (h : as.length = bs.length)
    (hf : ∀ t, ∀ p ∈ as.zip bs, Yields P (f t p.1 p.2) (g t p.1 p.2)) (t : τ) :
    Yields P (foldZip e f t as bs) ((as.zip bs).foldl (fun t p => g t p.1 p.2) t) := by
  induction as generalizing t bs with
  | nil =>
    cases bs with
    | nil => exact yields_pure t
    | cons b bs => cases h
  | cons a as ih =>
    cases bs with
    | nil => cases h
    | cons b bs =>
      rw [List.zip_cons_cons] at hf
      apply (hf t (a, b) List.mem_cons_self).bind
      exact ih (by simpa using h) (fun t p hp => hf t p (List.mem_cons_of_mem _ hp)) _

/-- The same for a loop over one list. -/
theorem yields_foldlM {f : τ → α → Raising ε σ τ} {g : τ → α → τ} {as : List α}
    (hf : ∀ t, ∀ a ∈ as, Yields P (f t a) (g t a)) (t : τ) :
    Yields P (as.foldlM f t) (as.foldl g t) := by
  induction as generalizing t with
  | nil => exact yields_pure t
  | cons a as ih =>
    rw [List.foldlM_cons]
    apply (hf t a List.mem_cons_self).bind
    exact ih (fun t b hb => hf t b (List.mem_cons_of_mem _ hb)) _

/-- A loop that collects what its body returns. -/
theorem yields_mapM {f : α → Raising ε σ β} {g : α → β} {as : List α}
    (hf : ∀ a ∈ as, Yields P (f a) (g a)) : Yields P (as.mapM f) (as.map g) := by
  induction as with
  | nil => exact yields_pure []
  | cons a as ih =>
    rw [List.mapM_cons]
    apply (hf a List.mem_cons_self).bind
    apply (ih fun b hb => hf b (List.mem_cons_of_mem _ hb)).bind
    exact yields_pure _

end Loops

/-! ### Pure computations that raise -/

section Pure

variable {ε α β : Type} {x : Except ε α}

theorem isOk_iff : x.isOk = true ↔ ∃ a, x = .ok a := by
  cases x with
  | ok a => exact ⟨fun _ => ⟨a, rfl⟩, fun _ => rfl⟩
  | error e =>
    constructor
    · intro h
      cases h
    · intro h
      obtain ⟨a, ha⟩ := h
      cases ha

/-- What returns has returned at every stage. -/
theorem bind_eq_ok_iff {f : α → Except ε β} {b : β} : x >>= f = .ok b ↔ ∃ a, x = .ok a ∧ f a = .ok b := by
  cases x with
  | error e =>
    constructor
    · intro h
      cases h
    · intro h
      obtain ⟨a, ha, -⟩ := h
      cases ha
  | ok a =>
    constructor
    · exact fun h => ⟨a, rfl, h⟩
    · intro h
      obtain ⟨v, hv, hf⟩ := h
      cases hv
      exact hf

/-- A loop that collects what its body returns has met no exception. -/
theorem mapM_eq_ok_iff {f : α → Except ε β} {as : List α} {bs : List β} :
    as.mapM f = .ok bs ↔ List.Forall₂ (fun a b => f a = .ok b) as bs := by
  induction as generalizing bs with
  | nil =>
    rw [List.mapM_nil]
    constructor
    · intro h
      cases h
      exact .nil
    · intro h
      cases h
      rfl
  | cons a as ih =>
    rw [List.mapM_cons, bind_eq_ok_iff]
    constructor
    · intro h
      obtain ⟨b, hb, h⟩ := h
      obtain ⟨rest, hrest, h⟩ := bind_eq_ok_iff.1 h
      cases h
      exact .cons hb (ih.1 hrest)
    · intro h
      cases h with
      | cons hb hrest => exact ⟨_, hb, bind_eq_ok_iff.2 ⟨_, ih.2 hrest, rfl⟩⟩

end Pure

end Raising

end Hledac.Lib
