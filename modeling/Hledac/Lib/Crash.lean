import Mathlib.Data.List.Basic

/-!
# Methods that a crash may cut short

A method changes a store by atomic operations. A crash comes before one of them and leaves what the
operations so far have made. `Survives` is the triple of a precondition, a postcondition and a crash
condition that holds wherever a crash may come.
-/

namespace Hledac.Lib

universe u v

/-- What a method returns, the state it leaves, and the operations it comes to, each with the state
before it. -/
structure Course (ℓ σ α : Type u) where
  value : α
  final : σ
  passed : List (ℓ × σ)

/-- A method on a state `σ` whose operations are named by `ℓ`. -/
def Steps (ℓ σ α : Type u) := σ → Course ℓ σ α

/-- The course after some operations. -/
def Course.after {ℓ σ α : Type u} (c : Course ℓ σ α) (before : List (ℓ × σ)) : Course ℓ σ α :=
  { c with passed := before ++ c.passed }

@[simp] theorem Course.value_after {ℓ σ α : Type u} (c : Course ℓ σ α) (before : List (ℓ × σ)) :
    (c.after before).value = c.value := rfl

@[simp] theorem Course.final_after {ℓ σ α : Type u} (c : Course ℓ σ α) (before : List (ℓ × σ)) :
    (c.after before).final = c.final := rfl

@[simp] theorem Course.passed_after {ℓ σ α : Type u} (c : Course ℓ σ α) (before : List (ℓ × σ)) :
    (c.after before).passed = before ++ c.passed := rfl

namespace Steps

variable {ℓ σ α β : Type u}

/-- The course of a method from a state. -/
def course (p : Steps ℓ σ α) (s : σ) : Course ℓ σ α := p s

instance : Monad (Steps ℓ σ) where
  pure a := fun s => ⟨a, s, []⟩
  bind p f := fun s =>
    let c := p s
    let d := f c.value c.final
    ⟨d.value, d.final, c.passed ++ d.passed⟩

/-- The state as it is. -/
def read : Steps ℓ σ σ := fun s => ⟨s, s, []⟩

/-- A change of the memory, which no crash can come before or after. -/
def note (f : σ → σ) : Steps ℓ σ PUnit := fun s => ⟨⟨⟩, f s, []⟩

/-- An atomic operation. -/
def op (x : ℓ) (f : σ → α × σ) : Steps ℓ σ α := fun s => ⟨(f s).1, (f s).2, [(x, s)]⟩

/-- The state that a crash before the first operation `x` leaves. Where there is none, or the method does
not come to it, the method ends. -/
def cut [DecidableEq ℓ] (p : Steps ℓ σ α) (s : σ) (x : Option ℓ) : σ :=
  (((p.course s).passed.find? fun c => some c.1 = x).map (·.2)).getD (p.course s).final

@[simp] theorem course_pure (a : α) (s : σ) : course (pure a : Steps ℓ σ α) s = ⟨a, s, []⟩ := rfl

@[simp] theorem course_read (s : σ) : course (read : Steps ℓ σ σ) s = ⟨s, s, []⟩ := rfl

@[simp] theorem course_note (f : σ → σ) (s : σ) :
    course (note f : Steps ℓ σ PUnit) s = ⟨⟨⟩, f s, []⟩ := rfl

@[simp] theorem course_op (x : ℓ) (f : σ → α × σ) (s : σ) :
    course (op x f) s = ⟨(f s).1, (f s).2, [(x, s)]⟩ := rfl

theorem course_bind (p : Steps ℓ σ α) (f : α → Steps ℓ σ β) (s : σ) :
    course (p >>= f) s =
      (course (f (p.course s).value) (p.course s).final).after (p.course s).passed := rfl

/-- A method whose course is known is followed by the rest. -/
theorem course_bind_of {p : Steps ℓ σ α} {s t : σ} {a : α} {l : List (ℓ × σ)}
    (h : p.course s = ⟨a, t, l⟩) (f : α → Steps ℓ σ β) :
    course (p >>= f) s = (course (f a) t).after l := by
  rw [course_bind, h]

theorem course_bind_of_nil {p : Steps ℓ σ α} {s t : σ} {a : α} (h : p.course s = ⟨a, t, []⟩)
    (f : α → Steps ℓ σ β) : course (p >>= f) s = course (f a) t := by
  rw [course_bind_of h]
  rfl

theorem value_bind (p : Steps ℓ σ α) (f : α → Steps ℓ σ β) (s : σ) :
    (course (p >>= f) s).value = (course (f (p.course s).value) (p.course s).final).value := rfl

theorem final_bind (p : Steps ℓ σ α) (f : α → Steps ℓ σ β) (s : σ) :
    (course (p >>= f) s).final = (course (f (p.course s).value) (p.course s).final).final := rfl

theorem course_read_bind (f : σ → Steps ℓ σ β) (s : σ) :
    course (read >>= f) s = course (f s) s := rfl

theorem course_note_bind (g : σ → σ) (f : PUnit → Steps ℓ σ β) (s : σ) :
    course (note g >>= f) s = course (f ⟨⟩) (g s) := rfl

/-- A method that is followed by the rest, cut short. -/
theorem cut_bind_of [DecidableEq ℓ] {p : Steps ℓ σ α} {s t u : σ} {a : α} {y : ℓ}
    (h : p.course s = ⟨a, t, [(y, u)]⟩) (f : α → Steps ℓ σ β) (x : Option ℓ) :
    (p >>= f).cut s x = if some y = x then u else (f a).cut t x := by
  rw [cut, course_bind_of h, Course.passed_after, Course.final_after, List.singleton_append,
    List.find?_cons]
  by_cases hx : some y = x
  · rw [if_pos hx, decide_eq_true hx]
    rfl
  · rw [if_neg hx, decide_eq_false hx]
    rfl

theorem cut_bind_of_nil [DecidableEq ℓ] {p : Steps ℓ σ α} {s t : σ} {a : α}
    (h : p.course s = ⟨a, t, []⟩) (f : α → Steps ℓ σ β) (x : Option ℓ) :
    (p >>= f).cut s x = (f a).cut t x := by
  rw [cut, course_bind_of_nil h, cut]

theorem cut_bind_pure [DecidableEq ℓ] (p : Steps ℓ σ α) (b : β) (s : σ) (x : Option ℓ) :
    (p >>= fun _ => pure b).cut s x = p.cut s x := by
  rw [cut, course_bind, course_pure, Course.passed_after, Course.final_after, List.append_nil, cut]

/-- A loop goes from state to state. -/
theorem final_forM (f : β → Steps ℓ σ PUnit) (bs : List β) (s : σ) :
    (course (bs.forM f) s).final = bs.foldl (fun s b => (course (f b) s).final) s := by
  induction bs generalizing s with
  | nil => rfl
  | cons b bs ih =>
    show (course (f b >>= fun _ => bs.forM f) s).final = _
    rw [final_bind, List.foldl_cons, ih]

/-! ### Frames -/

/-- The method leaves what `f` shows of the state as it is. -/
def Keeps {τ : Type v} (f : σ → τ) (p : Steps ℓ σ α) : Prop := ∀ s, f (p.course s).final = f s

section Frames

variable {τ : Type v} {f : σ → τ}

theorem keeps_pure (a : α) : Keeps f (pure a : Steps ℓ σ α) := fun _ => rfl

theorem keeps_of_still {p : Steps ℓ σ α} (h : ∀ s, (p.course s).final = s) : Keeps f p := by
  intro s
  rw [h]

theorem keeps_op {x : ℓ} {g : σ → α × σ} (h : ∀ s, f (g s).2 = f s) : Keeps f (op x g) := h

theorem Keeps.bind {p : Steps ℓ σ α} {g : α → Steps ℓ σ β} (hp : Keeps f p) (hg : ∀ a, Keeps f (g a)) :
    Keeps f (p >>= g) := by
  intro s
  rw [final_bind, hg, hp]

theorem keeps_read_bind {g : σ → Steps ℓ σ β} (h : ∀ t, Keeps f (g t)) : Keeps f (read >>= g) :=
  fun s => h s s

end Frames

/-! ### Crash conditions -/

/-- Started under `P` the method ends under `Q`, and a crash before an operation `x` comes under
`C x`. -/
def Survives (P : σ → Prop) (p : Steps ℓ σ α) (Q : α → σ → Prop) (C : ℓ → σ → Prop) : Prop :=
  ∀ s, P s → Q (p.course s).value (p.course s).final ∧ ∀ c ∈ (p.course s).passed, C c.1 c.2

section Rules

variable {P P' : σ → Prop} {Q Q' : α → σ → Prop} {C C' : ℓ → σ → Prop}

theorem survives_pure {a : α} (h : ∀ s, P s → Q a s) : Survives P (pure a) Q C := by
  intro s hs
  refine ⟨h s hs, ?_⟩
  intro c hc
  cases hc

theorem survives_of_silent {p : Steps ℓ σ α}
    (h : ∀ s, P s → ∃ a t, p.course s = ⟨a, t, []⟩ ∧ Q a t) : Survives P p Q C := by
  intro s hs
  obtain ⟨a, t, hcourse, hq⟩ := h s hs
  rw [hcourse]
  exact ⟨hq, fun c hc => absurd hc List.not_mem_nil⟩

theorem survives_of_still {p : Steps ℓ σ α} {v : σ → α} (h : ∀ s, p.course s = ⟨v s, s, []⟩)
    (hq : ∀ s, P s → Q (v s) s) : Survives P p Q C := by
  apply survives_of_silent
  intro s hs
  exact ⟨v s, s, h s, hq s hs⟩

/-- A crash before an operation finds what the operation starts from. -/
theorem survives_op {x : ℓ} {f : σ → α × σ} (h : ∀ s, P s → Q (f s).1 (f s).2)
    (hc : ∀ s, P s → C x s) : Survives P (op x f) Q C := by
  intro s hs
  refine ⟨h s hs, ?_⟩
  intro c hmem
  rw [course_op, List.mem_singleton] at hmem
  rw [hmem]
  exact hc s hs

theorem Survives.bind {R : α → σ → Prop} {Q : β → σ → Prop} {p : Steps ℓ σ α}
    {f : α → Steps ℓ σ β} (hp : Survives P p R C) (hf : ∀ a, Survives (R a) (f a) Q C) :
    Survives P (p >>= f) Q C := by
  intro s hs
  obtain ⟨hr, hc⟩ := hp s hs
  obtain ⟨hq, hd⟩ := hf _ _ hr
  refine ⟨hq, ?_⟩
  intro c hmem
  rw [course_bind] at hmem
  rcases List.mem_append.1 hmem with h | h
  · exact hc c h
  · exact hd c h

theorem survives_read_bind_of_eq {f : σ → Steps ℓ σ α} (h : ∀ t, P t → Survives (· = t) (f t) Q C) :
    Survives P (read >>= f) Q C := fun s hs => h s hs s rfl

theorem survives_read_bind {f : σ → Steps ℓ σ α} (h : ∀ t, Survives P (f t) Q C) :
    Survives P (read >>= f) Q C := fun s hs => h s s hs

/-- Rule of consequence. -/
theorem Survives.imp {p : Steps ℓ σ α} (h : Survives P p Q C) (hp : ∀ s, P' s → P s)
    (hq : ∀ a s, Q a s → Q' a s) (hc : ∀ x s, C x s → C' x s) : Survives P' p Q' C' := by
  intro s hs
  obtain ⟨hr, hd⟩ := h s (hp s hs)
  refine ⟨hq _ _ hr, ?_⟩
  intro c hmem
  exact hc _ _ (hd c hmem)

/-- Wherever it is cut short, a method keeps what it keeps at every operation. -/
theorem Survives.cut [DecidableEq ℓ] {I : σ → Prop} {p : Steps ℓ σ α}
    (h : Survives P p (fun _ => I) (fun _ => I)) {s : σ} (hs : P s) (x : Option ℓ) : I (p.cut s x) := by
  obtain ⟨hq, hc⟩ := h s hs
  rw [Steps.cut]
  cases hfind : (p.course s).passed.find? fun c => some c.1 = x with
  | none => exact hq
  | some c => exact hc c (List.mem_of_find?_eq_some hfind)

end Rules

end Steps

end Hledac.Lib
