import Mathlib.Data.List.Basic
import Mathlib.Data.List.Induction

/-!
# Runs of a deterministic machine

A machine is a total step function on a state. A run is the left fold of the step
over the list of its inputs. `StepsMeet` says that every step of a run meets a
condition on the state before it, and the rules below carry an invariant along.
-/

namespace Hledac.Lib

universe u v

variable {σ : Type u} {α : Type v} (step : σ → α → σ)

/-- Every step of the run from `s` meets `C` in the state it starts from. -/
def StepsMeet (C : σ → α → Prop) : σ → List α → Prop
  | _, [] => True
  | s, a :: rest => C s a ∧ StepsMeet C (step s a) rest

instance decidableStepsMeet (C : σ → α → Prop) [∀ s a, Decidable (C s a)] :
    ∀ (s : σ) (ops : List α), Decidable (StepsMeet step C s ops)
  | _, [] => isTrue trivial
  | s, a :: rest =>
    have := decidableStepsMeet C (step s a) rest
    inferInstanceAs (Decidable (C s a ∧ StepsMeet step C (step s a) rest))

variable {step}

/-- A run meets a condition exactly when its two halves do. -/
theorem stepsMeet_append {C : σ → α → Prop} {s : σ} {xs ys : List α} :
    StepsMeet step C s (xs ++ ys) ↔
      StepsMeet step C s xs ∧ StepsMeet step C (xs.foldl step s) ys := by
  induction xs generalizing s with
  | nil => simp [StepsMeet]
  | cons a xs ih => simp [StepsMeet, ih, and_assoc]

/-- Adding one step at the end adds its condition in the state reached so far. -/
theorem stepsMeet_concat {C : σ → α → Prop} {s : σ} {xs : List α} {a : α} :
    StepsMeet step C s (xs ++ [a]) ↔
      StepsMeet step C s xs ∧ C (xs.foldl step s) a := by
  simp [stepsMeet_append, StepsMeet]

/-- A run meets a condition exactly when each of its steps does, seen from the prefix before it. -/
theorem stepsMeet_iff_forall_concat {C : σ → α → Prop} {s : σ} {ops : List α} :
    StepsMeet step C s ops ↔ ∀ pre a, pre ++ [a] <+: ops → C (pre.foldl step s) a := by
  constructor
  · rintro h pre a ⟨rest, rfl⟩
    exact (stepsMeet_concat.1 (stepsMeet_append.1 h).1).2
  · intro h
    induction ops using List.reverseRecOn with
    | nil => trivial
    | append_singleton xs a ih =>
      refine stepsMeet_concat.2 ⟨ih fun pre b hp => ?_, h xs a (List.prefix_refl _)⟩
      exact h pre b (hp.trans (List.prefix_append xs [a]))

theorem stepsMeet_of_forall {C : σ → α → Prop} (h : ∀ s a, C s a) (s : σ)
    (ops : List α) : StepsMeet step C s ops := by
  induction ops generalizing s with
  | nil => trivial
  | cons a rest ih => exact ⟨h s a, ih (step s a)⟩

/-- Guarded invariant rule: what every step under `C` preserves holds after every run
whose steps all meet `C`. -/
theorem StepsMeet.invariant {C : σ → α → Prop} {I : σ → Prop}
    (hstep : ∀ s a, I s → C s a → I (step s a)) {s : σ} {ops : List α}
    (hs : StepsMeet step C s ops) (h0 : I s) : I (ops.foldl step s) := by
  induction ops generalizing s with
  | nil => exact h0
  | cons a rest ih => exact ih hs.2 (hstep s a h0 hs.1)

/-- Where the invariant and the guard of a step give a second condition, every run under the guard meets it. -/
theorem StepsMeet.of_invariant {C D : σ → α → Prop} {I : σ → Prop} (hstep : ∀ s a, I s → C s a → I (step s a))
    (hD : ∀ s a, I s → C s a → D s a) {s : σ} {ops : List α} (hs : StepsMeet step C s ops) (h0 : I s) :
    StepsMeet step D s ops := by
  induction ops generalizing s with
  | nil => trivial
  | cons a rest ih => exact ⟨hD s a h0 hs.1, ih hs.2 (hstep s a h0 hs.1)⟩

theorem foldl_invariant {I : σ → Prop} (hstep : ∀ s a, I s → I (step s a)) {s : σ}
    (ops : List α) (h0 : I s) : I (ops.foldl step s) :=
  (stepsMeet_of_forall (C := fun _ _ => True) (fun _ _ => trivial) s ops).invariant
    (fun s a h _ => hstep s a h) h0

/-- What holds throughout a run, with a stronger `K` that the steps under `C` carry along: when `C` says of
each step whether `I` holds after it, a run keeps `I` exactly when all its steps meet `C`. -/
theorem forall_prefix_iff_stepsMeet_of_carried {C : σ → α → Prop} {I K : σ → Prop} (hKI : ∀ s, K s → I s)
    (hK : ∀ s a, K s → C s a → K (step s a)) (hI : ∀ s a, K s → (I (step s a) ↔ C s a)) {s : σ}
    (hK0 : K s) (ops : List α) :
    (∀ pre, pre <+: ops → I (pre.foldl step s)) ↔ StepsMeet step C s ops := by
  constructor
  · intro h
    induction ops using List.reverseRecOn with
    | nil => trivial
    | append_singleton xs a ih =>
      have hxs : StepsMeet step C s xs := ih fun pre hp => h pre (hp.trans (List.prefix_append xs [a]))
      rw [stepsMeet_concat]
      refine ⟨hxs, (hI _ a (hxs.invariant hK hK0)).1 ?_⟩
      simpa using h (xs ++ [a]) (List.prefix_refl _)
  · rintro h pre ⟨rest, rfl⟩
    exact hKI _ ((stepsMeet_append.1 h).1.invariant hK hK0)

/-- What holds throughout a run. When `C` says of each step whether it keeps `I`, a run keeps `I`
from start to end exactly when all its steps meet `C`; `J` is what every step preserves. -/
theorem forall_prefix_iff_stepsMeet {C : σ → α → Prop} {I J : σ → Prop}
    (hJ : ∀ s a, J s → J (step s a)) (hI : ∀ s a, J s → I s → (I (step s a) ↔ C s a)) {s : σ}
    (hJ0 : J s) (hI0 : I s) (ops : List α) :
    (∀ pre, pre <+: ops → I (pre.foldl step s)) ↔ StepsMeet step C s ops :=
  forall_prefix_iff_stepsMeet_of_carried (K := fun s => J s ∧ I s) (fun _ h => h.2)
    (fun s a h hC => ⟨hJ s a h.1, (hI s a h.1 h.2).2 hC⟩) (fun s a h => hI s a h.1 h.2) ⟨hJ0, hI0⟩ ops

/-- The steps of a run, each with the state it starts from. -/
def trace (step : σ → α → σ) : σ → List α → List (σ × α)
  | _, [] => []
  | s, a :: rest => (s, a) :: trace step (step s a) rest

/-- Each step of a run starts where the steps before it end. -/
theorem exists_of_mem_trace {s : σ} {ops : List α} {p : σ × α} (h : p ∈ trace step s ops) :
    ∃ before after, ops = before ++ p.2 :: after ∧ p.1 = before.foldl step s := by
  induction ops generalizing s with
  | nil => simp [trace] at h
  | cons a rest ih =>
    rcases List.mem_cons.1 h with rfl | h
    · exact ⟨[], rest, rfl, rfl⟩
    · obtain ⟨before, after, hops, hp⟩ := ih h
      exact ⟨a :: before, after, by rw [hops]; rfl, hp⟩

theorem snd_mem_of_mem_trace {s : σ} {ops : List α} {p : σ × α} (h : p ∈ trace step s ops) :
    p.2 ∈ ops := by
  obtain ⟨before, after, hops, _⟩ := exists_of_mem_trace h
  simp [hops]

@[simp] theorem length_trace (s : σ) (ops : List α) : (trace step s ops).length = ops.length := by
  induction ops generalizing s with
  | nil => rfl
  | cons a rest ih => simp [trace, ih]

theorem stepsMeet_iff_forall_mem_trace {C : σ → α → Prop} {s : σ} {ops : List α} :
    StepsMeet step C s ops ↔ ∀ p ∈ trace step s ops, C p.1 p.2 := by
  induction ops generalizing s with
  | nil => simp [StepsMeet, trace]
  | cons a rest ih => simp [StepsMeet, trace, ih]

theorem invariant_of_mem_trace {I : σ → Prop} (hstep : ∀ s a, I s → I (step s a)) {s : σ} {ops : List α}
    (h0 : I s) {p : σ × α} (h : p ∈ trace step s ops) : I p.1 := by
  obtain ⟨before, after, _, hp⟩ := exists_of_mem_trace h
  rw [hp]
  exact foldl_invariant hstep before h0

/-- Two outputs of a list agree as a whole exactly when they agree item by item, where one is never the longer. -/
theorem flatMap_eq_iff_of_length_le {β : Type u} {f g : α → List β} {l : List α}
    (h : ∀ a ∈ l, (f a).length ≤ (g a).length) : l.flatMap f = l.flatMap g ↔ ∀ a ∈ l, f a = g a := by
  have hle : ∀ l : List α, (∀ a ∈ l, (f a).length ≤ (g a).length) →
      (l.flatMap f).length ≤ (l.flatMap g).length := by
    intro l h
    induction l with
    | nil => exact Nat.le_refl _
    | cons a rest ih =>
      rw [List.flatMap_cons, List.flatMap_cons, List.length_append, List.length_append]
      exact Nat.add_le_add (h a List.mem_cons_self) (ih fun b hb => h b (List.mem_cons_of_mem a hb))
  induction l with
  | nil => simp
  | cons a rest ih =>
    have hrest : ∀ b ∈ rest, (f b).length ≤ (g b).length := fun b hb => h b (List.mem_cons_of_mem a hb)
    rw [List.flatMap_cons, List.flatMap_cons, List.forall_mem_cons]
    constructor
    · intro heq
      have hlength := congrArg List.length heq
      have hshorter := hle rest hrest
      have hfirst := h a List.mem_cons_self
      rw [List.length_append, List.length_append] at hlength
      obtain ⟨ha, hflat⟩ := List.append_inj heq (by omega)
      exact ⟨ha, (ih hrest).1 hflat⟩
    · intro hand
      rw [hand.1, (ih hrest).2 hand.2]

theorem flatMap_eq_iff_of_sublist {β : Type u} {f g : α → List β} (h : ∀ a, (f a).Sublist (g a))
    {l : List α} : l.flatMap f = l.flatMap g ↔ ∀ a ∈ l, f a = g a :=
  flatMap_eq_iff_of_length_le fun a _ => (h a).length_le

end Hledac.Lib
