import Mathlib.Data.List.Induction
import Mathlib.Data.List.Nodup
import Mathlib.Data.Set.Function

/-!
# Hash chains

A chain starts at a head `g`. Each link hashes an input that encodes the current head
together with the link's own content, and the digest becomes the new head. The heads of
a chain are `g` followed by the digests of its inputs. When the digest has no collision
on the inputs used and never returns to `g`, no head occurs twice.
-/

namespace Hledac.Lib.HashChain

universe u v w

variable {α : Type u} {δ : Type v} (H : α → δ) (dec : α → δ)

/-- Each input encodes the head before it; `dec` reads that head back. -/
def IsChain : δ → List α → Prop
  | _, [] => True
  | g, x :: rest => dec x = g ∧ IsChain (H x) rest

/-- All heads, in order: the start and the digest of every input. -/
def heads (g : δ) (xs : List α) : List δ := g :: xs.map H

/-- The head after the last input. -/
def last (g : δ) (xs : List α) : δ := (xs.getLast?.map H).getD g

variable {H dec}

@[simp] theorem last_nil (g : δ) : last H g [] = g := rfl

@[simp] theorem last_concat (g : δ) (xs : List α) (x : α) :
    last H g (xs ++ [x]) = H x := by
  simp [last]

theorem last_cons (g : δ) (x : α) (xs : List α) :
    last H g (x :: xs) = last H (H x) xs := by
  cases xs with
  | nil => rfl
  | cons y ys => simp [last, List.getLast?_cons]

theorem last_mem_heads (g : δ) (xs : List α) : last H g xs ∈ heads H g xs := by
  cases xs using List.reverseRecOn with
  | nil => simp [heads]
  | append_singleton xs x => simp [heads]

theorem isChain_concat {g : δ} {xs : List α} {x : α} :
    IsChain H dec g (xs ++ [x]) ↔ IsChain H dec g xs ∧ dec x = last H g xs := by
  induction xs generalizing g with
  | nil => simp [IsChain]
  | cons y ys ih => simp [IsChain, ih, last_cons, and_assoc]

theorem heads_concat (g : δ) (xs : List α) (x : α) :
    heads H g (xs ++ [x]) = heads H g xs ++ [H x] := by
  simp [heads]

/-- The head an input encodes stands in the list of heads at the input's own position. -/
theorem IsChain.dec_getElem {g : δ} {xs : List α} (h : IsChain H dec g xs) (i : Nat)
    (hi : i < xs.length) : (heads H g xs)[i]? = some (dec xs[i]) := by
  induction xs generalizing g i with
  | nil => simp at hi
  | cons y ys ih =>
    cases i with
    | zero => simp [heads, h.1]
    | succ i =>
      have hi' : i < ys.length := by simpa using hi
      simpa [heads] using ih h.2 i hi'

/-- The inputs encode all heads but the last, in order. -/
theorem IsChain.map_dec {g : δ} {xs : List α} (h : IsChain H dec g xs) :
    xs.map dec = (heads H g xs).dropLast := by
  induction xs generalizing g with
  | nil => rfl
  | cons x xs ih =>
    have hcons : heads H g (x :: xs) = g :: heads H (H x) xs := rfl
    rw [hcons, List.dropLast_cons_of_ne_nil (by simp [heads]), ← ih h.2, List.map_cons, h.1]

/-- **No head occurs twice**, when the digest has no collision on the inputs used and no
input hashes to the start. -/
theorem IsChain.nodup_heads {g : δ} {xs : List α} (h : IsChain H dec g xs)
    (hinj : Set.InjOn H {x | x ∈ xs}) (hg : ∀ x ∈ xs, H x ≠ g) : (heads H g xs).Nodup := by
  induction xs using List.reverseRecOn with
  | nil => simp [heads]
  | append_singleton xs x ih =>
    obtain ⟨hc, hx⟩ := isChain_concat.mp h
    have hnd : (heads H g xs).Nodup :=
      ih hc (hinj.mono fun y hy => List.mem_append_left _ hy)
        fun y hy => hg y (List.mem_append_left _ hy)
    rw [heads_concat]
    refine List.nodup_append.mpr ⟨hnd, List.nodup_singleton _, ?_⟩
    intro d hd e he hde
    rw [List.mem_singleton.mp he] at hde
    rcases List.mem_cons.mp hd with rfl | hd
    · exact hg x (by simp) hde.symm
    · -- An earlier input with the same digest is the same input, so the two encode the
      -- same head, which the shorter chain would then hold at two positions.
      obtain ⟨y, hy, rfl⟩ := List.mem_map.mp hd
      have hyx : y = x := hinj (by simp [hy]) (by simp) hde
      subst hyx
      obtain ⟨i, hi, hyi⟩ := List.getElem_of_mem hy
      have h1 : (heads H g xs)[i]? = some (dec y) := by rw [← hyi]; exact hc.dec_getElem i hi
      have h2 : (heads H g xs)[xs.length]? = some (dec y) := by
        rw [hx]
        cases xs using List.reverseRecOn with
        | nil => simp [heads]
        | append_singleton zs z => simp [heads]
      have hlen : (heads H g xs).length = xs.length + 1 := by simp [heads]
      have h12 := (List.nodup_iff_getElem?_ne_getElem?.mp hnd) i xs.length hi (by omega)
      exact h12 (h1.trans h2.symm)

/-- The pairs `(previous head, head)` of consecutive entries agree, from `g` on. -/
def Linked : δ → List (δ × δ) → Prop
  | _, [] => True
  | g, (p, c) :: rest => p = g ∧ Linked c rest

/-- Renaming the heads injectively keeps pairs linked. -/
theorem linked_map {ε : Type w} {f : δ → ε} (hf : Function.Injective f) {g : δ}
    {ps : List (δ × δ)} : Linked (f g) (ps.map (Prod.map f f)) ↔ Linked g ps := by
  induction ps generalizing g with
  | nil => simp [Linked]
  | cons p ps ih =>
    obtain ⟨a, b⟩ := p
    simp only [List.map_cons, Prod.map_apply, Linked, hf.eq_iff, ih]

instance decidableLinked [DecidableEq δ] :
    ∀ (g : δ) (ps : List (δ × δ)), Decidable (Linked g ps)
  | _, [] => isTrue trivial
  | g, (p, c) :: rest =>
    have := decidableLinked c rest
    inferInstanceAs (Decidable (p = g ∧ Linked c rest))

/-! ### Publishing along a chain -/

/-- One visit to a chain: nothing, or inputs hashed onto it one after the other, of which the
first link is published or none is. -/
inductive Move (α : Type u) where
  | idle
  | hidden (x : α) (more : List α)
  | published (x : α) (more : List α)

/-- The inputs of a visit. -/
def Move.inputs : Move α → List α
  | .idle => []
  | .hidden x more => x :: more
  | .published x more => x :: more

/-- The visit leaves the chain at another head. -/
def Move.Advances : Move α → Prop
  | .idle => False
  | _ => True

/-- The visit publishes a link. -/
def Move.Publishes : Move α → Prop
  | .published _ _ => True
  | _ => False

/-- The visit leaves the chain at the link it published. -/
def Move.Keeps : Move α → Prop
  | .published _ [] => True
  | _ => False

/-- All inputs of a list of visits. -/
def inputs (ms : List (Move α)) : List α := ms.flatMap Move.inputs

/-- The published links, each with the head before it. -/
def links (H : α → δ) : δ → List (Move α) → List (δ × δ)
  | _, [] => []
  | g, .idle :: ms => links H g ms
  | _, .hidden x more :: ms => links H (last H (H x) more) ms
  | g, .published x more :: ms => (g, H x) :: links H (last H (H x) more) ms

theorem links_cons (g : δ) (m : Move α) (ms : List (Move α)) :
    links H g (m :: ms) = links H g [m] ++ links H (last H g m.inputs) ms := by
  cases m with
  | idle => rfl
  | hidden x more => simp [links, Move.inputs, last_cons]
  | published x more => simp [links, Move.inputs, last_cons]

theorem heads_append (g : δ) (xs ys : List α) :
    heads H g (xs ++ ys) = (heads H g xs).dropLast ++ heads H (last H g xs) ys := by
  induction xs generalizing g with
  | nil => rfl
  | cons x xs ih =>
    have hcons : ∀ zs, heads H g (x :: zs) = g :: heads H (H x) zs := fun zs => rfl
    rw [List.cons_append, hcons, hcons, ih, last_cons, List.dropLast_cons_of_ne_nil (by
      simp [heads]), List.cons_append]

/-- The heads from the end of a visit on occur once, and no earlier head is among them. -/
private theorem nodup_heads_after {g : δ} {x : α} (more rest : List α)
    (h : (heads H g (x :: more ++ rest)).Nodup) :
    (heads H (last H (H x) more) rest).Nodup ∧ g ∉ heads H (last H (H x) more) rest ∧
      (more ≠ [] → H x ∉ heads H (last H (H x) more) rest) := by
  rw [heads_append, last_cons] at h
  obtain ⟨_, hnd, hdis⟩ := List.nodup_append.mp h
  refine ⟨hnd, fun hg => ?_, fun hne hx => ?_⟩
  · refine hdis g ?_ g hg rfl
    simp [heads]
  · refine hdis (H x) ?_ (H x) hx rfl
    cases more with
    | nil => exact absurd rfl hne
    | cons y ys => simp [heads]

/-- From a head the chain never returns to, links are connected only if there are none. -/
private theorem linked_links_of_not_mem {e g : δ} {ms : List (Move α)}
    (he : e ∉ heads H g (inputs ms)) :
    Linked e (links H g ms) ↔ ∀ m ∈ ms, ¬ m.Publishes := by
  induction ms generalizing g with
  | nil => simp [links, Linked]
  | cons m ms ih =>
    rw [List.forall_mem_cons]
    cases m with
    | idle => simpa [links, Move.Publishes] using ih he
    | hidden x more =>
      have he' : e ∉ heads H (last H (H x) more) (inputs ms) := by
        intro hm
        apply he
        show e ∈ heads H g (x :: more ++ inputs ms)
        rw [heads_append, last_cons]
        exact List.mem_append_right _ hm
      simpa [links, Move.Publishes] using ih he'
    | published x more =>
      have hne : g ≠ e := by
        rintro rfl
        exact he List.mem_cons_self
      simp [links, Linked, hne, Move.Publishes]

/-- **When published links form one chain**: exactly when every visit that advances the chain
before a later publishing one leaves it at its own published link. -/
theorem linked_links_iff {g : δ} {ms : List (Move α)} (hn : (heads H g (inputs ms)).Nodup) :
    Linked g (links H g ms) ↔
      ms.Pairwise fun a b => a.Advances → b.Publishes → a.Keeps := by
  induction ms generalizing g with
  | nil => simp [links, Linked]
  | cons m ms ih =>
    rw [List.pairwise_cons]
    cases m with
    | idle => simpa [links, Move.Advances] using ih hn
    | hidden x more =>
      obtain ⟨hnd, hg, _⟩ := nodup_heads_after more (inputs ms) hn
      rw [links, linked_links_of_not_mem hg]
      constructor
      · intro h
        refine ⟨fun b hb _ hp => absurd hp (h b hb), ?_⟩
        exact List.pairwise_of_forall_mem_list fun a _ b hb _ hp => absurd hp (h b hb)
      · intro h b hb hp
        exact h.1 b hb trivial hp
    | published x more =>
      obtain ⟨hnd, hg, hx⟩ := nodup_heads_after more (inputs ms) hn
      have hl : Linked g (links H g (.published x more :: ms)) ↔
          Linked (H x) (links H (last H (H x) more) ms) := by
        simp [links, Linked]
      rw [hl]
      cases more with
      | nil =>
        rw [last_nil] at hnd ⊢
        rw [ih hnd]
        simp [Move.Keeps]
      | cons y ys =>
        rw [linked_links_of_not_mem (hx (by simp))]
        constructor
        · intro h
          refine ⟨fun b hb _ hp => absurd hp (h b hb), ?_⟩
          exact List.pairwise_of_forall_mem_list fun a _ b hb _ hp => absurd hp (h b hb)
        · intro h b hb hp
          exact h.1 b hb trivial hp

/-- Every link is published at a head of the chain. -/
theorem fst_mem_heads_of_mem_links {g : δ} {ms : List (Move α)} {p : δ × δ}
    (h : p ∈ links H g ms) : p.1 ∈ heads H g (inputs ms) := by
  induction ms generalizing g with
  | nil => simp [links] at h
  | cons m ms ih =>
    have hlater : ∀ x more, p ∈ links H (last H (H x) more) ms →
        p.1 ∈ heads H g (x :: more ++ inputs ms) := by
      intro x more hp
      rw [heads_append, last_cons]
      exact List.mem_append_right _ (ih hp)
    cases m with
    | idle => exact ih h
    | hidden x more => exact hlater x more h
    | published x more =>
      rcases List.mem_cons.mp h with rfl | h
      · exact List.mem_cons_self
      · exact hlater x more h

private theorem not_linked_of_not_mem {e g : δ} {ms : List (Move α)}
    (he : e ∉ heads H g (inputs ms)) {k : Nat} (hk : (links H g ms).drop k ≠ []) :
    ¬ Linked e ((links H g ms).drop k) := by
  intro hl
  obtain ⟨p, ps, hps⟩ := List.exists_cons_of_ne_nil hk
  have hp : p ∈ links H g ms := List.drop_subset k _ (by rw [hps]; exact List.mem_cons_self)
  rw [hps] at hl
  apply he
  rw [← hl.1]
  exact fst_mem_heads_of_mem_links hp

/-- The links left when the oldest ones are dropped do not start where the chain does. -/
theorem not_linked_drop_links {g : δ} {ms : List (Move α)}
    (hn : (heads H g (inputs ms)).Nodup) {k : Nat} (hk : (links H g ms).drop (k + 1) ≠ []) :
    ¬ Linked g ((links H g ms).drop (k + 1)) := by
  induction ms generalizing k with
  | nil => simp [links] at hk
  | cons m ms ih =>
    cases m with
    | idle => exact ih hn hk
    | hidden x more =>
      obtain ⟨_, hg, _⟩ := nodup_heads_after more (inputs ms) hn
      exact not_linked_of_not_mem hg hk
    | published x more =>
      obtain ⟨_, hg, _⟩ := nodup_heads_after more (inputs ms) hn
      exact not_linked_of_not_mem hg (k := k) hk

end Hledac.Lib.HashChain
