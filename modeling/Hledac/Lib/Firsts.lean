import Mathlib.Data.List.Induction
import Mathlib.Data.List.Nodup

/-!
# First occurrences

The entries of a list whose key does not occur before them, and the others. Together they are the list, each part in
its order. A key that tells fewer entries apart keeps as many only where it tells the entries of the list apart as well
as the finer one.
-/

namespace Hledac.Lib

universe u v w

variable {α : Type u} {β : Type v} {γ : Type w} [DecidableEq β] [DecidableEq γ]

/-- The entries whose key does not occur before them. -/
def firsts (key : α → β) (l : List α) : List α :=
  (l.zipIdx.filter fun e => decide (key e.1 ∉ (l.take e.2).map key)).map Prod.fst

/-- The entries whose key occurs before them. -/
def repeats (key : α → β) (l : List α) : List α :=
  (l.zipIdx.filter fun e => decide (key e.1 ∈ (l.take e.2).map key)).map Prod.fst

section Basic

variable {key : α → β} {l xs ys : List α} {x : α}

/-- Entries are judged by what stands before them. -/
private theorem filter_zipIdx_concat (p : α → List α → Bool) (l : List α) (x : α) :
    ((l ++ [x]).zipIdx.filter fun e => p e.1 ((l ++ [x]).take e.2)).map Prod.fst =
      (l.zipIdx.filter fun e => p e.1 (l.take e.2)).map Prod.fst ++ if p x l then [x] else [] := by
  have hbefore : (l.zipIdx.filter fun e => p e.1 ((l ++ [x]).take e.2)) =
      l.zipIdx.filter fun e => p e.1 (l.take e.2) := by
    apply List.filter_congr
    intro e he
    have hlt : e.2 < l.length := by simpa using List.snd_lt_of_mem_zipIdx he
    rw [List.take_append_of_le_length (Nat.le_of_lt hlt)]
  rw [List.zipIdx_append, List.filter_append, List.map_append, hbefore]
  cases h : p x l <;> simp [h]

theorem firsts_concat (key : α → β) (l : List α) (x : α) :
    firsts key (l ++ [x]) = firsts key l ++ if key x ∈ l.map key then [] else [x] := by
  have hconcat := filter_zipIdx_concat (fun y before => decide (key y ∉ before.map key)) l x
  rw [firsts, hconcat, firsts]
  by_cases h : key x ∈ l.map key
  · rw [if_pos h, if_neg (by simpa using h)]
  · rw [if_neg h, if_pos (by simpa using h)]

theorem repeats_concat (key : α → β) (l : List α) (x : α) :
    repeats key (l ++ [x]) = repeats key l ++ if key x ∈ l.map key then [x] else [] := by
  have hconcat := filter_zipIdx_concat (fun y before => decide (key y ∈ before.map key)) l x
  rw [repeats, hconcat, repeats]
  by_cases h : key x ∈ l.map key
  · rw [if_pos h, if_pos (by simpa using h)]
  · rw [if_neg h, if_neg (by simpa using h)]

@[simp] theorem firsts_nil (key : α → β) : firsts key [] = [] := rfl

@[simp] theorem repeats_nil (key : α → β) : repeats key [] = [] := rfl

/-- Every entry is in one of the two parts. -/
theorem length_firsts_add_length_repeats (key : α → β) (l : List α) :
    (firsts key l).length + (repeats key l).length = l.length := by
  induction l using List.reverseRecOn with
  | nil => rfl
  | append_singleton l x ih =>
    rw [firsts_concat, repeats_concat]
    by_cases h : key x ∈ l.map key
    · simp [h]
      omega
    · simp [h]
      omega

/-- No key is lost. -/
theorem mem_map_firsts {k : β} : k ∈ (firsts key l).map key ↔ k ∈ l.map key := by
  induction l using List.reverseRecOn with
  | nil => rfl
  | append_singleton l x ih =>
    rw [firsts_concat, List.map_append, List.mem_append, ih, List.map_append, List.mem_append]
    by_cases h : key x ∈ l.map key
    · rw [if_pos h, List.map_nil]
      constructor
      · intro hk
        exact .inl (hk.resolve_right List.not_mem_nil)
      · intro hk
        cases hk with
        | inl hk => exact .inl hk
        | inr hk =>
          rw [List.map_singleton, List.mem_singleton] at hk
          exact .inl (hk ▸ h)
    · rw [if_neg h]

/-- No two entries kept have the same key. -/
theorem nodup_map_firsts (key : α → β) (l : List α) : ((firsts key l).map key).Nodup := by
  induction l using List.reverseRecOn with
  | nil => exact List.nodup_nil
  | append_singleton l x ih =>
    rw [firsts_concat]
    by_cases h : key x ∈ l.map key
    · rw [if_pos h, List.append_nil]
      exact ih
    · rw [if_neg h, List.map_append, List.nodup_append]
      refine ⟨ih, List.nodup_singleton _, ?_⟩
      intro a ha b hb hab
      rw [List.map_singleton, List.mem_singleton] at hb
      exact h (mem_map_firsts.1 (hb ▸ hab ▸ ha))

/-- More entries take nothing away from what is kept. -/
theorem firsts_prefix_append (key : α → β) (xs ys : List α) : firsts key xs <+: firsts key (xs ++ ys) := by
  induction ys using List.reverseRecOn with
  | nil => simp
  | append_singleton ys y ih =>
    rw [← List.append_assoc, firsts_concat]
    exact ih.trans (List.prefix_append _ _)

/-- Where no key comes twice everything is kept. -/
theorem firsts_eq_self (h : (l.map key).Nodup) : firsts key l = l := by
  induction l using List.reverseRecOn with
  | nil => rfl
  | append_singleton l x ih =>
    rw [List.map_append, List.nodup_append] at h
    have hnew : key x ∉ l.map key := fun hx => h.2.2 _ hx (key x) (by simp) rfl
    rw [firsts_concat, if_neg hnew, ih h.1]

/-- Leaving out repetitions changes the first entries unless they have none. -/
theorem take_firsts_eq_iff (n : Nat) : (firsts key l).take n = l.take n ↔ ((l.take n).map key).Nodup := by
  constructor
  · intro h
    rw [← h, List.map_take]
    exact (nodup_map_firsts key l).sublist (List.take_sublist _ _)
  · intro h
    have hprefix := firsts_prefix_append key (l.take n) (l.drop n)
    rw [firsts_eq_self h, List.take_append_drop] at hprefix
    have htake := List.prefix_iff_eq_take.1 hprefix
    rw [List.length_take] at htake
    by_cases hn : n ≤ l.length
    · rw [Nat.min_eq_left hn] at htake
      exact htake.symm
    · have hall : l.take n = l := List.take_of_length_le (Nat.le_of_not_le hn)
      rw [hall] at h ⊢
      rw [firsts_eq_self h, hall]

end Basic

/-! ### Two keys -/

section Compare

variable {coarse : α → β} {fine : α → γ} {l : List α}

theorem length_firsts_le (h : ∀ a b, fine a = fine b → coarse a = coarse b) (l : List α) :
    (firsts coarse l).length ≤ (firsts fine l).length := by
  induction l using List.reverseRecOn with
  | nil => exact Nat.le_refl _
  | append_singleton l x ih =>
    rw [firsts_concat, firsts_concat, List.length_append, List.length_append]
    apply Nat.add_le_add ih
    by_cases hfine : fine x ∈ l.map fine
    · have hcoarse : coarse x ∈ l.map coarse := by
        simp only [List.mem_map] at hfine ⊢
        exact hfine.imp fun y hy => ⟨hy.1, h y x hy.2⟩
      rw [if_pos hcoarse]
      exact Nat.zero_le _
    · rw [if_neg hfine]
      split <;> simp

/-- The coarser key keeps as many entries as the finer one exactly when it tells the entries apart as well. -/
theorem length_firsts_eq_iff (h : ∀ a b, fine a = fine b → coarse a = coarse b) :
    (firsts coarse l).length = (firsts fine l).length ↔ ∀ a ∈ l, ∀ b ∈ l, coarse a = coarse b → fine a = fine b := by
  induction l using List.reverseRecOn with
  | nil => simp
  | append_singleton l x ih =>
    have hle := length_firsts_le h l
    have hsub : fine x ∈ l.map fine → coarse x ∈ l.map coarse := by
      simp only [List.mem_map]
      exact fun hx => hx.imp fun y hy => ⟨hy.1, h y x hy.2⟩
    rw [firsts_concat, firsts_concat, List.length_append, List.length_append]
    constructor
    · intro heq
      have hboth : (firsts coarse l).length = (firsts fine l).length ∧ (coarse x ∈ l.map coarse → fine x ∈ l.map fine) := by
        by_cases hfine : fine x ∈ l.map fine
        · rw [if_pos hfine, if_pos (hsub hfine)] at heq
          exact ⟨heq, fun _ => hfine⟩
        · by_cases hcoarse : coarse x ∈ l.map coarse
          · simp [hfine, hcoarse] at heq
            omega
          · simp [hfine, hcoarse] at heq
            exact ⟨heq, fun hx => absurd hx hcoarse⟩
      have hold := ih.1 hboth.1
      -- an entry with the coarse key of `x` has the fine key of the entry that `x` repeats
      have hlast : ∀ a ∈ l, coarse a = coarse x → fine a = fine x := by
        intro a ha hax
        have hx := hboth.2 (List.mem_map.2 ⟨a, ha, hax⟩)
        obtain ⟨b, hb, hbx⟩ := List.mem_map.1 hx
        rw [← hbx]
        exact hold a ha b hb (hax.trans (h b x hbx).symm)
      intro a ha b hb hab
      rw [List.mem_append, List.mem_singleton] at ha hb
      cases ha with
      | inl ha =>
        cases hb with
        | inl hb => exact hold a ha b hb hab
        | inr hb =>
          rw [hb] at hab ⊢
          exact hlast a ha hab
      | inr ha =>
        cases hb with
        | inl hb =>
          rw [ha] at hab ⊢
          exact (hlast b hb hab.symm).symm
        | inr hb => rw [ha, hb]
    · intro hall
      have hold := ih.2 fun a ha b hb => hall a (List.mem_append_left _ ha) b (List.mem_append_left _ hb)
      have hx : coarse x ∈ l.map coarse ↔ fine x ∈ l.map fine := by
        refine ⟨fun hx => ?_, hsub⟩
        rw [List.mem_map] at hx ⊢
        exact hx.imp fun y hy => ⟨hy.1, hall y (List.mem_append_left _ hy.1) x (by simp) hy.2⟩
      simp only [hx, hold]

/-- Keys that tell the entries apart alike split the list alike. -/
theorem split_congr (h : ∀ a ∈ l, ∀ b ∈ l, coarse a = coarse b ↔ fine a = fine b) :
    firsts coarse l = firsts fine l ∧ repeats coarse l = repeats fine l := by
  induction l using List.reverseRecOn with
  | nil => exact ⟨rfl, rfl⟩
  | append_singleton l x ih =>
    have hold := ih fun a ha b hb => h a (List.mem_append_left _ ha) b (List.mem_append_left _ hb)
    have hx : coarse x ∈ l.map coarse ↔ fine x ∈ l.map fine := by
      simp only [List.mem_map]
      apply exists_congr
      intro a
      apply and_congr_right
      intro ha
      exact h a (List.mem_append_left _ ha) x (by simp)
    rw [firsts_concat, firsts_concat, repeats_concat, repeats_concat, hold.1, hold.2]
    simp only [hx, and_self]

end Compare

end Hledac.Lib
