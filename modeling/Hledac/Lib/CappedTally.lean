import Mathlib.Data.Finset.Card
import Hledac.Lib.Grouping

/-!
# Counting up to a number of keys

A count that takes in nothing more once it has a given number of keys. It is the count of the part of the list that
brings the last of these keys, so it says how often they occur in the list only where none of them occurs again.
-/

namespace Hledac.Lib

universe u

namespace Dict

variable {K : Type u} [DecidableEq K] {cap : Nat} {k : K} {n : Nat} {ks before after : List K}

/-- `if len(d) < cap: d[k] = d.get(k, 0) + 1`, for every key. -/
def tallyUpTo (cap : Nat) (ks : List K) : Dict K Nat :=
  ks.foldl (fun d k => if d.size < cap then d.bump k else d) empty

/-! ### The whole count -/

theorem tally_append_singleton (ks : List K) (k : K) : tally some (ks ++ [k]) = (tally some ks).bump k := by
  rw [tally, List.foldl_append]
  rfl

theorem length_members_some (ks : List K) (k : K) : (members some k ks).length = ks.count k := by
  rw [members, List.count, List.countP_eq_length_filter]
  congr 2
  ext j
  by_cases h : j = k <;> simp [h]

theorem mem_keys_tally_some : k ∈ (tally some ks).keys ↔ k ∈ ks := by
  rw [mem_keys_tally]
  simp

theorem get?_tally_some (ks : List K) (k : K) :
    (tally some ks).get? k = if k ∈ ks then some (ks.count k) else none := by
  rw [get?_tally, length_members_some]
  by_cases h : k ∈ ks
  · have hne : members some k ks ≠ [] := List.ne_nil_of_mem (mem_members.2 ⟨h, rfl⟩)
    rw [if_neg hne, if_pos h]
  · have hnil : members some k ks = [] := by
      apply members_eq_nil
      intro j hj heq
      exact h (Option.some.inj heq ▸ hj)
    rw [if_pos hnil, if_neg h]

theorem size_tally_some (ks : List K) : (tally some ks).size = ks.toFinset.card := by
  rw [List.card_toFinset]
  apply size_eq_length ks.nodup_dedup
  intro j
  rw [List.mem_dedup, mem_keys_tally_some]

/-- The counts add up to the length of the list. -/
theorem total_tally_some (ks : List K) : (tally some ks).total id = ks.length := by
  induction ks using List.reverseRecOn with
  | nil => rfl
  | append_singleton ks k ih =>
    rw [tally_append_singleton, bump, total_insert, List.length_append, ← ih]
    cases hk : (tally some ks).get? k with
    | none =>
      rw [erase_of_notMem (notMem_keys_iff.2 hk)]
      exact Nat.add_comm _ _
    | some n =>
      rw [total_eq_add_erase id hk]
      simp only [id, Option.getD_some, List.length_singleton]
      omega

/-! ### The part that is counted -/

/-- The part of a list that brings a number of distinct keys, or the whole list where it has fewer. -/
def Fills (cap : Nat) (before : List K) : Prop :=
  before.toFinset.card = cap ∧ ∀ first k rest, before = first ++ k :: rest → first.toFinset.card < cap

theorem card_toFinset_append_le (before after : List K) : before.toFinset.card ≤ (before ++ after).toFinset.card := by
  apply Finset.card_le_card
  intro j hj
  rw [List.mem_toFinset] at hj ⊢
  exact List.mem_append_left after hj

theorem card_toFinset_concat_le (ks : List K) (k : K) : (ks ++ [k]).toFinset.card ≤ ks.toFinset.card + 1 := by
  have heq : (ks ++ [k]).toFinset = Insert.insert k ks.toFinset := by
    ext j
    simp
  rw [heq]
  exact Finset.card_insert_le _ _

theorem exists_fills (cap : Nat) (ks : List K) :
    ks.toFinset.card < cap ∨ ∃ before after, ks = before ++ after ∧ Fills cap before := by
  induction ks using List.reverseRecOn with
  | nil =>
    cases cap with
    | zero => exact .inr ⟨[], [], rfl, rfl, fun first k rest h => by simp at h⟩
    | succ cap => exact .inl (Nat.succ_pos cap)
  | append_singleton ks k ih =>
    rcases ih with hlt | ⟨before, after, rfl, hfills⟩
    · by_cases hcard : (ks ++ [k]).toFinset.card < cap
      · exact .inl hcard
      · refine .inr ⟨ks ++ [k], [], (List.append_nil _).symm, ?_, ?_⟩
        · have hle := card_toFinset_concat_le ks k
          omega
        · intro first j rest heq
          rcases List.eq_nil_or_concat' rest with rfl | ⟨rest, l, rfl⟩
          · rw [← (List.append_inj' heq rfl).1]
            exact hlt
          · have hconcat : ks ++ [k] = (first ++ j :: rest) ++ [l] := by
              rw [heq, List.append_assoc, List.cons_append]
            rw [(List.append_inj' hconcat rfl).1] at hlt
            exact Nat.lt_of_le_of_lt (card_toFinset_append_le first _) hlt
    · exact .inr ⟨before, after ++ [k], List.append_assoc _ _ _, hfills⟩

theorem tallyUpTo_concat (cap : Nat) (ks : List K) (k : K) : tallyUpTo cap (ks ++ [k]) =
    if (tallyUpTo cap ks).size < cap then (tallyUpTo cap ks).bump k else tallyUpTo cap ks := by
  rw [tallyUpTo, List.foldl_append]
  rfl

/-- Before the last of its keys has come, the count is the whole one. -/
theorem tallyUpTo_eq_tally (h : ∀ first k rest, ks = first ++ k :: rest → first.toFinset.card < cap) :
    tallyUpTo cap ks = tally some ks := by
  induction ks using List.reverseRecOn with
  | nil => rfl
  | append_singleton ks k ih =>
    have hks := ih fun first j rest heq => h first j (rest ++ [k]) (by rw [heq, List.append_assoc, List.cons_append])
    rw [tallyUpTo_concat, hks, tally_append_singleton, size_tally_some, if_pos (h ks k [] rfl)]

theorem tallyUpTo_append (h : cap ≤ (tallyUpTo cap before).size) (after : List K) :
    tallyUpTo cap (before ++ after) = tallyUpTo cap before := by
  induction after using List.reverseRecOn with
  | nil => rw [List.append_nil]
  | append_singleton after k ih => rw [← List.append_assoc, tallyUpTo_concat, ih, if_neg (by omega)]

theorem tallyUpTo_of_lt (h : ks.toFinset.card < cap) : tallyUpTo cap ks = tally some ks := by
  apply tallyUpTo_eq_tally
  rintro first k rest rfl
  exact Nat.lt_of_le_of_lt (card_toFinset_append_le first _) h

theorem tallyUpTo_of_fills (h : Fills cap before) (after : List K) :
    tallyUpTo cap (before ++ after) = tally some before := by
  have hbefore := tallyUpTo_eq_tally h.2
  rw [tallyUpTo_append _ after, hbefore]
  rw [hbefore, size_tally_some, h.1]

theorem size_tallyUpTo_le (cap : Nat) (ks : List K) : (tallyUpTo cap ks).size ≤ cap := by
  rcases exists_fills cap ks with hlt | ⟨before, after, rfl, hfills⟩
  · rw [tallyUpTo_of_lt hlt, size_tally_some]
    omega
  · rw [tallyUpTo_of_fills hfills, size_tally_some, hfills.1]

/-- Every count is that of its key in the list when and only when none of the keys occurs after the last of them has
come. -/
theorem tallyUpTo_counts_iff : (∀ k n, (tallyUpTo cap ks).get? k = some n → n = ks.count k) ↔
    ∀ before after, ks = before ++ after → before.toFinset.card = cap → ∀ k ∈ after, k ∉ before := by
  rcases exists_fills cap ks with hlt | ⟨before, after, rfl, hfills⟩
  · refine iff_of_true ?_ ?_
    · intro k n hk
      rw [tallyUpTo_of_lt hlt, get?_tally_some] at hk
      split at hk
      · exact (Option.some.inj hk).symm
      · cases hk
    · rintro before after rfl hcard
      exact absurd hlt (Nat.not_lt.2 (hcard ▸ card_toFinset_append_le before after))
  · rw [tallyUpTo_of_fills hfills]
    constructor
    · intro hcounts first rest heq hcard k hrest hfirst
      -- a part with as many keys extends the part that is counted, and has the same keys
      rcases List.append_eq_append_iff.1 heq.symm with ⟨more, rfl, rfl⟩ | ⟨more, rfl, rfl⟩
      · cases more with
        | nil =>
          have hcount := hcounts k _ (by rw [get?_tally_some, if_pos (by simpa using hfirst)])
          have hpos := List.count_pos_iff.2 hrest
          simp only [List.append_nil, List.nil_append, List.count_append] at hcount hpos
          omega
        | cons j more => exact absurd (hfills.2 first j more rfl) (by omega)
      · have hsame : k ∈ before := by
          have hsub : before.toFinset ⊆ (before ++ more).toFinset := by
            intro j hj
            rw [List.mem_toFinset] at hj ⊢
            exact List.mem_append_left more hj
          have heq := Finset.eq_of_subset_of_card_le hsub (by rw [hcard, hfills.1])
          rw [← List.mem_toFinset, heq, List.mem_toFinset]
          exact hfirst
        have hcount := hcounts k _ (by rw [get?_tally_some, if_pos hsame])
        have hpos := List.count_pos_iff.2 hrest
        simp only [List.count_append] at hcount
        omega
    · intro hnone k n hk
      rw [get?_tally_some] at hk
      split at hk
      · next hbefore =>
        have hafter : after.count k = 0 := by
          rw [List.count_eq_zero]
          intro hafter
          exact hnone before after rfl hfills.1 k hafter hbefore
        rw [List.count_append, hafter, Nat.add_zero]
        exact (Option.some.inj hk).symm
      · cases hk

/-- Where no key is left out, right counts add up to the length of the list. -/
theorem total_tallyUpTo (hcounts : ∀ k n, (tallyUpTo cap ks).get? k = some n → n = ks.count k)
    (hkeys : ∀ k ∈ ks, k ∈ (tallyUpTo cap ks).keys) : (tallyUpTo cap ks).total id = ks.length := by
  rcases exists_fills cap ks with hlt | ⟨before, after, rfl, hfills⟩
  · rw [tallyUpTo_of_lt hlt, total_tally_some]
  · have hnone := tallyUpTo_counts_iff.1 hcounts before after rfl hfills.1
    rw [tallyUpTo_of_fills hfills] at hkeys ⊢
    cases after with
    | nil => rw [total_tally_some, List.append_nil]
    | cons k after =>
      have hk := hkeys k (List.mem_append_right before List.mem_cons_self)
      exact absurd (mem_keys_tally_some.1 hk) (hnone k List.mem_cons_self)

end Dict

end Hledac.Lib
