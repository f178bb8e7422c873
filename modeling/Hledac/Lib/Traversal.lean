import Mathlib.Data.List.Nodup
import Mathlib.Logic.Relation

/-!
# Depth-first traversal

The item of a key is listed after the items that it names have been visited, and a key is visited once. Every call
takes a frame of a stack; one frame more than there are items is enough.
-/

namespace Hledac.Lib

/-- Items under their keys, and the keys that an item names. -/
structure ItemGraph (κ ε : Type*) where
  find : κ → Option ε
  key : ε → κ
  key_of_find : ∀ k e, find k = some e → key e = k
  sources : ε → List κ

namespace ItemGraph

variable {κ ε : Type*} [DecidableEq κ] (g : ItemGraph κ ε)

/-- The call for a key, on a stack with some frames left: the keys visited so far, and the items listed. -/
def traverse : Nat → κ → List κ × List ε → Option (List κ × List ε)
  | 0, _, _ => none
  | frames + 1, k, s =>
    if k ∈ s.1 then some s
    else
      match g.find k with
      | none => some (k :: s.1, s.2)
      | some e =>
        ((g.sources e).foldlM (fun s j => traverse frames j s) (k :: s.1, s.2)).map fun t => (t.1, t.2 ++ [e])

/-- A key is named by the item of another one. -/
def Names (k j : κ) : Prop := ∃ e, g.find k = some e ∧ j ∈ g.sources e

def Reaches : κ → κ → Prop := Relation.ReflTransGen g.Names

/-- What the calls for some keys do, with `v` visited before them and `v'` after: they list the items `d`. -/
structure Traversed (ks v v' : List κ) (d : List ε) : Prop where
  subset : v ⊆ v'
  roots : ks ⊆ v'
  reaches : ∀ j ∈ v', j ∉ v → ∃ k ∈ ks, g.Reaches k j
  mem : ∀ e, e ∈ d ↔ ∃ j ∈ v', j ∉ v ∧ g.find j = some e
  closed : ∀ e ∈ d, g.sources e ⊆ v'
  nodup : (d.map g.key).Nodup
  order : ∀ e ∈ d, ∀ j ∈ g.sources e, ∀ e', g.find j = some e' → j ∈ v ∨ [e', e].Sublist d ∨ g.Reaches j (g.key e)

variable {g}

namespace Traversed

variable {k : κ} {ks ls v v' v'' : List κ} {d d' : List ε} {e : ε}

omit [DecidableEq κ] in
theorem key (h : g.Traversed ks v v' d) (he : e ∈ d) : g.key e ∈ v' ∧ g.key e ∉ v ∧ g.find (g.key e) = some e := by
  obtain ⟨j, hj, hnew, hfind⟩ := (h.mem e).1 he
  rw [g.key_of_find j e hfind]
  exact ⟨hj, hnew, hfind⟩

omit [DecidableEq κ] in
theorem nil (v : List κ) : g.Traversed [] v v [] :=
  ⟨List.Subset.refl v, nofun, fun _ hj hnew => absurd hj hnew,
    fun _ => ⟨nofun, fun ⟨_, hj, hnew, _⟩ => absurd hj hnew⟩, nofun, List.nodup_nil, nofun⟩

omit [DecidableEq κ] in
/-- A key that has been visited. -/
theorem again (hk : k ∈ v) : g.Traversed [k] v v [] :=
  { nil v with
    roots := List.cons_subset.2 ⟨hk, nofun⟩
    reaches := fun _ hj hnew => absurd hj hnew }

omit [DecidableEq κ] in
/-- A key without an item. -/
theorem missing (hfind : g.find k = none) : g.Traversed [k] v (k :: v) [] where
  subset := List.subset_cons_self _ _
  roots := List.cons_subset.2 ⟨List.mem_cons_self, nofun⟩
  reaches j hj hnew := ⟨k, List.mem_cons_self, (List.mem_cons.1 hj).resolve_right hnew ▸ .refl⟩
  mem e := by
    refine ⟨nofun, ?_⟩
    rintro ⟨j, hj, hnew, hj'⟩
    rw [(List.mem_cons.1 hj).resolve_right hnew, hfind] at hj'
    cases hj'
  closed := nofun
  nodup := List.nodup_nil
  order := nofun

/-- The calls for some keys, and then those for more. -/
theorem append (h : g.Traversed ks v v' d) (h' : g.Traversed ls v' v'' d') :
    g.Traversed (ks ++ ls) v v'' (d ++ d') where
  subset := List.Subset.trans h.subset h'.subset
  roots := List.append_subset.2 ⟨List.Subset.trans h.roots h'.subset, h'.roots⟩
  reaches j hj hnew := by
    by_cases hj' : j ∈ v'
    · obtain ⟨k, hk, hreach⟩ := h.reaches j hj' hnew
      exact ⟨k, List.mem_append_left _ hk, hreach⟩
    · obtain ⟨k, hk, hreach⟩ := h'.reaches j hj hj'
      exact ⟨k, List.mem_append_right _ hk, hreach⟩
  mem e := by
    rw [List.mem_append, h.mem, h'.mem]
    constructor
    · rintro (⟨j, hj, hnew, hfind⟩ | ⟨j, hj, hnew, hfind⟩)
      · exact ⟨j, h'.subset hj, hnew, hfind⟩
      · exact ⟨j, hj, fun hv => hnew (h.subset hv), hfind⟩
    · rintro ⟨j, hj, hnew, hfind⟩
      by_cases hj' : j ∈ v'
      · exact .inl ⟨j, hj', hnew, hfind⟩
      · exact .inr ⟨j, hj, hj', hfind⟩
  closed e he := (List.mem_append.1 he).elim (fun he => List.Subset.trans (h.closed e he) h'.subset) (h'.closed e)
  nodup := by
    rw [List.map_append]
    refine h.nodup.append h'.nodup fun k hk hk' => ?_
    obtain ⟨e, he, rfl⟩ := List.mem_map.1 hk
    obtain ⟨e', he', heq⟩ := List.mem_map.1 hk'
    exact (h'.key he').2.1 (heq ▸ (h.key he).1)
  order e he j hj e' hfind := by
    obtain he | he := List.mem_append.1 he
    · exact (h.order e he j hj e' hfind).imp_right (Or.imp_left fun hsub => hsub.trans (List.sublist_append_left _ _))
    · obtain hv | hsub | hreach := h'.order e he j hj e' hfind
      · -- what was visited before the calls for `ls` has been visited before all of them, or is in `d`
        by_cases hj' : j ∈ v
        · exact .inl hj'
        · have hmem : e' ∈ d := (h.mem e').2 ⟨j, hv, hj', hfind⟩
          exact .inr (.inl ((List.singleton_sublist.2 hmem).append (List.singleton_sublist.2 he)))
      · exact .inr (.inl (hsub.trans (List.sublist_append_right _ _)))
      · exact .inr (.inr hreach)

/-- A key whose item has just been found, after the calls for what the item names. -/
theorem item (h : g.Traversed (g.sources e) (k :: v) v' d) (hfind : g.find k = some e) (hk : k ∉ v) :
    g.Traversed [k] v v' (d ++ [e]) := by
  have hself : k ∈ v' := h.subset List.mem_cons_self
  have hreaches : ∀ j ∈ v', j ∉ v → g.Reaches k j := by
    intro j hj hnew
    by_cases heq : j = k
    · exact heq ▸ .refl
    · obtain ⟨i, hi, hreach⟩ := h.reaches j hj fun hmem => (List.mem_cons.1 hmem).elim heq hnew
      exact .head ⟨e, hfind, hi⟩ hreach
  refine ⟨fun j hj => h.subset (List.mem_cons_of_mem k hj), List.cons_subset.2 ⟨hself, nofun⟩,
    fun j hj hnew => ⟨k, List.mem_cons_self, hreaches j hj hnew⟩, fun e' => ?_, fun e' he' => ?_, ?_,
    fun e' he' j hj e'' hj' => ?_⟩
  · rw [List.mem_append, h.mem, List.mem_singleton]
    constructor
    · rintro (⟨j, hj, hnew, hj'⟩ | rfl)
      · exact ⟨j, hj, fun hv => hnew (List.mem_cons_of_mem k hv), hj'⟩
      · exact ⟨k, hself, hk, hfind⟩
    · rintro ⟨j, hj, hnew, hj'⟩
      by_cases heq : j = k
      · rw [heq, hfind] at hj'
        exact .inr (Option.some.inj hj').symm
      · exact .inl ⟨j, hj, fun hmem => (List.mem_cons.1 hmem).elim heq hnew, hj'⟩
  · obtain he' | he' := List.mem_append.1 he'
    · exact h.closed e' he'
    · exact List.mem_singleton.1 he' ▸ h.roots
  · rw [List.map_append]
    refine h.nodup.append (List.nodup_singleton _) fun j hj hj' => ?_
    obtain ⟨e', he', rfl⟩ := List.mem_map.1 hj
    refine (h.key he').2.1 ?_
    rw [List.mem_singleton.1 hj', g.key_of_find k e hfind]
    exact List.mem_cons_self
  · obtain he' | he' := List.mem_append.1 he'
    · obtain hv | hsub | hreach := h.order e' he' j hj e'' hj'
      · obtain rfl | hv := List.mem_cons.1 hv
        · have hkey := h.key he'
          exact .inr (.inr (hreaches _ hkey.1 fun hv => hkey.2.1 (List.mem_cons_of_mem _ hv)))
        · exact .inl hv
      · exact .inr (.inl (hsub.trans (List.sublist_append_left _ _)))
      · exact .inr (.inr hreach)
    · obtain rfl := List.mem_singleton.1 he'
      by_cases heq : j = k
      · rw [heq, g.key_of_find k e' hfind]
        exact .inr (.inr .refl)
      · by_cases hv : j ∈ v
        · exact .inl hv
        · have hmem : e'' ∈ d :=
            (h.mem e'').2 ⟨j, h.roots hj, fun hmem => (List.mem_cons.1 hmem).elim heq hv, hj'⟩
          exact .inr (.inl ((List.singleton_sublist.2 hmem).append (List.Sublist.refl _)))

omit [DecidableEq κ] in
/-- From the start, all items are listed that can be reached. -/
theorem mem_iff (h : g.Traversed [k] [] v' d) : e ∈ d ↔ g.Reaches k (g.key e) ∧ g.find (g.key e) = some e := by
  have hall : ∀ j, g.Reaches k j → (g.find j).isSome = true → j ∈ v' := by
    intro j hreach
    induction hreach with
    | refl => exact fun _ => h.roots List.mem_cons_self
    | tail _ hnames ih =>
      obtain ⟨e', hfind, hj⟩ := hnames
      have hmem := ih (by rw [hfind, Option.isSome_some])
      exact fun _ => h.closed e' ((h.mem e').2 ⟨_, hmem, List.not_mem_nil, hfind⟩) hj
  constructor
  · intro he
    obtain ⟨hv, _, hfind⟩ := h.key he
    obtain ⟨i, hi, hreach⟩ := h.reaches _ hv List.not_mem_nil
    exact ⟨List.mem_singleton.1 hi ▸ hreach, hfind⟩
  · rintro ⟨hreach, hfind⟩
    exact (h.mem e).2 ⟨_, hall _ hreach (by rw [hfind, Option.isSome_some]), List.not_mem_nil, hfind⟩

end Traversed

/-- A call returns where the stack has more frames than there are items to visit. -/
theorem exists_traverse {keys : List κ} (hkeys : ∀ k e, g.find k = some e → k ∈ keys) :
    ∀ (frames : Nat) (k : κ) (s : List κ × List ε), (keys.filter fun j => decide (j ∉ s.1)).length < frames →
      ∃ v d, g.traverse frames k s = some (v, s.2 ++ d) ∧ g.Traversed [k] s.1 v d
  | 0, _, _, h => absurd h (Nat.not_lt_zero _)
  | frames + 1, k, s, h => by
    rw [traverse]
    split
    · next hk => exact ⟨s.1, [], by rw [List.append_nil], .again hk⟩
    · next hk =>
      split
      · next hfind => exact ⟨k :: s.1, [], by rw [List.append_nil], .missing hfind⟩
      · next e hfind =>
        have hlt : (keys.filter fun j => decide (j ∉ k :: s.1)).length < frames := by
          have hmem : k ∈ keys.filter fun j => decide (j ∉ s.1) :=
            List.mem_filter.2 ⟨hkeys k e hfind, decide_eq_true hk⟩
          have hless := List.length_filter_lt_length_iff_exists (p := fun j => decide (j ≠ k)).2 ⟨k, hmem, by simp⟩
          simp only [List.filter_filter, ← Bool.decide_and, ne_eq, ← not_or, ← List.mem_cons] at hless
          omega
        have hfold : ∀ (js : List κ) (t : List κ × List ε), (keys.filter fun j => decide (j ∉ t.1)).length < frames →
            ∃ v d, js.foldlM (fun s j => g.traverse frames j s) t = some (v, t.2 ++ d) ∧ g.Traversed js t.1 v d := by
          intro js
          induction js with
          | nil => exact fun t _ => ⟨t.1, [], by simp, .nil t.1⟩
          | cons j js ih =>
            intro t ht
            obtain ⟨v, d, heq, hj⟩ := exists_traverse hkeys frames j t ht
            have hle : (keys.filter fun i => decide (i ∉ v)).length < frames := by
              refine Nat.lt_of_le_of_lt (List.monotone_filter_right keys fun i hi => ?_).length_le ht
              exact decide_eq_true fun hmem => of_decide_eq_true hi (hj.subset hmem)
            obtain ⟨v', d', heq', hjs⟩ := ih (v, t.2 ++ d) hle
            refine ⟨v', d ++ d', ?_, hj.append hjs⟩
            rw [List.foldlM_cons, heq]
            simpa using heq'
        obtain ⟨v, d, heq, hd⟩ := hfold (g.sources e) (k :: s.1, s.2) hlt
        refine ⟨v, d ++ [e], ?_, hd.item hfind hk⟩
        rw [heq, Option.map_some, List.append_assoc]

end ItemGraph

end Hledac.Lib
