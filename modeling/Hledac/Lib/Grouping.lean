import Mathlib.Algebra.GroupWithZero.Nat
import Mathlib.Data.List.MinMax
import Mathlib.Data.List.Perm.Subperm
import Hledac.Lib.Dict

/-!
# Grouping by a key

The dictionary that collects elements under their keys, and the dictionary that counts them. For every key both say
what filtering for it says, so the order of the elements matters to each key on its own, and the orders of different
keys can be chosen independently.
-/

namespace Hledac.Lib

universe u v w

section Members

variable {α : Type u} {K : Type v} [DecidableEq K] {key : α → Option K} {j k : K} {xs ys part : List α}

/-- The elements with the key, in their order. -/
def members (key : α → Option K) (k : K) (xs : List α) : List α :=
  xs.filter fun x => decide (key x = some k)

/-- The elements without the key. -/
def others (key : α → Option K) (k : K) (xs : List α) : List α :=
  xs.filter fun x => !decide (key x = some k)

@[simp] theorem mem_members {x : α} : x ∈ members key k xs ↔ x ∈ xs ∧ key x = some k := by
  rw [members, List.mem_filter, decide_eq_true_iff]

theorem members_append : members key k (xs ++ ys) = members key k xs ++ members key k ys := List.filter_append ..

theorem members_perm (h : ys.Perm xs) (k : K) : (members key k ys).Perm (members key k xs) := h.filter _

theorem members_eq_self (h : ∀ x ∈ xs, key x = some k) : members key k xs = xs := by
  rw [members, List.filter_eq_self]
  intro x hx
  exact decide_eq_true (h x hx)

theorem members_eq_nil (h : ∀ x ∈ xs, key x ≠ some k) : members key k xs = [] := by
  rw [members, List.filter_eq_nil_iff]
  intro x hx hk
  exact h x hx (of_decide_eq_true hk)

theorem members_others_self : members key k (others key k xs) = [] := by
  apply members_eq_nil
  intro x hx hk
  simp [others, hk] at hx

theorem members_others_of_ne (h : j ≠ k) : members key j (others key k xs) = members key j xs := by
  rw [members, others, List.filter_filter]
  apply List.filter_congr
  intro x _
  by_cases hx : key x = some j
  · simp [hx, h]
  · simp [hx]

/-- One key's elements put in front, in the order given. -/
def arranged (key : α → Option K) (k : K) (part xs : List α) : List α := part ++ others key k xs

theorem arranged_perm (h : part.Perm (members key k xs)) : (arranged key k part xs).Perm xs :=
  (h.append_right _).trans (List.filter_append_perm _ _)

theorem members_arranged_self (h : part.Perm (members key k xs)) : members key k (arranged key k part xs) = part := by
  have hpart : ∀ x ∈ part, key x = some k := fun x hx => (mem_members.1 (h.mem_iff.1 hx)).2
  rw [arranged, members_append, members_others_self, List.append_nil]
  exact members_eq_self hpart

theorem members_arranged_of_ne (h : part.Perm (members key k xs)) (hne : j ≠ k) :
    members key j (arranged key k part xs) = members key j xs := by
  have hpart : members key j part = [] := by
    apply members_eq_nil
    intro x hx hj
    have hk := (mem_members.1 (h.mem_iff.1 hx)).2
    exact hne (Option.some_inj.1 (hj.symm.trans hk))
  rw [arranged, members_append, hpart, List.nil_append, members_others_of_ne hne]

/-- Orders of the elements of every key come from one order of all elements. -/
theorem exists_perm_of_members (xs : List α) (order : K → List α)
    (h : ∀ k, (order k).Perm (members key k xs)) : ∃ ys : List α, ys.Perm xs ∧ ∀ k, members key k ys = order k := by
  -- one key after the other, over the keys there are
  have hkeys : ∀ ks : List K, ∃ ys : List α, ys.Perm xs ∧
      ∀ k, members key k ys = if k ∈ ks then order k else members key k xs := by
    intro ks
    induction ks with
    | nil => exact ⟨xs, List.Perm.refl xs, fun k => rfl⟩
    | cons k ks ih =>
      obtain ⟨ys, hys, hmembers⟩ := ih
      have hpart : (order k).Perm (members key k ys) := (h k).trans (members_perm hys k).symm
      refine ⟨arranged key k (order k) ys, (arranged_perm hpart).trans hys, ?_⟩
      intro j
      by_cases hj : j = k
      · subst hj
        rw [members_arranged_self hpart, if_pos (List.mem_cons_self ..)]
      · rw [members_arranged_of_ne hpart hj, hmembers j]
        simp only [List.mem_cons, hj, false_or]
  obtain ⟨ys, hys, hmembers⟩ := hkeys (xs.filterMap key)
  refine ⟨ys, hys, ?_⟩
  intro k
  rw [hmembers k]
  split
  · rfl
  · next hk =>
    have hnil : members key k xs = [] := by
      apply members_eq_nil
      intro x hx hkey
      exact hk (List.mem_filterMap.2 ⟨x, hx, hkey⟩)
    have horder := h k
    rw [hnil] at horder ⊢
    exact horder.eq_nil.symm

end Members

/-! ### Dictionaries of lists and of counts -/

namespace Dict

variable {α : Type u} {K : Type v} [DecidableEq K] {key : α → Option K} {j k : K} {xs : List α}

/-- `d.setdefault(k, v)`. -/
def setDefault {V : Type w} (d : Dict K V) (k : K) (v : V) : Dict K V := if k ∈ d.keys then d else d.insert k v

/-- `d.setdefault(k, []).append(x)`. -/
def push (d : Dict K (List α)) (k : K) (x : α) : Dict K (List α) := d.insert k ((d.get? k).getD [] ++ [x])

/-- The elements pushed under their keys, those without a key left out. -/
def collect (key : α → Option K) (d : Dict K (List α)) (xs : List α) : Dict K (List α) :=
  xs.foldl (fun d x => match key x with
    | some k => d.push k x
    | none => d) d

/-- The elements under their keys. -/
def group (key : α → Option K) (xs : List α) : Dict K (List α) := collect key empty xs

theorem getD_push (d : Dict K (List α)) (k j : K) (x : α) :
    ((d.push k x).get? j).getD [] = (d.get? j).getD [] ++ if k = j then [x] else [] := by
  rw [push, get?_insert]
  split
  · next h => rw [h, Option.getD_some]
  · rw [List.append_nil]

theorem mem_keys_push {d : Dict K (List α)} {x : α} : j ∈ (d.push k x).keys ↔ j = k ∨ j ∈ d.keys := mem_keys_insert

theorem getD_collect (d : Dict K (List α)) (xs : List α) (k : K) :
    ((collect key d xs).get? k).getD [] = (d.get? k).getD [] ++ members key k xs := by
  induction xs generalizing d with
  | nil => exact (List.append_nil _).symm
  | cons x xs ih =>
    rw [collect, List.foldl_cons, ← collect, ih]
    cases hx : key x with
    | none => simp [members, hx]
    | some j =>
      simp only [getD_push, members, hx, List.filter_cons, Option.some_inj, decide_eq_true_eq, List.append_assoc]
      split <;> rfl

theorem mem_keys_collect (d : Dict K (List α)) (xs : List α) :
    k ∈ (collect key d xs).keys ↔ k ∈ d.keys ∨ ∃ x ∈ xs, key x = some k := by
  induction xs generalizing d with
  | nil => simp [collect]
  | cons x xs ih =>
    rw [collect, List.foldl_cons, ← collect, ih]
    cases hx : key x with
    | none => simp [hx]
    | some j => simp [hx, mem_keys_push, or_assoc, or_left_comm, eq_comm]

/-- The first key stays the first one. -/
theorem head?_keys_collect {d : Dict K (List α)} (h : d.keys.head? = some k) (xs : List α) :
    (collect key d xs).keys.head? = some k := by
  induction xs generalizing d with
  | nil => exact h
  | cons x xs ih =>
    rw [collect, List.foldl_cons, ← collect]
    apply ih
    cases key x with
    | none => exact h
    | some j =>
      show (d.push j x).keys.head? = some k
      rw [push, keys_insert]
      split
      · exact h
      · rw [List.head?_append, h, Option.some_or]

@[simp] theorem getD_group (xs : List α) (k : K) : ((group key xs).get? k).getD [] = members key k xs := by
  rw [group, getD_collect, get?_empty, Option.getD_none, List.nil_append]

theorem mem_keys_group : k ∈ (group key xs).keys ↔ ∃ x ∈ xs, key x = some k := by
  rw [group, mem_keys_collect, keys_empty, List.mem_nil_iff, false_or]

theorem eq_members_of_mem_entries_group {v : List α} (h : (k, v) ∈ (group key xs).entries) : v = members key k xs := by
  rw [← getD_group, get?_eq_some_iff.2 h, Option.getD_some]

theorem head?_keys_group {x : α} (h : key x = some k) (xs : List α) :
    (group key (x :: xs)).keys.head? = some k := by
  rw [group, collect, List.foldl_cons, ← collect, h]
  apply head?_keys_collect
  rfl

/-- `d[k] = d.get(k, 0) + 1`. -/
def bump (d : Dict K Nat) (k : K) : Dict K Nat := d.insert k ((d.get? k).getD 0 + 1)

/-- How often each key occurs. -/
def tally (key : α → Option K) (xs : List α) : Dict K Nat :=
  xs.foldl (fun d x => match key x with
    | some k => d.bump k
    | none => d) empty

theorem getD_tally (xs : List α) (k : K) : ((tally key xs).get? k).getD 0 = (members key k xs).length := by
  induction xs using List.reverseRecOn with
  | nil => rfl
  | append_singleton xs x ih =>
    rw [tally, List.foldl_append, ← tally, members_append, List.length_append, ← ih]
    cases hx : key x with
    | none => simp [members, hx]
    | some j =>
      by_cases hj : j = k
      · subst hj
        simp [bump, members, hx]
      · simp [bump, members, hx, hj, get?_insert_of_ne]

theorem mem_keys_tally : k ∈ (tally key xs).keys ↔ ∃ x ∈ xs, key x = some k := by
  induction xs using List.reverseRecOn with
  | nil => simp [tally]
  | append_singleton xs x ih =>
    rw [tally, List.foldl_append, ← tally]
    cases hx : key x with
    | none => simp [hx, ih]
    | some j => simp [hx, bump, ih, or_comm, eq_comm]

theorem get?_tally : (tally key xs).get? k =
    if members key k xs = [] then none else some (members key k xs).length := by
  have hkeys : k ∈ (tally key xs).keys ↔ members key k xs ≠ [] := by
    rw [mem_keys_tally, Ne, List.eq_nil_iff_forall_not_mem]
    simp
  rw [← getD_tally]
  split
  · next h => exact notMem_keys_iff.1 fun hk => hkeys.1 hk h
  · next h =>
    obtain ⟨n, hn⟩ := Option.isSome_iff_exists.1 (mem_keys_iff.1 (hkeys.2 h))
    rw [hn, Option.getD_some]

theorem mem_keys_setDefault {V : Type w} {d : Dict K V} {v : V} : j ∈ (d.setDefault k v).keys ↔ j = k ∨ j ∈ d.keys := by
  rw [setDefault]
  split
  · next h =>
    constructor
    · exact .inr
    · intro hj
      exact hj.elim (fun heq => heq ▸ h) id
  · exact mem_keys_insert

/-- An empty list under a key that was not there says nothing new. -/
theorem getD_setDefault_nil (d : Dict K (List α)) (k j : K) :
    ((d.setDefault k []).get? j).getD [] = (d.get? j).getD [] := by
  rw [setDefault]
  split
  · rfl
  · next h =>
    rw [get?_insert]
    split
    · next heq => rw [← heq, notMem_keys_iff.1 h, Option.getD_some, Option.getD_none]
    · rfl

/-- At most one entry has a key. -/
theorem countP_entries_key {V : Type w} (d : Dict K V) (k : K) (p : V → Bool) :
    d.entries.countP (fun e => decide (e.1 = k) && p e.2) = if (d.get? k).any p then 1 else 0 := by
  have hnone : ∀ d : Dict K V, d.get? k = none → d.entries.countP (fun e => decide (e.1 = k) && p e.2) = 0 := by
    intro d hd
    rw [List.countP_eq_zero]
    intro e he hkey
    have hk : e.1 = k := of_decide_eq_true (Bool.and_eq_true_iff.1 hkey).1
    rw [← hk, get?_eq_some_iff.2 he] at hd
    cases hd
  cases hd : d.get? k with
  | none => rw [hnone d hd]; rfl
  | some v =>
    rw [(perm_erase hd).countP_eq, List.countP_cons, hnone _ get?_erase_self, decide_eq_true rfl, Bool.true_and,
      Nat.zero_add]
    rfl

end Dict

/-! ### Enough elements with a property -/

section AtLeast

variable {K : Type v} {p q : K → Prop} {n : Nat}

/-- At least `n` elements have the property. -/
def AtLeast (n : Nat) (p : K → Prop) : Prop := ∃ ks : List K, ks.Nodup ∧ n ≤ ks.length ∧ ∀ k ∈ ks, p k

theorem AtLeast.imp (h : AtLeast n p) (hpq : ∀ k, p k → q k) : AtLeast n q := by
  obtain ⟨ks, hnodup, hlength, hall⟩ := h
  exact ⟨ks, hnodup, hlength, fun k hk => hpq k (hall k hk)⟩

theorem AtLeast.exists (h : AtLeast n p) (hn : 0 < n) : ∃ k, p k := by
  obtain ⟨ks, -, hlength, hall⟩ := h
  obtain ⟨k, hk⟩ := List.exists_mem_of_length_pos (Nat.lt_of_lt_of_le hn hlength)
  exact ⟨k, hall k hk⟩

theorem atLeast_congr (h : ∀ k, p k ↔ q k) : AtLeast n p ↔ AtLeast n q :=
  ⟨fun hp => hp.imp fun k => (h k).1, fun hq => hq.imp fun k => (h k).2⟩

/-- Counting along the list where the property can hold. -/
theorem atLeast_iff_le_countP [DecidableEq K] {ks : List K} (hnodup : ks.Nodup) {b : K → Bool}
    (h : ∀ k, p k ↔ k ∈ ks ∧ b k = true) : AtLeast n p ↔ n ≤ ks.countP b := by
  rw [List.countP_eq_length_filter]
  constructor
  · intro hp
    obtain ⟨js, hjs, hlength, hall⟩ := hp
    have hsub : js ⊆ ks.filter b := fun j hj => List.mem_filter.2 ((h j).1 (hall j hj))
    exact hlength.trans (hjs.subperm hsub).length_le
  · intro hn
    exact ⟨ks.filter b, hnodup.filter b, hn, fun k hk => (h k).2 (List.mem_filter.1 hk)⟩

end AtLeast

/-! ### Loops that add up -/

theorem sum_ite_eq_countP {α : Type u} (p : α → Bool) (xs : List α) :
    (xs.map fun x => if p x then 1 else 0).sum = xs.countP p := by
  induction xs with
  | nil => rfl
  | cons x xs ih => rw [List.map_cons, List.sum_cons, ih, List.countP_cons, Nat.add_comm]

section Adds

variable {α : Type u} {σ : Type v} {ε : Type w}

/-- A step that may raise: whether it returns depends on the element alone, and where it returns it adds the element's
weight to a measure of the state. -/
structure Adds (step : σ → α → Except ε σ) (returns : α → Prop) (measure : σ → Nat) (weight : α → Nat) : Prop where
  returns_iff : ∀ s a, (∃ t, step s a = .ok t) ↔ returns a
  adds : ∀ s a t, step s a = .ok t → measure t = measure s + weight a

variable {step : σ → α → Except ε σ} {returns : α → Prop} {measure : σ → Nat} {weight : α → Nat}

/-- A loop over such steps is one. -/
theorem Adds.loop (h : Adds step returns measure weight) :
    Adds (fun s xs => xs.foldlM step s) (fun xs : List α => ∀ a ∈ xs, returns a) measure
      fun xs => (xs.map weight).sum where
  returns_iff := by
    intro s xs
    induction xs generalizing s with
    | nil => exact ⟨fun _ a ha => absurd ha List.not_mem_nil, fun _ => ⟨s, rfl⟩⟩
    | cons a xs ih =>
      simp only [List.foldlM_cons, List.forall_mem_cons, ← h.returns_iff s a]
      cases hstep : step s a with
      | error e => simp [bind, Except.bind]
      | ok t =>
        simp only [bind, Except.bind, ih t, Except.ok.injEq, exists_eq', true_and]
  adds := by
    intro s xs t ht
    induction xs generalizing s with
    | nil =>
      cases ht
      rfl
    | cons a xs ih =>
      simp only [List.foldlM_cons] at ht
      cases hstep : step s a with
      | error e =>
        rw [hstep] at ht
        cases ht
      | ok r =>
        rw [hstep] at ht
        rw [ih r ht, h.adds s a r hstep, List.map_cons, List.sum_cons, Nat.add_assoc]

end Adds

end Hledac.Lib
