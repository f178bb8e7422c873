import Mathlib.Data.List.Dedup
import Mathlib.Data.List.DropRight
import Hledac.Federated.QTable
import Hledac.Py.Repr

/-!
# The dictionary of a Q-table

`to_dict` writes a state and an action into one text with a bar between them, and `from_dict` cuts the text at its last
bar and makes a state of one string out of what stands before it. So every pair comes back under another state, whose
text is longer than the one that was written.
-/

namespace Hledac.Federated

open Hledac.Lib

/-- A tuple of strings and of other values. -/
abbrev TupleState (E : Type*) := List (String ⊕ E)

variable {E : Type*} (printable : Char → Bool) (reprOther : E → List Char)

/-- `repr` of an element of a state. -/
def reprElement : String ⊕ E → List Char
  | .inl s => Py.reprChars printable s.toList
  | .inr x => reprOther x

/-- `str` of a tuple; one element has a comma behind it. -/
def strOfTuple : TupleState E → List Char
  | [x] => '(' :: (reprElement printable reprOther x ++ [',', ')'])
  | xs => '(' :: separated (reprElement printable reprOther) [',', ' '] ')' xs

/-- The key text of a pair. -/
def keyText (key : TupleState E × String) : String :=
  String.ofList (strOfTuple printable reprOther key.1 ++ '|' :: key.2.toList)

/-- `k.rsplit("|", 1)` of a text with a bar. -/
def barSplit (k : String) : Option (String × String) :=
  if '|' ∈ k.toList then
    some (String.ofList (k.toList.rdropWhile (· ≠ '|')).dropLast, String.ofList (k.toList.rtakeWhile (· ≠ '|')))
  else none

/-- The pair that `from_dict` makes of a key text. -/
def pairOf (E : Type*) (k : String) : Option (TupleState E × String) :=
  (barSplit k).map fun p => ([.inl p.1], p.2)

/-! ### Key texts -/

section KeyText

variable {printable reprOther} {k : String} {p : String × String}

theorem barSplit_eq_some (h : barSplit k = some p) : k.toList = p.1.toList ++ '|' :: p.2.toList := by
  rw [barSplit] at h
  split at h
  · next hbar =>
    have hne : k.toList.rdropWhile (· ≠ '|') ≠ [] := by
      rw [ne_eq, List.rdropWhile_eq_nil_iff]
      intro hall
      simpa using hall '|' hbar
    have hlast : (k.toList.rdropWhile (· ≠ '|')).getLast hne = '|' := by
      simpa using List.rdropWhile_last_not (fun ch => decide (ch ≠ '|')) k.toList hne
    rw [← Option.some.inj h, String.toList_ofList, String.toList_ofList]
    have hsplit := List.dropLast_append_getLast hne
    rw [hlast] at hsplit
    rw [← List.singleton_append, ← List.append_assoc, hsplit, List.rdropWhile_append_rtakeWhile]
  · cases h

theorem isSome_barSplit : (barSplit k).isSome = decide ('|' ∈ k.toList) := by
  rw [barSplit]
  by_cases h : '|' ∈ k.toList
  · simp [h]
  · simp [h]

theorem pairOf_injective {k' : String} {key : TupleState E × String} (h : pairOf E k = some key)
    (h' : pairOf E k' = some key) : k = k' := by
  simp only [pairOf, Option.map_eq_some_iff] at h h'
  obtain ⟨p, hp, rfl⟩ := h
  obtain ⟨p', hp', heq⟩ := h'
  simp only [Prod.mk.injEq, List.cons.injEq, Sum.inl.injEq, and_true] at heq
  apply String.toList_inj.1
  rw [barSplit_eq_some hp, barSplit_eq_some hp', heq.1, heq.2]

theorem toList_keyText (key : TupleState E × String) :
    (keyText printable reprOther key).toList = strOfTuple printable reprOther key.1 ++ '|' :: key.2.toList := by
  rw [keyText, String.toList_ofList]

theorem length_lt_strOfTuple (s : String) :
    s.toList.length < (strOfTuple printable reprOther [.inl s]).length := by
  have hescape (ch : Char) : 1 ≤ (Py.escape printable (Py.quoteOf s.toList) ch).length := by
    apply List.length_pos_iff.2
    intro hnil
    have hread := Py.readEscape_escape printable (Py.quoteOf_eq s.toList) ch []
    rw [hnil] at hread
    cases hread
  have hbody : ∀ cs : List Char, cs.length ≤ (cs.flatMap (Py.escape printable (Py.quoteOf s.toList))).length := by
    intro cs
    induction cs with
    | nil => exact Nat.le_refl _
    | cons ch cs ih =>
      have hch := hescape ch
      rw [List.flatMap_cons, List.length_append, List.length_cons]
      omega
  have hall := hbody s.toList
  simp only [strOfTuple, reprElement, Py.reprChars, List.length_cons, List.length_append, List.length_nil]
  omega

end KeyText

/-! ### The dictionary -/

variable [DecidableEq E]

/-- `to_dict`; `federated/qtable.py:127-132`. -/
def toDict (t : FederatedQTable (TupleState E)) : Dict String ℚ :=
  Dict.empty.insertAll (t.q.entries.map fun e => (keyText printable reprOther e.1, e.2))

/-- The index made anew; lines 147-150. -/
def maxIndex (q : Dict (TupleState E × String) ℚ) : Dict (TupleState E) ℚ :=
  q.entries.foldl (fun index e => if (index.get? e.1.1).getD 0 < e.2 then index.insert e.1.1 e.2 else index) .empty

/-- `from_dict`; lines 134-152. -/
def fromDict (data : Dict String ℚ) (alpha gamma : ℚ) (maxEntries : Int) : FederatedQTable (TupleState E) :=
  let q := Dict.empty.insertAll (data.entries.filterMap fun e => (pairOf E e.1).map fun p => (p, e.2))
  { (FederatedQTable.new alpha gamma maxEntries : FederatedQTable (TupleState E)) with
    q := q
    maxQPerState := maxIndex q }

/-- The table written and read with its own parameters. -/
def restored (t : FederatedQTable (TupleState E)) : FederatedQTable (TupleState E) :=
  fromDict (toDict printable reprOther t) t.alpha t.gamma t.maxEntries

/-- A table comes back with its answers and no two pairs merged, and a table read from any dictionary is no larger
than it may be. -/
structure RoundTrips (t : FederatedQTable (TupleState E)) (data : Dict String ℚ) : Prop where
  getQ : ∀ state action, (restored printable reprOther t).getQ state action = t.getQ state action
  getBestAction : ∀ state actions,
    (restored printable reprOther t).getBestAction state actions = t.getBestAction state actions
  separate : (restored printable reprOther t).q.size = t.q.size
  bounded : (fromDict (E := E) data t.alpha t.gamma t.maxEntries).q.size ≤ t.maxEntries

/-! ### What is written and what is read -/

section Tables

variable {printable reprOther} {t : FederatedQTable (TupleState E)} {data : Dict String ℚ} {k : String} {v : ℚ}
  {key : TupleState E × String} {alpha gamma : ℚ} {maxEntries : Int}

theorem get?_toDict (h : (toDict printable reprOther t).get? k = some v) :
    ∃ key, keyText printable reprOther key = k ∧ t.q.get? key = some v := by
  cases Dict.get?_insertAll_cases .empty (t.q.entries.map fun e => (keyText printable reprOther e.1, e.2)) k with
  | inl hnone => cases (hnone.symm.trans h)
  | inr hsome =>
    obtain ⟨e, he, hkey, hvalue⟩ := hsome
    obtain ⟨e', he', rfl⟩ := List.mem_map.1 he
    refine ⟨e'.1, hkey, Dict.get?_eq_some_iff.2 ?_⟩
    have hv : v = e'.2 := Option.some.inj (h.symm.trans hvalue)
    rw [hv]
    exact he'

omit [DecidableEq E] in
theorem mem_keys_toDict : k ∈ (toDict printable reprOther t).keys ↔ k ∈ t.q.keys.map (keyText printable reprOther) := by
  rw [toDict, Dict.mem_keys_insertAll, Dict.keys_empty, List.map_map, Dict.keys, List.map_map]
  simp [Function.comp_def]

theorem get?_fromDict (h : (fromDict (E := E) data alpha gamma maxEntries).q.get? key = some v) :
    ∃ k, pairOf E k = some key ∧ data.get? k = some v := by
  cases Dict.get?_insertAll_cases .empty
      (data.entries.filterMap fun e => (pairOf E e.1).map fun p => (p, e.2)) key with
  | inl hnone => cases (hnone.symm.trans h)
  | inr hsome =>
    obtain ⟨e, he, hkey, hvalue⟩ := hsome
    obtain ⟨e', he', hpair⟩ := List.mem_filterMap.1 he
    obtain ⟨p, hp, rfl⟩ := Option.map_eq_some_iff.1 hpair
    refine ⟨e'.1, hp.trans (congrArg some hkey), Dict.get?_eq_some_iff.2 ?_⟩
    have hv : v = e'.2 := Option.some.inj (h.symm.trans hvalue)
    rw [hv]
    exact he'

theorem size_fromDict : (fromDict (E := E) data alpha gamma maxEntries).q.size =
    data.keys.countP fun k => decide ('|' ∈ k.toList) := by
  have hnodup : (data.keys.filterMap (pairOf E)).Nodup :=
    data.nodup.filterMap fun k k' key hk hk' => pairOf_injective hk hk'
  rw [Dict.size_eq_length hnodup]
  · rw [List.length_filterMap_eq_countP]
    apply List.countP_congr
    intro k _
    rw [pairOf, Option.isSome_map, isSome_barSplit]
  · intro key
    show _ ↔ key ∈ (Dict.insertAll _ _).keys
    rw [Dict.mem_keys_insertAll, Dict.keys_empty, Dict.keys]
    simp only [List.mem_filterMap, List.mem_map, List.not_mem_nil, false_or]
    constructor
    · intro h
      obtain ⟨_, ⟨e, he, rfl⟩, hpair⟩ := h
      exact ⟨(key, e.2), ⟨e, he, by rw [hpair]; rfl⟩, rfl⟩
    · intro h
      obtain ⟨e, ⟨e', he', hpair⟩, rfl⟩ := h
      obtain ⟨p, hp, rfl⟩ := Option.map_eq_some_iff.1 hpair
      exact ⟨e'.1, ⟨e', he', rfl⟩, hp⟩

theorem size_restored : (restored printable reprOther t).q.size =
    (t.q.keys.map (keyText printable reprOther)).dedup.length := by
  rw [restored, size_fromDict, ← Dict.size_eq_length (List.nodup_dedup _) (d := toDict printable reprOther t),
    ← Dict.length_keys, List.countP_eq_length]
  · intro k hk
    obtain ⟨key, -, rfl⟩ := List.mem_map.1 (mem_keys_toDict.1 hk)
    simp [toList_keyText]
  · intro k
    rw [List.mem_dedup, mem_keys_toDict]

theorem size_restored_eq_iff : (restored printable reprOther t).q.size = t.q.size ↔
    (t.q.keys.map (keyText printable reprOther)).Nodup := by
  rw [size_restored, ← Dict.length_keys, ← List.length_map (keyText printable reprOther)]
  constructor
  · intro h
    rw [← List.dedup_eq_self]
    exact (List.dedup_sublist _).eq_of_length h
  · intro h
    rw [h.dedup]

theorem exists_shorter {state : TupleState E} {action : String}
    (h : (restored printable reprOther t).q.get? (state, action) = some v) :
    ∃ key, (keyText printable reprOther key).length < (keyText printable reprOther (state, action)).length ∧
      t.q.get? key = some v := by
  obtain ⟨k, hpair, hk⟩ := get?_fromDict h
  obtain ⟨key, rfl, hkey⟩ := get?_toDict hk
  refine ⟨key, ?_, hkey⟩
  obtain ⟨p, hp, heq⟩ := Option.map_eq_some_iff.1 hpair
  rw [Prod.mk.injEq] at heq
  have hlonger := @length_lt_strOfTuple E printable reprOther p.1
  rw [heq.1] at hlonger
  simp only [← String.length_toList]
  rw [barSplit_eq_some hp, toList_keyText, heq.2, List.length_append,
    List.length_append]
  simp only
  omega

theorem getQ_restored_iff :
    (∀ state action, (restored printable reprOther t).getQ state action = t.getQ state action) ↔
      ∀ key v, t.q.get? key = some v → v = 0 := by
  constructor
  · intro h
    -- by the length of the text: a value that comes back is the value of a shorter text
    have hzero : ∀ n key v, (keyText printable reprOther key).length = n → t.q.get? key = some v → v = 0 := by
      intro n
      induction n using Nat.strong_induction_on with
      | h n ih =>
        intro key v hlength hkey
        by_contra hne
        have hsame := h key.1 key.2
        rw [FederatedQTable.getQ, FederatedQTable.getQ, hkey, Option.getD_some] at hsame
        have hback : (restored printable reprOther t).q.get? (key.1, key.2) = some v := by
          cases hget : (restored printable reprOther t).q.get? (key.1, key.2) with
          | none =>
            rw [hget] at hsame
            exact absurd hsame.symm hne
          | some w =>
            rw [hget] at hsame
            exact congrArg some hsame
        obtain ⟨key', hshorter, hkey'⟩ := exists_shorter hback
        exact hne (ih _ (hlength ▸ hshorter) key' v rfl hkey')
    exact fun key v => hzero _ key v rfl
  · intro h state action
    have hzero (q : Dict (TupleState E × String) ℚ) (hq : ∀ v, q.get? (state, action) = some v → v = 0) :
        (q.get? (state, action)).getD 0 = 0 := by
      cases hget : q.get? (state, action) with
      | none => rfl
      | some v => exact hq v hget
    rw [FederatedQTable.getQ, FederatedQTable.getQ, hzero _ (h _), hzero]
    intro v hv
    obtain ⟨key, -, hkey⟩ := exists_shorter hv
    exact h key v hkey

theorem getBestAction_congr {t t' : FederatedQTable (TupleState E)}
    (h : ∀ state action, t.getQ state action = t'.getQ state action) (state : TupleState E) (actions : List String) :
    t.getBestAction state actions = t'.getBestAction state actions := by
  cases actions with
  | nil => rfl
  | cons a rest =>
    simp only [FederatedQTable.getBestAction]
    induction rest generalizing a with
    | nil => rfl
    | cons b rest ih =>
      rw [FederatedQTable.betterAction, FederatedQTable.betterAction, h, h]
      exact ih _

end Tables

/-- For every table that updates reach and every dictionary, the table comes back and the dictionary fits if and only
if all Q-values are zero and no two pairs have one text, and no more texts of the dictionary have a bar than the table
may have entries. -/
theorem tableRoundTrips_iff (alpha gamma : ℚ) (maxEntries : Int) (updates : List (Update (TupleState E)))
    (data : Dict String ℚ) :
    let t := updates.foldl FederatedQTable.update (.new alpha gamma maxEntries)
    RoundTrips printable reprOther t data ↔
      ((∀ key v, t.q.get? key = some v → v = 0) ∧ (t.q.keys.map (keyText printable reprOther)).Nodup) ∧
        (data.keys.countP fun k => decide ('|' ∈ k.toList)) ≤ t.maxEntries := by
  intro t
  constructor
  · intro h
    refine ⟨⟨getQ_restored_iff.1 h.getQ, size_restored_eq_iff.1 h.separate⟩, ?_⟩
    rw [← size_fromDict (E := E)]
    exact h.bounded
  · intro h
    have hgetQ : ∀ state action, (restored printable reprOther t).getQ state action = t.getQ state action :=
      getQ_restored_iff.2 h.1.1
    refine ⟨hgetQ, getBestAction_congr hgetQ, size_restored_eq_iff.2 h.1.2, ?_⟩
    rw [size_fromDict]
    exact h.2

/-- One rewarded action of the state of one letter is forgotten. -/
theorem not_tableRoundTrips : ¬ RoundTrips (fun _ => true) (fun n : ℤ => (toString n).toList)
    ([{ state := [.inl "a"], action := "x", reward := 1, nextState := [.inl "b"] }].foldl FederatedQTable.update
      (.new (1 / 10) (9 / 10) 1024)) .empty := by
  intro h
  have hlost := h.getQ [.inl "a"] "x"
  revert hlost
  decide +kernel

end Hledac.Federated
