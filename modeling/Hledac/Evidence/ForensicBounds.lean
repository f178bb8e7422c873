import Hledac.Evidence.Payload

/-!
# Bounding forensic results

`_bound_forensic_value` with its two helpers on values whose dictionaries have any keys, `evidence/_log.py:3535-3571`.
Every truncation bounds what it keeps, but the marker for left-out keys holds the keys themselves, one level deeper
than the dictionary.
-/

namespace Hledac.Evidence

open Hledac.Lib Hledac.Py

/-- A forensic result. The keys of a `dict` are values too; `other` is an instance of any class besides. -/
inductive ForensicValue where
  | none
  | bool (b : Bool)
  | int (i : Int)
  | float (q : ℚ)
  | str (s : String)
  | list (xs : List ForensicValue)
  | tuple (xs : List ForensicValue)
  | dict (items : List (ForensicValue × ForensicValue))
  | other (cls : String)

namespace ForensicValue

def forensicMaxKeys : Nat := 30

def forensicMaxValueLen : Nat := 1000

def forensicMaxListItems : Nat := 20

def forensicMaxDepth : Nat := 3

/-- The mark for the items that `_bound_forensic_list` leaves out. -/
def leftOutMark (left : Nat) : List ForensicValue :=
  if left > 0 then [.str ("[..." ++ toString left ++ "_more_items_truncated]")] else []

section Bound

variable (str : ForensicValue → String)

mutual

/-- `_bound_forensic_value`; `_log.py:3540-3552`. -/
def bound (depth : Nat) (value : ForensicValue) : ForensicValue :=
  if depth > forensicMaxDepth then .str "[depth_truncated]"
  else
    match value with
    | .none => .none
    | .bool b => .bool b
    | .int i => .int i
    | .float q => .float q
    | .str s => .str (cutText forensicMaxValueLen s)
    | .list xs => .list (boundItems depth forensicMaxListItems xs ++ leftOutMark (xs.length - forensicMaxListItems))
    | .tuple xs => .list (boundItems depth forensicMaxListItems xs ++ leftOutMark (xs.length - forensicMaxListItems))
    | .dict items => .dict ((boundDict depth forensicMaxKeys [] items).map fun p => (.str p.1, p.2))
    | .other cls => .str (takeStr forensicMaxValueLen (str (.other cls)))

/-- `_bound_forensic_list`; `_log.py:3554-3561`, with the items still allowed. -/
def boundItems (depth : Nat) : Nat → List ForensicValue → List ForensicValue
  | 0, _ => []
  | _, [] => []
  | n + 1, x :: xs => bound (depth + 1) x :: boundItems depth n xs

/-- `_bound_forensic_dict`; `_log.py:3563-3571`, with the items still allowed. -/
def boundDict (depth : Nat) :
    Nat → List (String × ForensicValue) → List (ForensicValue × ForensicValue) → List (String × ForensicValue)
  | _, out, [] => out
  | 0, out, item :: rest => dictSet out "_truncated_keys" (.list (((item :: rest).map Prod.fst).take 5))
  | n + 1, out, (k, v) :: rest =>
    boundDict depth n (dictSet out (takeStr 80 (str k)) (bound (depth + 1) v)) rest

end

end Bound

/-! ### What is bounded -/

mutual

/-- No string has more than 1003 characters, no list more than 21 elements, no dictionary more than 31 keys, and at
most `n` containers are nested in each other. -/
def Within (n : Nat) : ForensicValue → Prop
  | .str s => s.length ≤ forensicMaxValueLen + 3
  | .list xs => 0 < n ∧ xs.length ≤ forensicMaxListItems + 1 ∧ WithinAll (n - 1) xs
  | .tuple xs => 0 < n ∧ WithinAll (n - 1) xs
  | .dict items => 0 < n ∧ items.length ≤ forensicMaxKeys + 1 ∧ WithinItems (n - 1) items
  | _ => True

def WithinAll (n : Nat) : List ForensicValue → Prop
  | [] => True
  | x :: xs => Within n x ∧ WithinAll n xs

def WithinItems (n : Nat) : List (ForensicValue × ForensicValue) → Prop
  | [] => True
  | (k, v) :: rest => Within n k ∧ Within n v ∧ WithinItems n rest

end

theorem withinAll_iff {n : Nat} {xs : List ForensicValue} : WithinAll n xs ↔ ∀ x ∈ xs, Within n x := by
  induction xs with
  | nil => simp [WithinAll]
  | cons x xs ih => rw [WithinAll, ih, List.forall_mem_cons]

theorem withinItems_iff {n : Nat} {items : List (ForensicValue × ForensicValue)} :
    WithinItems n items ↔ ∀ e ∈ items, Within n e.1 ∧ Within n e.2 := by
  induction items with
  | nil => simp [WithinItems]
  | cons e rest ih => rw [WithinItems, ih, List.forall_mem_cons, and_assoc]

section Fits

variable (str : ForensicValue → String)

/-- The keys that the loop over a dictionary still writes. -/
def laterKeys : Nat → List (ForensicValue × ForensicValue) → List String
  | _, [] => []
  | 0, _ :: _ => ["_truncated_keys"]
  | n + 1, (k, _) :: rest => takeStr 80 (str k) :: laterKeys n rest

/-- The number of left-out items has no more than 977 digits. -/
def Countable (left : Nat) : Prop := left.repr.length ≤ 977

mutual

/-- In every dictionary that is reached, the first five of the keys after the thirtieth are short and have room below
the greatest depth. A value under a key that is written again is not looked at, nor is anything below the greatest
depth. -/
def KeysFit (depth : Nat) : ForensicValue → Prop
  | .list xs => forensicMaxDepth < depth ∨ Countable (xs.length - forensicMaxListItems) ∧
      ItemsFit depth forensicMaxListItems xs
  | .tuple xs => forensicMaxDepth < depth ∨ Countable (xs.length - forensicMaxListItems) ∧
      ItemsFit depth forensicMaxListItems xs
  | .dict items => forensicMaxDepth < depth ∨ DictFits depth forensicMaxKeys items
  | _ => True

def ItemsFit (depth : Nat) : Nat → List ForensicValue → Prop
  | 0, _ => True
  | _, [] => True
  | n + 1, x :: xs => KeysFit (depth + 1) x ∧ ItemsFit depth n xs

def DictFits (depth : Nat) : Nat → List (ForensicValue × ForensicValue) → Prop
  | _, [] => True
  | 0, item :: rest => depth < forensicMaxDepth ∧
      ∀ k ∈ ((item :: rest).map Prod.fst).take 5, Within (forensicMaxDepth - depth - 1) k
  | n + 1, (k, v) :: rest => (takeStr 80 (str k) ∉ laterKeys str n rest → KeysFit (depth + 1) v) ∧ DictFits depth n rest

end

end Fits

/-! ### What comes out -/

theorem length_takeStr_le (n : Nat) (s : String) : (takeStr n s).length ≤ n := by
  simp [takeStr, String.length_ofList]

theorem length_cutText_le (n : Nat) (s : String) : (cutText n s).length ≤ n + 3 := by
  rw [cutText, String.length_append]
  have hcut := length_takeStr_le n s
  split
  · exact Nat.add_le_add hcut (Nat.le_refl 3)
  · exact Nat.le_trans hcut (Nat.le_add_right n 3)

theorem within_leftOutMark_iff {n left : Nat} : (∀ x ∈ leftOutMark left, Within n x) ↔ Countable left := by
  rw [leftOutMark, Countable]
  split
  · have hlength : ("[..." ++ toString left ++ "_more_items_truncated]").length = 4 + left.repr.length + 22 := by
      rw [String.length_append, String.length_append]
      rfl
    rw [List.forall_mem_singleton, Within, hlength]
    show 4 + left.repr.length + 22 ≤ 1003 ↔ _
    omega
  · next h =>
    have hzero : left = 0 := Nat.eq_zero_of_not_pos h
    subst hzero
    exact iff_of_true (fun x hx => absurd hx List.not_mem_nil) (by decide)

theorem mem_dictSet {α : Type} {d : List (String × α)} {key : String} {value : α} {e : String × α} :
    e ∈ dictSet d key value ↔ e ∈ d ∧ e.1 ≠ key ∨ e = (key, value) := by
  rw [dictSet]
  split
  · next h =>
    obtain ⟨f, hf, hkey⟩ := List.any_eq_true.1 h
    rw [List.mem_map]
    constructor
    · intro hmem
      obtain ⟨g, hg, rfl⟩ := hmem
      split
      · exact .inr rfl
      · next hne => exact .inl ⟨hg, by simpa using hne⟩
    · intro hor
      cases hor with
      | inl hold =>
        refine ⟨e, hold.1, ?_⟩
        rw [if_neg (by simpa using hold.2)]
      | inr hnew =>
        refine ⟨f, hf, ?_⟩
        rw [if_pos hkey, hnew]
  · next h =>
    rw [List.mem_append, List.mem_singleton]
    have hne : ∀ f ∈ d, f.1 ≠ key := by
      intro f hf hkey
      exact h (List.any_eq_true.2 ⟨f, hf, by simpa using hkey⟩)
    constructor
    · intro hor
      exact hor.imp_left fun hd => ⟨hd, hne e hd⟩
    · intro hor
      exact hor.imp_left And.left

theorem forall_mem_dictSet {α : Type} {d : List (String × α)} {key : String} {value : α} {P : String × α → Prop} :
    (∀ e ∈ dictSet d key value, P e) ↔ (∀ e ∈ d, e.1 ≠ key → P e) ∧ P (key, value) := by
  constructor
  · intro h
    exact ⟨fun e he hne => h e (mem_dictSet.2 (.inl ⟨he, hne⟩)), h _ (mem_dictSet.2 (.inr rfl))⟩
  · intro h e he
    cases mem_dictSet.1 he with
    | inl hold => exact h.1 e hold.1 hold.2
    | inr hnew => exact hnew ▸ h.2

theorem length_dictSet_le {α : Type} (d : List (String × α)) (key : String) (value : α) :
    (dictSet d key value).length ≤ d.length + 1 := by
  rw [dictSet]
  split
  · rw [List.length_map]
    exact Nat.le_succ _
  · rw [List.length_append]
    exact Nat.le_refl _

section Out

variable (str : ForensicValue → String) (depth : Nat)

theorem within_truncated (n : Nat) : Within n (.str "[depth_truncated]") := by
  rw [Within]
  decide

theorem within_leaf {n : Nat} {v : ForensicValue} (h : Within n v) :
    Within n (if depth > forensicMaxDepth then .str "[depth_truncated]" else v) := by
  split
  · exact within_truncated n
  · exact h

theorem length_boundItems_le (n : Nat) (xs : List ForensicValue) : (boundItems str depth n xs).length ≤ n := by
  induction xs generalizing n with
  | nil => cases n <;> simp [boundItems]
  | cons x xs ih =>
    cases n with
    | zero => simp [boundItems]
    | succ n => simpa [boundItems] using ih n

theorem length_leftOutMark_le (left : Nat) : (leftOutMark left).length ≤ 1 := by
  rw [leftOutMark]
  split
  · exact Nat.le_refl 1
  · exact Nat.zero_le 1

theorem length_boundDict_le (n : Nat) (out : List (String × ForensicValue))
    (items : List (ForensicValue × ForensicValue)) : (boundDict str depth n out items).length ≤ out.length + n + 1 := by
  induction items generalizing n out with
  | nil =>
    cases n <;> simp only [boundDict] <;> omega
  | cons e rest ih =>
    obtain ⟨k, v⟩ := e
    cases n with
    | zero =>
      rw [boundDict]
      exact length_dictSet_le _ _ _
    | succ n =>
      rw [boundDict]
      have hset := length_dictSet_le out (takeStr 80 (str k)) (bound str (depth + 1) v)
      have hrest := ih n (dictSet out (takeStr 80 (str k)) (bound str (depth + 1) v))
      omega

theorem length_key_le {n : Nat} {out : List (String × ForensicValue)} {items : List (ForensicValue × ForensicValue)}
    (hout : ∀ e ∈ out, e.1.length ≤ 80) : ∀ e ∈ boundDict str depth n out items, e.1.length ≤ 80 := by
  induction items generalizing n out with
  | nil =>
    cases n <;> simpa only [boundDict] using hout
  | cons e rest ih =>
    obtain ⟨k, v⟩ := e
    have hset : ∀ key value, key.length ≤ 80 → ∀ e ∈ dictSet out key value, e.1.length ≤ 80 := by
      intro key value hkey e he
      cases mem_dictSet.1 he with
      | inl hold => exact hout e hold.1
      | inr hnew => exact hnew ▸ hkey
    cases n with
    | zero =>
      rw [boundDict]
      exact hset _ _ (by decide)
    | succ n =>
      rw [boundDict]
      exact ih (hset _ _ (length_takeStr_le 80 (str k)))

theorem within_dict_iff {depth : Nat} (h : ¬ forensicMaxDepth < depth)
    (items : List (ForensicValue × ForensicValue)) :
    Within (forensicMaxDepth + 1 - depth)
        (.dict ((boundDict str depth forensicMaxKeys [] items).map fun p => (.str p.1, p.2))) ↔
      ∀ e ∈ boundDict str depth forensicMaxKeys [] items, Within (forensicMaxDepth - depth) e.2 := by
  have hpos : 0 < forensicMaxDepth + 1 - depth := by omega
  have hpred : forensicMaxDepth + 1 - depth - 1 = forensicMaxDepth - depth := by omega
  have hlength := length_boundDict_le str depth forensicMaxKeys [] items
  rw [List.length_nil, Nat.zero_add] at hlength
  rw [Within, withinItems_iff, hpred, List.length_map, List.forall_mem_map]
  constructor
  · intro hall e he
    exact (hall.2.2 e he).2
  · intro hall
    refine ⟨hpos, hlength, fun e he => ⟨?_, hall e he⟩⟩
    rw [Within]
    exact Nat.le_trans (length_key_le str depth (fun e he => absurd he List.not_mem_nil) e he) (by decide)

theorem within_marker_iff {keys : List ForensicValue} :
    Within (forensicMaxDepth - depth) (.list (keys.take 5)) ↔
      depth < forensicMaxDepth ∧ ∀ k ∈ keys.take 5, Within (forensicMaxDepth - depth - 1) k := by
  rw [Within, withinAll_iff, Nat.sub_pos_iff_lt]
  constructor
  · intro hall
    exact ⟨hall.1, hall.2.2⟩
  · intro hall
    refine ⟨hall.1, ?_, hall.2⟩
    rw [List.length_take]
    exact Nat.le_trans (Nat.min_le_left 5 _) (by decide)

theorem within_list_iff {depth : Nat} (h : ¬ forensicMaxDepth < depth) (xs : List ForensicValue) :
    Within (forensicMaxDepth + 1 - depth) (.list (boundItems str depth forensicMaxListItems xs ++
        leftOutMark (xs.length - forensicMaxListItems))) ↔
      Countable (xs.length - forensicMaxListItems) ∧
        ∀ y ∈ boundItems str depth forensicMaxListItems xs, Within (forensicMaxDepth - depth) y := by
  have hpos : 0 < forensicMaxDepth + 1 - depth := by omega
  have hpred : forensicMaxDepth + 1 - depth - 1 = forensicMaxDepth - depth := by omega
  have hlength : (boundItems str depth forensicMaxListItems xs ++
      leftOutMark (xs.length - forensicMaxListItems)).length ≤ forensicMaxListItems + 1 := by
    rw [List.length_append]
    exact Nat.add_le_add (length_boundItems_le str depth _ xs) (length_leftOutMark_le _)
  rw [Within, withinAll_iff, hpred, List.forall_mem_append, within_leftOutMark_iff]
  constructor
  · intro hall
    exact ⟨hall.2.2.2, hall.2.2.1⟩
  · intro hall
    exact ⟨hpos, hlength, hall.2, hall.1⟩

end Out

mutual

theorem within_bound_iff (str : ForensicValue → String) : ∀ (depth : Nat) (v : ForensicValue),
    Within (forensicMaxDepth + 1 - depth) (bound str depth v) ↔ KeysFit str depth v
  | depth, .none => by
    rw [bound]
    exact iff_of_true (within_leaf depth (by simp [Within])) (by simp [KeysFit])
  | depth, .bool b => by
    rw [bound]
    exact iff_of_true (within_leaf depth (by simp [Within])) (by simp [KeysFit])
  | depth, .int i => by
    rw [bound]
    exact iff_of_true (within_leaf depth (by simp [Within])) (by simp [KeysFit])
  | depth, .float q => by
    rw [bound]
    exact iff_of_true (within_leaf depth (by simp [Within])) (by simp [KeysFit])
  | depth, .str s => by
    rw [bound]
    exact iff_of_true (within_leaf depth (length_cutText_le _ s)) (by simp [KeysFit])
  | depth, .list xs => by
    rw [bound, KeysFit]
    split
    · next h => simp [within_truncated, show forensicMaxDepth < depth from h]
    · next h =>
      rw [or_iff_right (show ¬ forensicMaxDepth < depth from h), within_list_iff str h,
        within_boundItems_iff str depth forensicMaxListItems xs]
  | depth, .tuple xs => by
    rw [bound, KeysFit]
    split
    · next h => simp [within_truncated, show forensicMaxDepth < depth from h]
    · next h =>
      rw [or_iff_right (show ¬ forensicMaxDepth < depth from h), within_list_iff str h,
        within_boundItems_iff str depth forensicMaxListItems xs]
  | depth, .dict items => by
    rw [bound, KeysFit]
    split
    · next h => simp [within_truncated, show forensicMaxDepth < depth from h]
    · next h =>
      have hdict := within_boundDict_iff str depth forensicMaxKeys [] items
      rw [or_iff_right (show ¬ forensicMaxDepth < depth from h), within_dict_iff str h, hdict]
      simp
  | depth, .other cls => by
    rw [bound]
    have hcut := length_takeStr_le forensicMaxValueLen (str (.other cls))
    exact iff_of_true (within_leaf depth (Nat.le_trans hcut (Nat.le_add_right _ 3))) (by simp [KeysFit])

theorem within_boundItems_iff (str : ForensicValue → String) : ∀ (depth n : Nat) (xs : List ForensicValue),
    (∀ y ∈ boundItems str depth n xs, Within (forensicMaxDepth - depth) y) ↔ ItemsFit str depth n xs
  | depth, 0, xs => by simp [boundItems, ItemsFit]
  | depth, n + 1, [] => by simp [boundItems, ItemsFit]
  | depth, n + 1, x :: xs => by
    have hx := within_bound_iff str (depth + 1) x
    rw [Nat.add_sub_add_right] at hx
    rw [boundItems, ItemsFit, List.forall_mem_cons, hx, within_boundItems_iff str depth n xs]

theorem within_boundDict_iff (str : ForensicValue → String) : ∀ (depth n : Nat)
    (out : List (String × ForensicValue)) (items : List (ForensicValue × ForensicValue)),
    (∀ e ∈ boundDict str depth n out items, Within (forensicMaxDepth - depth) e.2) ↔
      (∀ e ∈ out, e.1 ∉ laterKeys str n items → Within (forensicMaxDepth - depth) e.2) ∧ DictFits str depth n items
  | depth, n, out, [] => by
    cases n <;> simp [boundDict, laterKeys, DictFits]
  | depth, 0, out, item :: rest => by
    rw [boundDict, forall_mem_dictSet, DictFits, laterKeys, within_marker_iff]
    simp
  | depth, n + 1, out, (k, v) :: rest => by
    have hv := within_bound_iff str (depth + 1) v
    rw [Nat.add_sub_add_right] at hv
    rw [boundDict, within_boundDict_iff str depth n _ rest, DictFits, laterKeys, ← hv, forall_mem_dictSet]
    simp only [List.mem_cons, not_or, and_imp, ne_eq, and_assoc]

end

theorem DictFits.drop {str : ForensicValue → String} {depth n : Nat}
    {items rest : List (ForensicValue × ForensicValue)} {item : ForensicValue × ForensicValue}
    (h : DictFits str depth n items) (hdrop : items.drop n = item :: rest) :
    depth < forensicMaxDepth ∧ Within (forensicMaxDepth - depth - 1) item.1 := by
  induction n generalizing items with
  | zero =>
    rw [List.drop_zero] at hdrop
    subst hdrop
    rw [DictFits] at h
    exact ⟨h.1, h.2 _ List.mem_cons_self⟩
  | succ n ih =>
    cases items with
    | nil => cases hdrop
    | cons e items =>
      rw [DictFits] at h
      exact ih h.2 hdrop

/-- A forensic result comes out bounded exactly when the keys that the markers of its dictionaries hold are short and
not too deep. -/
theorem forensic_bounded_iff (str : ForensicValue → String) (v : ForensicValue) :
    Within (forensicMaxDepth + 1) (bound str 0 v) ↔ KeysFit str 0 v := within_bound_iff str 0 v

/-- Thirty short keys, and a long one that comes back in the marker as it is. -/
theorem not_forensic_bounded :
    ¬ Within (forensicMaxDepth + 1) (bound (fun k => match k with | .str s => s | .int i => toString i | _ => "") 0
      (.dict ((List.range 30).map (fun i => (.int i, .none)) ++
        [(.str (String.ofList (List.replicate 1004 'a')), .none)]))) := by
  intro h
  have hfits := (within_bound_iff _ 0 _).1 h
  rw [KeysFit] at hfits
  have hkey := ((hfits.resolve_left (by decide)).drop rfl).2
  rw [Within, String.length_ofList, List.length_replicate] at hkey
  exact absurd hkey (by decide)

/-! ### Payload values -/

section Payload

variable (c : Codecs)

mutual

/-- A payload value as a forensic result; its keys are strings. -/
def ofPyVal : PyVal → ForensicValue
  | .none => .none
  | .bool b => .bool b
  | .int i => .int i
  | .float q => .float q
  | .str s => .str s
  | .list xs => .list (ofPyVals xs)
  | .tuple xs => .tuple (ofPyVals xs)
  | .dict d => .dict (ofPyItems d)
  | value => .other (c.str value)

def ofPyVals : List PyVal → List ForensicValue
  | [] => []
  | x :: xs => ofPyVal x :: ofPyVals xs

def ofPyItems : List (String × PyVal) → List (ForensicValue × ForensicValue)
  | [] => []
  | (k, v) :: rest => (.str k, ofPyVal v) :: ofPyItems rest

end

/-- `str` on the keys and on the instances of other classes. -/
def textOf : ForensicValue → String
  | .str s => s
  | .other text => text
  | _ => ""

theorem ofPyVals_eq_map (xs : List PyVal) : ofPyVals c xs = xs.map (ofPyVal c) := by
  induction xs with
  | nil => rfl
  | cons x xs ih => rw [ofPyVals, ih, List.map_cons]

theorem ofPyItems_eq_map (d : List (String × PyVal)) :
    ofPyItems c d = d.map fun p => (.str p.1, ofPyVal c p.2) := by
  induction d with
  | nil => rfl
  | cons e rest ih => rw [ofPyItems, ih, List.map_cons]

theorem map_dictSet {α β : Type} (f : α → β) (d : List (String × α)) (key : String) (value : α) :
    (dictSet d key value).map (fun p => (p.1, f p.2)) = dictSet (d.map fun p => (p.1, f p.2)) key (f value) := by
  have hany : (d.map fun p => (p.1, f p.2)).any (·.1 == key) = d.any (·.1 == key) := by
    rw [List.any_map]
    rfl
  rw [dictSet, dictSet, hany]
  split
  · rw [List.map_map, List.map_map]
    apply List.map_congr_left
    intro e _
    show (fun p : String × α => (p.1, f p.2)) (if e.1 == key then (key, value) else e) = _
    split <;> simp_all
  · simp

theorem map_truncatedMark (left : Nat) : (truncatedMark left).map (ofPyVal c) = leftOutMark left := by
  rw [truncatedMark, leftOutMark]
  split
  · rw [List.map_singleton, ofPyVal]
  · rfl

theorem ofPyVal_bound_other {depth : Nat} {v : PyVal} (hv : ofPyVal c v = .other (c.str v))
    (hbound : boundForensicValue c depth v =
      if depth > 3 then .str "[depth_truncated]" else .str (takeStr 1000 (c.str v))) :
    ofPyVal c (boundForensicValue c depth v) = bound textOf depth (ofPyVal c v) := by
  rw [hbound, hv, bound, apply_ite (ofPyVal c), ofPyVal, ofPyVal]
  rfl

mutual

theorem ofPyVal_boundForensicValue : ∀ (depth : Nat) (v : PyVal),
    ofPyVal c (boundForensicValue c depth v) = bound textOf depth (ofPyVal c v)
  | depth, .none => by rw [ofPyVal, bound, boundForensicValue, apply_ite (ofPyVal c)]; rfl
  | depth, .bool b => by rw [ofPyVal, bound, boundForensicValue, apply_ite (ofPyVal c)]; rfl
  | depth, .int i => by rw [ofPyVal, bound, boundForensicValue, apply_ite (ofPyVal c)]; rfl
  | depth, .float q => by rw [ofPyVal, bound, boundForensicValue, apply_ite (ofPyVal c)]; rfl
  | depth, .str s => by rw [ofPyVal, bound, boundForensicValue, apply_ite (ofPyVal c)]; rfl
  | depth, .list xs => by
    rw [ofPyVal, bound, boundForensicValue, apply_ite (ofPyVal c), ofPyVal, ofPyVal, ofPyVals_eq_map, List.map_append,
      map_truncatedMark, map_boundForensicItems depth 20 xs, ofPyVals_eq_map, List.length_map]
    rfl
  | depth, .tuple xs => by
    rw [ofPyVal, bound, boundForensicValue, apply_ite (ofPyVal c), ofPyVal, ofPyVal, ofPyVals_eq_map, List.map_append,
      map_truncatedMark, map_boundForensicItems depth 20 xs, ofPyVals_eq_map, List.length_map]
    rfl
  | depth, .dict d => by
    have hdict := map_boundForensicDict depth 30 [] d
    rw [List.map_nil] at hdict
    rw [ofPyVal, bound, boundForensicValue, apply_ite (ofPyVal c), ofPyVal, ofPyVal, ofPyItems_eq_map, ofPyItems_eq_map,
      forensicMaxKeys, ← hdict, List.map_map]
    rfl
  | depth, .datetime t => ofPyVal_bound_other c (by simp only [ofPyVal]) (by simp only [boundForensicValue])
  | depth, .bytes b => ofPyVal_bound_other c (by simp only [ofPyVal]) (by simp only [boundForensicValue])
  | depth, .set xs => ofPyVal_bound_other c (by simp only [ofPyVal]) (by simp only [boundForensicValue])
  | depth, .unsortedSet xs => ofPyVal_bound_other c (by simp only [ofPyVal]) (by simp only [boundForensicValue])
  | depth, .struct v => ofPyVal_bound_other c (by simp only [ofPyVal]) (by simp only [boundForensicValue])
  | depth, .array v => ofPyVal_bound_other c (by simp only [ofPyVal]) (by simp only [boundForensicValue])
  | depth, .instanceOf cls => ofPyVal_bound_other c (by simp only [ofPyVal]) (by simp only [boundForensicValue])

theorem map_boundForensicItems : ∀ (depth n : Nat) (xs : List PyVal),
    (boundForensicItems c depth n xs).map (ofPyVal c) = boundItems textOf depth n (xs.map (ofPyVal c))
  | depth, 0, xs => by simp [boundForensicItems, boundItems]
  | depth, n + 1, [] => by simp [boundForensicItems, boundItems]
  | depth, n + 1, x :: xs => by
    rw [boundForensicItems, List.map_cons, List.map_cons, boundItems, ofPyVal_boundForensicValue (depth + 1) x,
      map_boundForensicItems depth n xs]

theorem map_boundForensicDict : ∀ (depth n : Nat) (out d : List (String × PyVal)),
    (boundForensicDict c depth n out d).map (fun p => (p.1, ofPyVal c p.2)) =
      boundDict textOf depth n (out.map fun p => (p.1, ofPyVal c p.2)) (d.map fun p => (.str p.1, ofPyVal c p.2))
  | depth, n, out, [] => by cases n <;> simp [boundForensicDict, boundDict]
  | depth, 0, out, (k, v) :: rest => by
    rw [boundForensicDict, map_dictSet, ofPyVal, ofPyVals_eq_map]
    · simp only [List.map_cons, boundDict, List.map_take, List.map_map, ofPyVal, Function.comp_def]
    · nofun
  | depth, n + 1, out, (k, v) :: rest => by
    rw [boundForensicDict, map_boundForensicDict depth n _ rest, map_dictSet, List.map_cons, boundDict,
      ofPyVal_boundForensicValue (depth + 1) v]
    rfl

end

end Payload

end ForensicValue

end Hledac.Evidence
