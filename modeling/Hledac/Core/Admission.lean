import Mathlib.Algebra.Order.Ring.Int
import Hledac.Core.LedgerLimits

/-!
# Admission

`ResourceLedger.admission` records a bundle item by item under handles made from the owner's name, runs the
body of the `with` block, and releases the items where the body raises an `Exception`.
-/

namespace Hledac.Core

open Hledac.Lib

namespace ResourceLedger

/-- One allocation of a bundle, with what it reads. -/
structure Item where
  readings : Readings
  type : ResourceType
  handle : Handle
  sizeBytes : Option ℤ := none

/-- `f"{owner}_{kind}_{i}"`. -/
def numbered (owner kind : String) (i : Nat) : Handle := .name (owner ++ kind ++ toString i)

/-- The allocations for the amount of a type. All file descriptors have one handle. -/
def Bundle.itemsOf (b : Bundle) (rs : ResourceType → Nat → Readings) (owner : String) :
    ResourceType → List Item
  | .fileDescriptor => (List.range b.fds.toNat).map fun i =>
      ⟨rs .fileDescriptor i, .fileDescriptor, .num (-1), none⟩
  | .machPort => (List.range b.machPorts.toNat).map fun i =>
      ⟨rs .machPort i, .machPort, numbered owner "_mach_" i, none⟩
  | .childProcess => (List.range b.childProcesses.toNat).map fun i =>
      ⟨rs .childProcess i, .childProcess, numbered owner "_child_" i, none⟩
  | .mmapRegion => (List.range b.mmapRegions.toNat).map fun i =>
      ⟨rs .mmapRegion i, .mmapRegion, numbered owner "_mmap_" i, none⟩
  | .metalCache => if 0 < b.metalCacheBytes then
      [⟨rs .metalCache 0, .metalCache, .name (owner ++ "_metal"), some b.metalCacheBytes⟩] else []
  | .thread => (List.range b.threads.toNat).map fun i =>
      ⟨rs .thread i, .thread, numbered owner "_thread_" i, none⟩
  | .tmpVolume => if 0 < b.tmpVolumeBytes then
      [⟨rs .tmpVolume 0, .tmpVolume, .name (owner ++ "_tmp"), some b.tmpVolumeBytes⟩] else []

/-- The allocations in their order. -/
def Bundle.items (b : Bundle) (rs : ResourceType → Nat → Readings) (owner : String) : List Item :=
  ResourceType.all.flatMap (b.itemsOf rs owner)

/-- One allocation; its refusal is not looked at. -/
def acquire (owner : String) (s : ResourceLedger) (it : Item) : ResourceLedger :=
  (s.allocate it.readings it.type it.handle owner it.sizeBytes).2

/-- `admission` up to its `yield`: what it has acquired, or what it raises;
`resource_ledger.py:517-600`. -/
def enterAdmission (r : Readings) (rs : ResourceType → Nat → Readings) (s : ResourceLedger)
    (owner : String) (b : Bundle) : Except String (List Item) × ResourceLedger :=
  let check := s.canAdmit r b
  if check.1.1 then (.ok (b.items rs owner), (b.items rs owner).foldl (acquire owner) check.2)
  else (.error ("[ResourceLedger] Admission denied for " ++ owner ++ ": " ++ check.1.2), check.2)

/-- How the body of the block ends; the last is a `BaseException` that is no `Exception`, as
`GeneratorExit` is. -/
inductive BodyEnd where
  | normal
  | exception
  | closed
  deriving DecidableEq

/-- `admission` from its `yield` on; lines 601-605. -/
def leaveAdmission (acquired : List Item) (e : BodyEnd) (s : ResourceLedger) : ResourceLedger :=
  match e with
  | .exception => acquired.reverse.foldl (fun s it => (s.release it.type it.handle true).2) s
  | _ => s

/-- `with ledger.admission(…)` around a body. -/
def admission (r : Readings) (rs : ResourceType → Nat → Readings) (s : ResourceLedger) (owner : String)
    (b : Bundle) (body : ResourceLedger → ResourceLedger) (e : BodyEnd) :
    Except String Unit × ResourceLedger :=
  match enterAdmission r rs s owner b with
  | (.error message, s) => (.error message, s)
  | (.ok acquired, s) => (.ok (), leaveAdmission acquired e (body s))

/-! ### What it is for -/

/-- Whether the type is measured in bytes. -/
def InBytes (t : ResourceType) : Prop := t = .metalCache ∨ t = .tmpVolume

instance (t : ResourceType) : Decidable (InBytes t) := inferInstanceAs (Decidable (_ ∨ _))

/-- What a record with these fields stands for in the unit of its type. -/
def amountOf (t : ResourceType) (sizeBytes : Option ℤ) : ℤ := if InBytes t then sizeBytes.getD 0 else 1

/-- What the owner has of a type, in its unit. -/
def heldAmount (s : ResourceLedger) (owner : String) (t : ResourceType) : ℤ :=
  (s.allocations.table t).total fun a => if a.owner = owner then amountOf t a.sizeBytes else 0

/-- The ledger after a body that has taken away nothing that was there. -/
structure ExtendedBy (s t : ResourceLedger) : Prop where
  records : ∀ type handle a, s.allocations.get? type handle = some a →
    t.allocations.get? type handle = some a
  owned : ∀ owner a, (s.owned owner).count a ≤ (t.owned owner).count a

/-- Of the ledger before a block, entered as `entered` and left as `left`, `after` differs by what the
body has allocated. -/
structure RestoredTo (s entered left after : ResourceLedger) : Prop where
  records : ∀ type handle, after.allocations.get? type handle =
    if (entered.allocations.get? type handle).isSome then s.allocations.get? type handle
    else left.allocations.get? type handle
  owned : ∀ owner a, (after.owned owner).count a + (entered.owned owner).count a =
    (s.owned owner).count a + (left.owned owner).count a

/-- The admission raises and changes no allocation, or it records for the owner what was asked and takes
it away again after the block. -/
def AdmissionScoped (r : Readings) (rs : ResourceType → Nat → Readings) (s : ResourceLedger)
    (owner : String) (b : Bundle) (e : BodyEnd) : Prop :=
  match enterAdmission r rs s owner b with
  | (.error _, s') => s'.allocations = s.allocations ∧ s'.ownerAllocations = s.ownerAllocations
  | (.ok _, entered) =>
    (∀ t, entered.heldAmount owner t = s.heldAmount owner t + max 0 (b.amount t)) ∧
      ∀ body : ResourceLedger → ResourceLedger, entered.ExtendedBy (body entered) →
        s.RestoredTo entered (body entered) (admission r rs s owner b body e).2

/-- The admission is refused, or nothing is asked, or the body raises an `Exception`, at most one file
descriptor is asked, no handle of the bundle is recorded, and the count of file descriptors and the
Metal cache have room for one more when they are allocated. -/
def AdmitsScoped (r : Readings) (rs : ResourceType → Nat → Readings) (s : ResourceLedger)
    (owner : String) (b : Bundle) (e : BodyEnd) : Prop :=
  (s.canAdmit r b).1.1 = false ∨ (∀ t, b.amount t ≤ 0) ∨
    e = .exception ∧ b.fds ≤ 1 ∧
      ∀ it ∈ b.items rs owner, s.allocations.get? it.type it.handle = none ∧
        (it.type = .fileDescriptor ∨ it.type = .metalCache →
          ((s.canAdmit r b).2.checkLimit it.readings it.type).1 = true)

/-! ### The items of a bundle -/

section Items

variable {b : Bundle} {rs : ResourceType → Nat → Readings} {owner : String} {t : ResourceType} {it : Item}

/-- The item in the unit of its type. -/
def Item.amount (it : Item) : ℤ := amountOf it.type it.sizeBytes

/-- The record of the item. -/
def Item.allocation (owner : String) (it : Item) : ResourceAllocation :=
  { type := it.type
    handle := it.handle
    owner := owner
    allocatedAt := it.readings.now
    sizeBytes := it.sizeBytes }

theorem type_of_mem_itemsOf (h : it ∈ b.itemsOf rs owner t) : it.type = t := by
  cases t with
  | metalCache =>
    rw [Bundle.itemsOf] at h
    split at h
    · rw [List.mem_singleton.1 h]
    · cases h
  | tmpVolume =>
    rw [Bundle.itemsOf] at h
    split at h
    · rw [List.mem_singleton.1 h]
    · cases h
  | _ =>
    obtain ⟨i, _, rfl⟩ := List.mem_map.1 h
    rfl

theorem mem_items : it ∈ b.items rs owner ↔ it ∈ b.itemsOf rs owner it.type := by
  rw [Bundle.items, List.mem_flatMap]
  constructor
  · intro h
    obtain ⟨t, _, ht⟩ := h
    rw [type_of_mem_itemsOf ht]
    exact ht
  · intro h
    exact ⟨_, ResourceType.mem_all _, h⟩

theorem filter_items (b : Bundle) (rs : ResourceType → Nat → Readings) (owner : String)
    (t : ResourceType) :
    (b.items rs owner).filter (fun it => decide (it.type = t)) = b.itemsOf rs owner t := by
  have hkeep (u : ResourceType) : (b.itemsOf rs owner u).filter (fun it => decide (it.type = t)) =
      if u = t then b.itemsOf rs owner u else [] := by
    split
    · next hu =>
      rw [List.filter_eq_self]
      intro it hit
      exact decide_eq_true ((type_of_mem_itemsOf hit).trans hu)
    · next hu =>
      rw [List.filter_eq_nil_iff]
      intro it hit hc
      exact hu ((type_of_mem_itemsOf hit).symm.trans (of_decide_eq_true hc))
  rw [Bundle.items, List.filter_flatMap]
  simp only [hkeep]
  cases t <;> simp [ResourceType.all]

theorem amount_pos (h : it ∈ b.items rs owner) : 0 < it.amount := by
  have hmem := mem_items.1 h
  rw [Item.amount, amountOf]
  split
  · next hbytes =>
    obtain ht | ht := hbytes
    · rw [ht, Bundle.itemsOf] at hmem
      split at hmem
      · next hpos => rw [List.mem_singleton.1 hmem]; exact hpos
      · cases hmem
    · rw [ht, Bundle.itemsOf] at hmem
      split at hmem
      · next hpos => rw [List.mem_singleton.1 hmem]; exact hpos
      · cases hmem
  · exact Int.one_pos

/-- What the items of a list ask of a type. -/
def demanded (items : List Item) (t : ResourceType) : ℤ :=
  ((items.filter fun it => decide (it.type = t)).map Item.amount).sum

theorem demanded_items (b : Bundle) (rs : ResourceType → Nat → Readings) (owner : String)
    (t : ResourceType) : demanded (b.items rs owner) t = max 0 (b.amount t) := by
  have hones (n : Nat) (f : Nat → Item) (h : ∀ i, (f i).amount = 1) :
      (((List.range n).map f).map Item.amount).sum = n := by
    rw [List.map_map, show Item.amount ∘ f = fun _ => 1 from funext h]
    simp
  rw [demanded, filter_items]
  cases t with
  | metalCache =>
    rw [Bundle.itemsOf, Bundle.amount]
    split
    · simp [Item.amount, amountOf, InBytes]; omega
    · simp; omega
  | tmpVolume =>
    rw [Bundle.itemsOf, Bundle.amount]
    split
    · simp [Item.amount, amountOf, InBytes]; omega
    · simp; omega
  | _ =>
    rw [Bundle.itemsOf, hones _ _ fun _ => rfl, Bundle.amount]
    omega

theorem asked_of_mem (h : it ∈ b.items rs owner) : 0 < b.amount it.type := by
  have hdemanded := demanded_items b rs owner it.type
  have hpos := amount_pos h
  have hle : it.amount ≤ demanded (b.items rs owner) it.type := by
    apply List.single_le_sum
    · intro n hn
      obtain ⟨it', hit', rfl⟩ := List.mem_map.1 hn
      exact (amount_pos (List.mem_of_mem_filter hit')).le
    · exact List.mem_map_of_mem (List.mem_filter.2 ⟨h, decide_eq_true rfl⟩)
  omega

theorem items_eq_nil_iff (rs : ResourceType → Nat → Readings) (owner : String) :
    b.items rs owner = [] ↔ ∀ t, b.amount t ≤ 0 := by
  constructor
  · intro h t
    have hdemanded := demanded_items b rs owner t
    rw [h] at hdemanded
    have hzero : demanded [] t = 0 := rfl
    omega
  · intro h
    rw [List.eq_nil_iff_forall_not_mem]
    intro it hit
    have hasked := asked_of_mem hit
    have hnot := h it.type
    omega

theorem items_apart (b : Bundle) (rs : ResourceType → Nat → Readings) (owner : String) :
    (b.items rs owner).Pairwise fun x y => InBytes x.type → y.type ≠ x.type := by
  rw [Bundle.items, List.pairwise_flatMap]
  constructor
  · intro t _
    by_cases ht : InBytes t
    · obtain rfl | rfl := ht
      · rw [Bundle.itemsOf]
        split
        · exact List.pairwise_singleton _ _
        · exact List.Pairwise.nil
      · rw [Bundle.itemsOf]
        split
        · exact List.pairwise_singleton _ _
        · exact List.Pairwise.nil
    · apply List.Pairwise.imp_of_mem (R := fun _ _ => True) _ (List.pairwise_of_forall fun _ _ => trivial)
      intro x y hx _ _ hbytes
      rw [type_of_mem_itemsOf hx] at hbytes
      exact absurd hbytes ht
  · apply ResourceType.nodup_all.imp
    intro t u htu x hx y hy _
    rw [type_of_mem_itemsOf hx, type_of_mem_itemsOf hy]
    exact fun hc => htu hc.symm

theorem numbered_inj {kind : String} {i j : Nat} (h : numbered owner kind i = numbered owner kind j) :
    i = j := by
  rw [numbered, numbered, Handle.name.injEq] at h
  have hlist := congrArg String.toList h
  rw [String.toList_append, String.toList_append (s := owner ++ kind), List.append_cancel_left_eq,
    Nat.toString_eq_ofList_toDigits, Nat.toString_eq_ofList_toDigits, String.toList_ofList,
    String.toList_ofList] at hlist
  rw [← Nat.ofDigitChars_ten_toDigits (n := i), hlist, Nat.ofDigitChars_ten_toDigits]

theorem items_distinct (h : b.fds ≤ 1) (rs : ResourceType → Nat → Readings) (owner : String) :
    (b.items rs owner).Pairwise fun x y => ¬ (x.type = y.type ∧ x.handle = y.handle) := by
  have hnumbered (n : Nat) (f : Nat → Item) (kind : String)
      (hf : ∀ i, (f i).handle = numbered owner kind i) :
      ((List.range n).map f).Pairwise fun x y => ¬ (x.type = y.type ∧ x.handle = y.handle) := by
    rw [List.pairwise_map]
    apply List.nodup_range.imp
    intro i j hij hc
    rw [hf, hf] at hc
    exact hij (numbered_inj hc.2)
  rw [Bundle.items, List.pairwise_flatMap]
  constructor
  · intro t _
    cases t with
    | fileDescriptor =>
      have hn : b.fds.toNat = 0 ∨ b.fds.toNat = 1 := by omega
      rw [Bundle.itemsOf]
      cases hn with
      | inl hn =>
        rw [hn]
        exact List.Pairwise.nil
      | inr hn =>
        rw [hn]
        exact List.pairwise_singleton _ _
    | metalCache =>
      rw [Bundle.itemsOf]
      split
      · exact List.pairwise_singleton _ _
      · exact List.Pairwise.nil
    | tmpVolume =>
      rw [Bundle.itemsOf]
      split
      · exact List.pairwise_singleton _ _
      · exact List.Pairwise.nil
    | machPort => exact hnumbered _ _ _ fun _ => rfl
    | childProcess => exact hnumbered _ _ _ fun _ => rfl
    | mmapRegion => exact hnumbered _ _ _ fun _ => rfl
    | thread => exact hnumbered _ _ _ fun _ => rfl
  · apply ResourceType.nodup_all.imp
    intro t u htu x hx y hy hc
    rw [type_of_mem_itemsOf hx, type_of_mem_itemsOf hy] at hc
    exact htu hc.1

theorem items_single (h : b.fds ≤ 1) (rs : ResourceType → Nat → Readings) (owner : String) :
    (b.items rs owner).Pairwise fun x y =>
      x.type = .fileDescriptor ∨ InBytes x.type → y.type ≠ x.type := by
  have hhandle (it : Item) (hit : it ∈ b.items rs owner) (ht : it.type = .fileDescriptor) :
      it.handle = .num (-1) := by
    have hmem := mem_items.1 hit
    rw [ht] at hmem
    obtain ⟨i, _, rfl⟩ := List.mem_map.1 hmem
    rfl
  apply ((items_distinct h rs owner).and (items_apart b rs owner)).imp_of_mem
  intro x y hx hy hboth htype hsame
  obtain ⟨hdistinct, hapart⟩ := hboth
  cases htype with
  | inl hfd =>
    apply hdistinct
    rw [hhandle x hx hfd, hhandle y hy (hsame.trans hfd)]
    exact ⟨hsame.symm, rfl⟩
  | inr hbytes => exact hapart hbytes hsame

end Items

/-! ### Entering -/

section Enter

variable {s : ResourceLedger} {owner : String} {it : Item} {items : List Item} {t : ResourceType}

/-- What the old record under the handle of an item stands for, where it is the owner's. -/
def oldAmount (s : ResourceLedger) (owner : String) (it : Item) : ℤ :=
  match s.allocations.get? it.type it.handle with
  | some old => if old.owner = owner then amountOf it.type old.sizeBytes else 0
  | none => 0

/-- Every item is accepted when its turn comes, and takes nothing of the owner's away. -/
def AllFill (owner : String) : List Item → ResourceLedger → Prop
  | [], _ => True
  | it :: rest, s => (s.checkLimit it.readings it.type).1 = true ∧ s.oldAmount owner it = 0 ∧
      AllFill owner rest (acquire owner s it)

theorem allocations_acquire (owner : String) (s : ResourceLedger) (it : Item) :
    (acquire owner s it).allocations = if (s.checkLimit it.readings it.type).1
      then s.allocations.put (it.allocation owner) else s.allocations := by
  rw [acquire]
  rcases allocate_cases it.readings s it.type it.handle owner it.sizeBytes [] with
    ⟨hcheck, s', hs', halloc, _⟩ | ⟨hcheck, s', hs', halloc, _⟩
  · rw [hs', hcheck, halloc]
    rfl
  · rw [hs', hcheck, if_pos rfl, ← halloc]
    rfl

theorem heldAmount_acquire_of_ne (h : it.type ≠ t) :
    (acquire owner s it).heldAmount owner t = s.heldAmount owner t := by
  rw [heldAmount, allocations_acquire]
  split
  · show (Function.update s.allocations.table it.type _ t).total _ = _
    rw [Function.update_of_ne fun hc => h hc.symm]
    rfl
  · rfl

theorem heldAmount_acquire (s : ResourceLedger) (owner : String) (it : Item) :
    (acquire owner s it).heldAmount owner it.type = s.heldAmount owner it.type +
      if (s.checkLimit it.readings it.type).1 then it.amount - s.oldAmount owner it else 0 := by
  rw [heldAmount, allocations_acquire]
  split
  · show (Function.update s.allocations.table it.type
      ((s.allocations.table it.type).insert it.handle (it.allocation owner)) it.type).total _ = _
    have hnew : (if (it.allocation owner).owner = owner
        then amountOf it.type (it.allocation owner).sizeBytes else 0) = it.amount := if_pos rfl
    rw [Function.update_self, Dict.total_insert, hnew, heldAmount, oldAmount, Records.get?]
    cases hold : (s.allocations.table it.type).get? it.handle with
    | none =>
      rw [Dict.erase_of_notMem (Dict.notMem_keys_iff.2 hold)]
      simp only
      omega
    | some old =>
      rw [Dict.total_eq_add_erase _ hold]
      simp only
      omega
  · rw [Int.add_zero]
    rfl

theorem heldAmount_foldl_of_forall_ne (s : ResourceLedger) (owner : String)
    (h : ∀ it ∈ items, it.type ≠ t) :
    (items.foldl (acquire owner) s).heldAmount owner t = s.heldAmount owner t := by
  induction items generalizing s with
  | nil => rfl
  | cons it rest ih =>
    obtain ⟨hit, hrest⟩ := List.forall_mem_cons.1 h
    rw [List.foldl_cons, ih _ hrest, heldAmount_acquire_of_ne hit]

theorem demanded_cons (it : Item) (items : List Item) (t : ResourceType) :
    demanded (it :: items) t = (if it.type = t then it.amount else 0) + demanded items t := by
  rw [demanded, List.filter_cons]
  by_cases ht : it.type = t
  · simp [ht, demanded]
  · simp [ht, demanded]

theorem oldAmount_nonneg (s : ResourceLedger) (owner : String) (h : ¬ InBytes it.type) : 0 ≤ s.oldAmount owner it := by
  rw [oldAmount]
  split
  · split
    · rw [amountOf, if_neg h]
      exact Int.one_nonneg
    · exact le_refl 0
  · exact le_refl 0

theorem heldAmount_foldl_le (s : ResourceLedger) (owner : String) (items : List Item)
    (h : ¬ InBytes t) :
    (items.foldl (acquire owner) s).heldAmount owner t ≤ s.heldAmount owner t + demanded items t := by
  induction items generalizing s with
  | nil => exact (Int.add_zero _).ge
  | cons it rest ih =>
    have hrest := ih (acquire owner s it)
    rw [List.foldl_cons, demanded_cons]
    by_cases ht : it.type = t
    · subst ht
      have hone : it.amount = 1 := by rw [Item.amount, amountOf, if_neg h]
      have hold := oldAmount_nonneg s owner h
      rw [heldAmount_acquire] at hrest
      rw [if_pos rfl]
      split at hrest <;> omega
    · rw [heldAmount_acquire_of_ne ht] at hrest
      rw [if_neg ht]
      omega

/-- Where as much is added as is asked, every item has been accepted. -/
theorem allFill_of_heldAmount (happart : items.Pairwise fun x y => InBytes x.type → y.type ≠ x.type)
    (hpos : ∀ it ∈ items, 0 < it.amount)
    (h : ∀ t, (items.foldl (acquire owner) s).heldAmount owner t =
      s.heldAmount owner t + demanded items t) : AllFill owner items s := by
  induction items generalizing s with
  | nil => trivial
  | cons it rest ih =>
    obtain ⟨hlater, hrest⟩ := List.pairwise_cons.1 happart
    obtain ⟨hit, hposRest⟩ := List.forall_mem_cons.1 hpos
    have hacquire := heldAmount_acquire s owner it
    have hown := h it.type
    rw [List.foldl_cons, demanded_cons, if_pos rfl] at hown
    -- the first item adds its amount, since the others add no more than theirs
    have hfirst : (acquire owner s it).heldAmount owner it.type = s.heldAmount owner it.type + it.amount ∧
        (rest.foldl (acquire owner) (acquire owner s it)).heldAmount owner it.type =
          (acquire owner s it).heldAmount owner it.type + demanded rest it.type := by
      by_cases hbytes : InBytes it.type
      · have hnone : ∀ x ∈ rest, x.type ≠ it.type := fun x hx => hlater x hx hbytes
        have hzero : demanded rest it.type = 0 := by
          rw [demanded, List.filter_eq_nil_iff.2]
          · rfl
          · intro x hx hc
            exact hnone x hx (of_decide_eq_true hc)
        have hsame := heldAmount_foldl_of_forall_ne (acquire owner s it) owner hnone
        omega
      · have hle := heldAmount_foldl_le (acquire owner s it) owner rest hbytes
        have hone : it.amount = 1 := by rw [Item.amount, amountOf, if_neg hbytes]
        have hold := oldAmount_nonneg s owner hbytes
        split at hacquire <;> omega
    have hfills : (s.checkLimit it.readings it.type).1 = true ∧ s.oldAmount owner it = 0 := by
      split at hacquire
      · next hcheck => exact ⟨hcheck, by omega⟩
      · omega
    refine ⟨hfills.1, hfills.2, ih hrest hposRest ?_⟩
    intro t
    by_cases ht : it.type = t
    · subst ht
      exact hfirst.2
    · have hother := h t
      have hsame : (acquire owner s it).heldAmount owner t = s.heldAmount owner t :=
        heldAmount_acquire_of_ne ht
      rw [List.foldl_cons, demanded_cons, if_neg ht] at hother
      omega

theorem heldAmount_of_allFill (h : AllFill owner items s) (t : ResourceType) :
    (items.foldl (acquire owner) s).heldAmount owner t = s.heldAmount owner t + demanded items t := by
  induction items generalizing s with
  | nil => exact (Int.add_zero _).symm
  | cons it rest ih =>
    obtain ⟨hcheck, hold, hrest⟩ := h
    rw [List.foldl_cons, ih hrest, demanded_cons]
    by_cases ht : it.type = t
    · subst ht
      rw [heldAmount_acquire, if_pos hcheck, hold, if_pos rfl]
      omega
    · rw [heldAmount_acquire_of_ne ht, if_neg ht]
      omega

/-! ### The records of the items -/

theorem get?_acquire_of_ne {type : ResourceType} {handle : Handle}
    (h : ¬ (it.type = type ∧ it.handle = handle)) :
    (acquire owner s it).allocations.get? type handle = s.allocations.get? type handle := by
  rw [allocations_acquire]
  split
  · rw [Records.get?_put]
    exact if_neg h
  · rfl

theorem get?_foldl_acquire_of_forall_ne {type : ResourceType} {handle : Handle}
    (h : ∀ it ∈ items, ¬ (it.type = type ∧ it.handle = handle)) :
    (items.foldl (acquire owner) s).allocations.get? type handle = s.allocations.get? type handle := by
  induction items generalizing s with
  | nil => rfl
  | cons it rest ih =>
    obtain ⟨hit, hrest⟩ := List.forall_mem_cons.1 h
    rw [List.foldl_cons, ih hrest, get?_acquire_of_ne hit]

theorem recorded_of_allFill (h : AllFill owner items s)
    (hdistinct : items.Pairwise fun x y => ¬ (x.type = y.type ∧ x.handle = y.handle))
    (hit : it ∈ items) :
    (items.foldl (acquire owner) s).allocations.get? it.type it.handle = some (it.allocation owner) ∧
      s.oldAmount owner it = 0 := by
  induction items generalizing s with
  | nil => cases hit
  | cons x rest ih =>
    obtain ⟨hcheck, hold, hrest⟩ := h
    obtain ⟨hx, hdistinctRest⟩ := List.pairwise_cons.1 hdistinct
    rw [List.foldl_cons]
    cases List.mem_cons.1 hit with
    | inl heq =>
      subst heq
      rw [get?_foldl_acquire_of_forall_ne fun y hy hc => hx y hy ⟨hc.1.symm, hc.2.symm⟩,
        allocations_acquire, if_pos hcheck, Records.get?_put]
      exact ⟨if_pos ⟨rfl, rfl⟩, hold⟩
    | inr hmem =>
      obtain ⟨hget, hzero⟩ := ih hrest hdistinctRest hmem
      refine ⟨hget, ?_⟩
      rw [oldAmount, get?_acquire_of_ne (hx it hmem)] at hzero
      exact hzero

theorem owned_acquire (owner : String) (s : ResourceLedger) (it : Item) (o : String) :
    (acquire owner s it).owned o = if (s.checkLimit it.readings it.type).1 = true ∧ owner = o
      then s.owned o ++ [it.allocation owner] else s.owned o := by
  rw [acquire]
  rcases allocate_cases it.readings s it.type it.handle owner it.sizeBytes [] with
    ⟨hcheck, s', hs', _, howner, _⟩ | ⟨hcheck, s', hs', _, howner, _⟩
  · rw [hs', hcheck, if_neg (fun hc => by cases hc.1), owned, howner]
    rfl
  · rw [hs', hcheck]
    show ((s'.ownerAllocations.insert owner _).get? o).getD [] = _
    rw [owned_insert]
    by_cases ho : owner = o
    · rw [if_pos ho, if_pos ⟨rfl, ho⟩, owned, owned, howner, ← ho]
      rfl
    · rw [if_neg ho, if_neg fun hc => ho hc.2, owned, howner]

theorem owned_of_allFill (h : AllFill owner items s) (o : String) :
    (items.foldl (acquire owner) s).owned o =
      if owner = o then s.owned o ++ items.map (Item.allocation owner) else s.owned o := by
  induction items generalizing s with
  | nil =>
    rw [List.map_nil, List.append_nil, ite_self]
    rfl
  | cons it rest ih =>
    obtain ⟨hcheck, _, hrest⟩ := h
    rw [List.foldl_cons, ih hrest, owned_acquire]
    by_cases ho : owner = o
    · rw [if_pos ho, if_pos ho, if_pos ⟨hcheck, ho⟩, List.append_assoc]
      rfl
    · rw [if_neg ho, if_neg ho, if_neg fun hc => ho hc.2]

end Enter

/-! ### Room for the items -/

section Room

variable {s : ResourceLedger} {owner : String} {it : Item} {items : List Item} {t : ResourceType}
  {r : Readings} {b : Bundle}

theorem limits_acquire (owner : String) (s : ResourceLedger) (it : Item) :
    (acquire owner s it).limits = s.limits := by
  rw [acquire]
  rcases allocate_cases it.readings s it.type it.handle owner it.sizeBytes [] with
    ⟨_, s', hs', _, _, hlimits⟩ | ⟨_, s', hs', _, _, hlimits⟩
  · rw [hs', hlimits]
  · rw [hs']
    exact hlimits

theorem getLimit_acquire (owner : String) (s : ResourceLedger) (it : Item) (t : ResourceType) :
    (acquire owner s it).getLimit t = s.getLimit t := by
  rw [getLimit.eq_def, getLimit.eq_def, limits_acquire]

theorem darwin_acquire (owner : String) (s : ResourceLedger) (it : Item) :
    (acquire owner s it).darwin = s.darwin := by
  obtain ⟨count, time, hs⟩ := getCurrent_frame it.readings s it.type
  rw [acquire, allocate, checkLimit]
  simp only
  rw [hs]
  split <;> rfl

theorem fdCount_acquire (owner : String) (s : ResourceLedger) (h : it.type ≠ .fileDescriptor) :
    (acquire owner s it).systemFdCount = s.systemFdCount ∧
      (acquire owner s it).lastFdCheck = s.lastFdCheck := by
  have hsame : (s.getCurrent it.readings it.type).2 = s := by
    cases ht : it.type with
    | fileDescriptor => exact absurd ht h
    | _ => rfl
  rw [acquire, allocate, checkLimit]
  simp only
  rw [hsame]
  split <;> exact ⟨rfl, rfl⟩

theorem count_acquire_of_ne (h : it.type ≠ t) : (acquire owner s it).countByType t = s.countByType t := by
  rw [countByType, allocations_acquire]
  split
  · rw [Records.count_put, if_neg fun hc => h hc.1]
    rfl
  · rfl

theorem checkLimit_acquire_of_ne (owner : String) (s : ResourceLedger)
    (ht : t = .fileDescriptor ∨ t = .metalCache) (h : it.type ≠ t) :
    ((acquire owner s it).checkLimit r t).1 = (s.checkLimit r t).1 := by
  obtain rfl | rfl := ht
  · obtain ⟨hcount, htime⟩ := fdCount_acquire owner s h
    rw [checkLimit, checkLimit, getLimit_acquire]
    show decide (((acquire owner s it).countFds r).1 + 1 ≤ _) = decide ((s.countFds r).1 + 1 ≤ _)
    rw [countFds, countFds, hcount, htime, count_acquire_of_ne h]
    split
    · rfl
    · cases r.fds <;> rfl
  · rw [checkLimit, checkLimit, getLimit_acquire]
    rfl

/-- An item under a free handle adds at most its amount. -/
theorem getCurrent_acquire_le (owner : String) (r : Readings) (ht : t ≠ .fileDescriptor)
    (hfree : s.allocations.get? it.type it.handle = none) (hpos : 0 < it.amount) :
    ((acquire owner s it).getCurrent r t).1 ≤
      (s.getCurrent r t).1 + if it.type = t then it.amount else 0 := by
  have hcount (hbytes : ¬ InBytes t) : ((acquire owner s it).countByType t : ℤ) ≤
      s.countByType t + if it.type = t then it.amount else 0 := by
    by_cases htype : it.type = t
    · subst htype
      have hone : it.amount = 1 := by rw [Item.amount, amountOf, if_neg hbytes]
      rw [if_pos rfl, hone, countByType, allocations_acquire]
      split
      · rw [Records.count_put]
        split
        · exact le_refl _
        · exact Int.le_add_of_nonneg_right Int.one_nonneg
      · exact Int.le_add_of_nonneg_right Int.one_nonneg
    · rw [if_neg htype, count_acquire_of_ne htype]
      exact (Int.add_zero _).ge
  have hzero : 0 ≤ if it.type = t then it.amount else 0 := by split <;> omega
  cases t with
  | fileDescriptor => exact absurd rfl ht
  | machPort =>
    show (if (acquire owner s it).darwin then _ else (0 : ℤ)) ≤
      (if s.darwin then (s.countByType .machPort : ℤ) else 0) + _
    rw [darwin_acquire]
    split
    · exact hcount (by decide)
    · rw [Int.zero_add]
      exact hzero
  | childProcess => exact hcount (by decide)
  | mmapRegion => exact hcount (by decide)
  | thread => exact hcount (by decide)
  | metalCache => exact Int.le_add_of_nonneg_right hzero
  | tmpVolume =>
    show (acquire owner s it).allocations.bytes .tmpVolume ≤ s.allocations.bytes .tmpVolume + _
    rw [allocations_acquire]
    split
    · rw [Records.bytes_put]
      by_cases htype : it.type = .tmpVolume
      · have hnew : (it.allocation owner).bytes = it.amount := by
          rw [Item.amount, amountOf, if_pos (.inr htype)]
          rfl
        have herase : (s.allocations.erase .tmpVolume it.handle).bytes .tmpVolume =
            s.allocations.bytes .tmpVolume := by
          show (Function.update s.allocations.table .tmpVolume
            ((s.allocations.table .tmpVolume).erase it.handle) .tmpVolume).total
              ResourceAllocation.bytes = _
          rw [htype] at hfree
          rw [Function.update_self, Dict.erase_of_notMem (Dict.notMem_keys_iff.2 hfree)]
          rfl
        have htype' : ResourceType.tmpVolume = (it.allocation owner).type := htype.symm
        rw [if_pos htype', if_pos htype, hnew]
        show it.amount + (s.allocations.erase .tmpVolume it.handle).bytes .tmpVolume ≤ _
        rw [herase, Int.add_comm]
      · have htype' : ResourceType.tmpVolume ≠ (it.allocation owner).type := fun hc => htype hc.symm
        rw [if_neg htype']
        exact Int.le_add_of_nonneg_right hzero
    · exact Int.le_add_of_nonneg_right hzero

theorem demanded_nonneg (h : ∀ it ∈ items, 0 < it.amount) (t : ResourceType) : 0 ≤ demanded items t := by
  apply List.sum_nonneg
  intro n hn
  obtain ⟨it, hit, rfl⟩ := List.mem_map.1 hn
  exact (h it (List.mem_of_mem_filter hit)).le

/-- Items under free handles of their own are all accepted where there is room. -/
theorem allFill_of_room
    (hdistinct : items.Pairwise fun x y => ¬ (x.type = y.type ∧ x.handle = y.handle))
    (hsingle : items.Pairwise fun x y => x.type = .fileDescriptor ∨ InBytes x.type → y.type ≠ x.type)
    (hpos : ∀ it ∈ items, 0 < it.amount)
    (hfree : ∀ it ∈ items, s.allocations.get? it.type it.handle = none)
    (hcheck : ∀ it ∈ items, it.type = .fileDescriptor ∨ it.type = .metalCache →
      (s.checkLimit it.readings it.type).1 = true)
    (hroom : ∀ it ∈ items, it.type ≠ .fileDescriptor → it.type ≠ .metalCache →
      ∀ r, (s.getCurrent r it.type).1 + demanded items it.type ≤ s.getLimit it.type) :
    AllFill owner items s := by
  induction items generalizing s with
  | nil => trivial
  | cons it rest ih =>
    obtain ⟨hit, hdistinctRest⟩ := List.pairwise_cons.1 hdistinct
    obtain ⟨hone, hsingleRest⟩ := List.pairwise_cons.1 hsingle
    obtain ⟨hposIt, hposRest⟩ := List.forall_mem_cons.1 hpos
    obtain ⟨hfreeIt, hfreeRest⟩ := List.forall_mem_cons.1 hfree
    have hrest := demanded_nonneg hposRest
    have haccepted : (s.checkLimit it.readings it.type).1 = true := by
      by_cases htype : it.type = .fileDescriptor ∨ it.type = .metalCache
      · exact hcheck it List.mem_cons_self htype
      · rw [not_or] at htype
        have hall := hroom it List.mem_cons_self htype.1 htype.2 it.readings
        have hdemanded := hrest it.type
        rw [demanded_cons, if_pos rfl] at hall
        rw [checkLimit, decide_eq_true_iff]
        omega
    refine ⟨haccepted, by rw [oldAmount, hfreeIt], ih hdistinctRest hsingleRest hposRest ?_ ?_ ?_⟩
    · intro x hx
      rw [get?_acquire_of_ne (hit x hx)]
      exact hfreeRest x hx
    · intro x hx htype
      have hne : it.type ≠ x.type := by
        intro hc
        apply hone x hx _ hc.symm
        rw [hc]
        exact htype.imp_right .inl
      rw [checkLimit_acquire_of_ne owner s htype hne]
      exact hcheck x (List.mem_cons_of_mem _ hx) htype
    · intro x hx hfd hmetal r
      have hall := hroom x (List.mem_cons_of_mem _ hx) hfd hmetal r
      have hle := getCurrent_acquire_le owner r hfd hfreeIt hposIt
      rw [demanded_cons] at hall
      rw [getLimit_acquire]
      omega

theorem checked_of_allFill (h : AllFill owner items s)
    (hsingle : items.Pairwise fun x y => x.type = .fileDescriptor ∨ InBytes x.type → y.type ≠ x.type)
    (hit : it ∈ items) (htype : it.type = .fileDescriptor ∨ it.type = .metalCache) :
    (s.checkLimit it.readings it.type).1 = true := by
  induction items generalizing s with
  | nil => cases hit
  | cons x rest ih =>
    obtain ⟨hcheck, _, hrest⟩ := h
    obtain ⟨hone, hsingleRest⟩ := List.pairwise_cons.1 hsingle
    cases List.mem_cons.1 hit with
    | inl heq => rw [heq]; exact hcheck
    | inr hmem =>
      have hne : x.type ≠ it.type := by
        intro hc
        apply hone it hmem _ hc.symm
        rw [hc]
        exact htype.imp_right .inl
      rw [← checkLimit_acquire_of_ne owner s htype hne]
      exact ih hrest hsingleRest hmem

/-! ### What `can_admit` has checked -/

theorem canAdmitFrom_frame (r : Readings) (b : Bundle) (s : ResourceLedger) (types : List ResourceType) :
    ∃ count time, (s.canAdmitFrom r b types).2 = { s with systemFdCount := count, lastFdCheck := time } := by
  induction types generalizing s with
  | nil => exact ⟨_, _, rfl⟩
  | cons t rest ih =>
    rw [canAdmitFrom]
    split
    · exact ih s
    · obtain ⟨count, time, hs⟩ := getCurrent_frame r s t
      simp only
      rw [hs]
      split
      · exact ⟨_, _, rfl⟩
      · exact ih _

theorem canAdmit_frame (r : Readings) (s : ResourceLedger) (b : Bundle) :
    ∃ count time, (s.canAdmit r b).2 = { s with systemFdCount := count, lastFdCheck := time } := by
  obtain ⟨count, time, hs⟩ := canAdmitFrom_frame r b s ResourceType.all
  refine ⟨count, time, ?_⟩
  rw [← hs, canAdmit]
  cases (s.canAdmitFrom r b ResourceType.all).1 <;> rfl

theorem room_of_canAdmitFrom {types : List ResourceType} (h : (s.canAdmitFrom r b types).1 = none)
    (ht : t ∈ types) (hpos : 0 < b.amount t) (hfd : t ≠ .fileDescriptor) :
    (s.getCurrent r t).1 + b.amount t ≤ s.getLimit t := by
  induction types generalizing s with
  | nil => cases ht
  | cons u rest ih =>
    rw [canAdmitFrom] at h
    obtain ⟨count, time, hs⟩ := getCurrent_frame r s u
    have hsame : (({ s with systemFdCount := count, lastFdCheck := time } : ResourceLedger).getCurrent r
        t).1 = (s.getCurrent r t).1 := by
      cases t with
      | fileDescriptor => exact absurd rfl hfd
      | _ => rfl
    split at h
    · next hzero =>
      apply ih h ((List.mem_cons.1 ht).resolve_left _)
      intro hc
      rw [hc] at hpos
      omega
    · simp only at h
      split at h
      · cases h
      · next hfits =>
        cases List.mem_cons.1 ht with
        | inl heq =>
          rw [heq]
          omega
        | inr hmem =>
          rw [hs] at h
          have hrest := ih h hmem
          rw [hsame] at hrest
          exact hrest

theorem room_of_canAdmit (h : (s.canAdmit r b).1.1 = true) (hpos : 0 < b.amount t)
    (hfd : t ≠ .fileDescriptor) : (s.getCurrent r t).1 + b.amount t ≤ s.getLimit t := by
  rw [canAdmit] at h
  cases hc : (s.canAdmitFrom r b ResourceType.all).1 with
  | none => exact room_of_canAdmitFrom hc (ResourceType.mem_all t) hpos hfd
  | some reason =>
    rw [hc] at h
    cases h

end Room

/-! ### Leaving -/

section Leave

variable {s left : ResourceLedger} {owner : String} {items : List Item} {t : ResourceType}

theorem get?_release (s : ResourceLedger) (t u : ResourceType) (handle j : Handle) (force : Bool) :
    (s.release t handle force).2.allocations.get? u j =
      if t = u ∧ handle = j then none else s.allocations.get? u j := by
  rw [release]
  cases hget : s.allocations.get? t handle with
  | none =>
    show s.allocations.get? u j = _
    split
    · next hk => rw [← hk.1, ← hk.2, hget]
    · rfl
  | some a =>
    simp only [disown]
    rw [← Records.get?_erase]
    cases s.ownerAllocations.get? a.owner <;> rfl

theorem owned_release {a : ResourceAllocation} {handle : Handle}
    (h : s.allocations.get? t handle = some a) (force : Bool) (o : String) :
    (s.release t handle force).2.owned o = if a.owner = o then (s.owned o).erase a else s.owned o := by
  rw [release, h]
  simp only [disown]
  cases howner : s.ownerAllocations.get? a.owner with
  | none =>
    show s.owned o = _
    split
    · next ho =>
      rw [owned, ← ho, howner]
      rfl
    · rfl
  | some allocs =>
    show ((s.ownerAllocations.insert a.owner _).get? o).getD [] = _
    rw [owned_insert]
    split
    · next ho => rw [owned, ← ho, howner]; rfl
    · rfl

/-- The items leave both indexes again. -/
theorem foldl_release (hdistinct : items.Pairwise fun x y => ¬ (x.type = y.type ∧ x.handle = y.handle))
    (hthere : ∀ it ∈ items, left.allocations.get? it.type it.handle = some (it.allocation owner))
    (hcount : ∀ a, (items.map (Item.allocation owner)).count a ≤ (left.owned owner).count a) :
    (∀ type handle,
      (items.foldl (fun s it => (s.release it.type it.handle true).2) left).allocations.get? type handle =
        if ∃ it ∈ items, it.type = type ∧ it.handle = handle then none
        else left.allocations.get? type handle) ∧
      ∀ o a, ((items.foldl (fun s it => (s.release it.type it.handle true).2) left).owned o).count a +
        (if owner = o then (items.map (Item.allocation owner)).count a else 0) =
          (left.owned o).count a := by
  induction items generalizing left with
  | nil => simp
  | cons it rest ih =>
    obtain ⟨hit, hdistinctRest⟩ := List.pairwise_cons.1 hdistinct
    have hget := hthere it List.mem_cons_self
    have howned (o : String) : (left.release it.type it.handle true).2.owned o =
        if owner = o then (left.owned o).erase (it.allocation owner) else left.owned o :=
      owned_release hget true o
    have hleft : ∀ x ∈ rest, (left.release it.type it.handle true).2.allocations.get? x.type x.handle =
        some (x.allocation owner) := by
      intro x hx
      rw [get?_release, if_neg (hit x hx)]
      exact hthere x (List.mem_cons_of_mem _ hx)
    have hless (o : String) (a : ResourceAllocation) :
        ((left.release it.type it.handle true).2.owned o).count a +
          (if owner = o ∧ a = it.allocation owner then 1 else 0) = (left.owned o).count a := by
      rw [howned]
      by_cases ho : owner = o
      · subst ho
        have hall := hcount a
        rw [List.map_cons, List.count_cons] at hall
        rw [if_pos rfl, List.count_erase]
        by_cases ha : a = it.allocation owner
        · subst ha
          simp only [beq_self_eq_true, if_true, and_self] at hall ⊢
          omega
        · have hne : ¬ it.allocation owner = a := fun hc => ha hc.symm
          simp [ha, hne]
      · rw [if_neg ho, if_neg fun hc => ho hc.1, Nat.add_zero]
    obtain ⟨hrecords, hlists⟩ := ih hdistinctRest hleft (by
      intro a
      have hall := hcount a
      have hone := hless owner a
      rw [List.map_cons, List.count_cons] at hall
      by_cases ha : a = it.allocation owner
      · subst ha
        simp only [beq_self_eq_true, if_true, and_self] at hall hone
        omega
      · have hne : ¬ it.allocation owner = a := fun hc => ha hc.symm
        simp [ha, hne] at hall hone
        omega)
    constructor
    · intro type handle
      rw [List.foldl_cons, hrecords, get?_release]
      by_cases hk : it.type = type ∧ it.handle = handle <;> simp [hk]
    · intro o a
      have hrest := hlists o a
      have hone := hless o a
      rw [List.foldl_cons, List.map_cons, List.count_cons]
      by_cases ho : owner = o
      · subst ho
        by_cases ha : a = it.allocation owner
        · subst ha
          simp only [beq_self_eq_true, if_true, and_self] at hrest hone ⊢
          omega
        · have hne : ¬ it.allocation owner = a := fun hc => ha hc.symm
          simp only [ha, hne, beq_iff_eq, if_true, if_false, and_false] at hrest hone ⊢
          omega
      · simp only [ho, if_false, false_and] at hrest hone ⊢
        omega

end Leave

/-! ### The block -/

section Block

variable {r : Readings} {rs : ResourceType → Nat → Readings} {s : ResourceLedger} {owner : String}
  {b : Bundle} {e : BodyEnd}

theorem canAdmit_same (r : Readings) (s : ResourceLedger) (b : Bundle) :
    (s.canAdmit r b).2.allocations = s.allocations ∧
      (s.canAdmit r b).2.ownerAllocations = s.ownerAllocations := by
  obtain ⟨count, time, hs⟩ := canAdmit_frame r s b
  rw [hs]
  exact ⟨rfl, rfl⟩

theorem heldAmount_canAdmit (r : Readings) (s : ResourceLedger) (b : Bundle) (owner : String)
    (t : ResourceType) : (s.canAdmit r b).2.heldAmount owner t = s.heldAmount owner t := by
  rw [heldAmount, (canAdmit_same r s b).1]
  rfl

theorem owned_canAdmit (r : Readings) (s : ResourceLedger) (b : Bundle) (o : String) :
    (s.canAdmit r b).2.owned o = s.owned o := by
  rw [owned, (canAdmit_same r s b).2]
  rfl

theorem ExtendedBy.refl (s : ResourceLedger) : s.ExtendedBy s :=
  ⟨fun _ _ _ h => h, fun _ _ => le_refl _⟩

theorem fds_le_one_of_allFill (h : AllFill owner (b.items rs owner) s) : b.fds ≤ 1 := by
  by_contra hmany
  obtain ⟨n, hn⟩ : ∃ n, b.fds.toNat = n + 2 := ⟨b.fds.toNat - 2, by omega⟩
  have hitems : b.items rs owner = b.itemsOf rs owner .fileDescriptor ++
      ResourceType.all.tail.flatMap (b.itemsOf rs owner) := rfl
  rw [hitems, Bundle.itemsOf, hn, List.range_succ_eq_map, List.map_cons, List.map_map,
    List.range_succ_eq_map, List.map_cons, List.cons_append, List.cons_append] at h
  obtain ⟨hcheck, _, _, hold, _⟩ := h
  rw [oldAmount, allocations_acquire, if_pos hcheck, Records.get?_put, if_pos ⟨rfl, rfl⟩] at hold
  simp [Item.allocation, amountOf, InBytes] at hold

theorem restoredTo_of_allFill (hfds : b.fds ≤ 1)
    (hfill : AllFill owner (b.items rs owner) (s.canAdmit r b).2) {left : ResourceLedger}
    (hext : ((b.items rs owner).foldl (acquire owner) (s.canAdmit r b).2).ExtendedBy left) :
    (∀ type handle, (leaveAdmission (b.items rs owner) .exception left).allocations.get? type handle =
      if ∃ it ∈ b.items rs owner, it.type = type ∧ it.handle = handle then none
      else left.allocations.get? type handle) ∧
    ∀ o a, ((leaveAdmission (b.items rs owner) .exception left).owned o).count a +
      (((b.items rs owner).foldl (acquire owner) (s.canAdmit r b).2).owned o).count a =
        (s.owned o).count a + (left.owned o).count a := by
  have hdistinct := items_distinct hfds rs owner
  have hthere : ∀ it ∈ (b.items rs owner).reverse,
      left.allocations.get? it.type it.handle = some (it.allocation owner) := by
    intro it hit
    exact hext.records _ _ _ (recorded_of_allFill hfill hdistinct (List.mem_reverse.1 hit)).1
  have hcount (a : ResourceAllocation) :
      ((b.items rs owner).reverse.map (Item.allocation owner)).count a ≤ (left.owned owner).count a := by
    have hall := hext.owned owner a
    rw [owned_of_allFill hfill, if_pos rfl, List.count_append] at hall
    rw [List.map_reverse, List.count_reverse]
    omega
  obtain ⟨hrecords, hlists⟩ := foldl_release (List.pairwise_reverse.2 (hdistinct.imp fun h hc =>
    h ⟨hc.1.symm, hc.2.symm⟩)) hthere hcount
  constructor
  · intro type handle
    rw [leaveAdmission, hrecords]
    simp only [List.mem_reverse]
  · intro o a
    have hless := hlists o a
    rw [List.map_reverse, List.count_reverse] at hless
    rw [leaveAdmission, owned_of_allFill hfill, owned_canAdmit]
    split at hless
    · next ho =>
      rw [if_pos ho, List.count_append]
      omega
    · next ho =>
      rw [if_neg ho]
      omega

theorem admitsScoped_of_scoped (hne : b.items rs owner ≠ [])
    (hfill : AllFill owner (b.items rs owner) (s.canAdmit r b).2)
    (h : s.RestoredTo ((b.items rs owner).foldl (acquire owner) (s.canAdmit r b).2)
      ((b.items rs owner).foldl (acquire owner) (s.canAdmit r b).2)
      (leaveAdmission (b.items rs owner) e
        ((b.items rs owner).foldl (acquire owner) (s.canAdmit r b).2))) :
    e = .exception ∧ b.fds ≤ 1 ∧
      ∀ it ∈ b.items rs owner, s.allocations.get? it.type it.handle = none ∧
        (it.type = .fileDescriptor ∨ it.type = .metalCache →
          ((s.canAdmit r b).2.checkLimit it.readings it.type).1 = true) := by
  have hfds := fds_le_one_of_allFill hfill
  have hexception : e = .exception := by
    by_contra hother
    have hstays (t : ResourceLedger) : leaveAdmission (b.items rs owner) e t = t := by
      cases e with
      | exception => exact absurd rfl hother
      | normal => rfl
      | closed => rfl
    obtain ⟨it, hit⟩ := List.exists_mem_of_ne_nil _ hne
    -- the owner's list has grown by the items and is not cut again
    have hcount := h.owned owner (it.allocation owner)
    rw [hstays, owned_of_allFill hfill, if_pos rfl, owned_canAdmit, List.count_append] at hcount
    have hone := List.count_pos_iff.2 (List.mem_map_of_mem (f := Item.allocation owner) hit)
    omega
  refine ⟨hexception, hfds, ?_⟩
  intro it hit
  constructor
  · have hrecord := h.records it.type it.handle
    rw [hexception, (restoredTo_of_allFill hfds hfill (ExtendedBy.refl _)).1,
      if_pos ⟨it, hit, rfl, rfl⟩,
      (recorded_of_allFill hfill (items_distinct hfds rs owner) hit).1] at hrecord
    exact hrecord.symm
  · exact checked_of_allFill hfill (items_single hfds rs owner) hit

theorem allFill_of_admits (hgranted : (s.canAdmit r b).1.1 = true) (hfds : b.fds ≤ 1)
    (h : ∀ it ∈ b.items rs owner, s.allocations.get? it.type it.handle = none ∧
      (it.type = .fileDescriptor ∨ it.type = .metalCache →
        ((s.canAdmit r b).2.checkLimit it.readings it.type).1 = true)) :
    AllFill owner (b.items rs owner) (s.canAdmit r b).2 := by
  apply allFill_of_room (items_distinct hfds rs owner) (items_single hfds rs owner)
    (fun _ hit => amount_pos hit)
  · intro it hit
    rw [(canAdmit_same r s b).1]
    exact (h it hit).1
  · intro it hit
    exact (h it hit).2
  · intro it hit hfd hmetal r'
    have hasked := asked_of_mem hit
    have hroom := room_of_canAdmit hgranted hasked hfd
    obtain ⟨count, time, hs⟩ := canAdmit_frame r s b
    rw [demanded_items, max_eq_right hasked.le, hs]
    cases ht : it.type with
    | fileDescriptor => exact absurd ht hfd
    | metalCache => exact absurd ht hmetal
    | _ =>
      rw [ht] at hroom
      exact hroom

theorem scoped_of_nothing (h : b.items rs owner = []) (e : BodyEnd) :
    (∀ t, ((b.items rs owner).foldl (acquire owner) (s.canAdmit r b).2).heldAmount owner t =
      s.heldAmount owner t + max 0 (b.amount t)) ∧
    ∀ left, ((b.items rs owner).foldl (acquire owner) (s.canAdmit r b).2).ExtendedBy left →
      s.RestoredTo ((b.items rs owner).foldl (acquire owner) (s.canAdmit r b).2) left
        (leaveAdmission (b.items rs owner) e left) := by
  have hstays (left : ResourceLedger) : leaveAdmission [] e left = left := by cases e <;> rfl
  constructor
  · intro t
    rw [← demanded_items b rs owner t, h]
    exact (heldAmount_canAdmit r s b owner t).trans (Int.add_zero _).symm
  · intro left hext
    rw [h, List.foldl_nil] at hext ⊢
    rw [hstays]
    constructor
    · intro type handle
      rw [(canAdmit_same r s b).1]
      cases hget : s.allocations.get? type handle with
      | none => rfl
      | some a =>
        rw [← (canAdmit_same r s b).1] at hget
        exact hext.records _ _ _ hget
    · intro o a
      rw [owned_canAdmit, Nat.add_comm]

theorem scoped_of_allFill (hfds : b.fds ≤ 1)
    (hfree : ∀ it ∈ b.items rs owner, s.allocations.get? it.type it.handle = none)
    (hfill : AllFill owner (b.items rs owner) (s.canAdmit r b).2) :
    (∀ t, ((b.items rs owner).foldl (acquire owner) (s.canAdmit r b).2).heldAmount owner t =
      s.heldAmount owner t + max 0 (b.amount t)) ∧
    ∀ left, ((b.items rs owner).foldl (acquire owner) (s.canAdmit r b).2).ExtendedBy left →
      s.RestoredTo ((b.items rs owner).foldl (acquire owner) (s.canAdmit r b).2) left
        (leaveAdmission (b.items rs owner) .exception left) := by
  constructor
  · intro t
    rw [heldAmount_of_allFill hfill, heldAmount_canAdmit, demanded_items]
  · intro left hext
    obtain ⟨hrecords, howned⟩ := restoredTo_of_allFill hfds hfill hext
    refine ⟨?_, howned⟩
    intro type handle
    rw [hrecords]
    by_cases hitem : ∃ it ∈ b.items rs owner, it.type = type ∧ it.handle = handle
    · obtain ⟨it, hit, rfl, rfl⟩ := hitem
      rw [if_pos ⟨it, hit, rfl, rfl⟩,
        (recorded_of_allFill hfill (items_distinct hfds rs owner) hit).1]
      exact (hfree it hit).symm
    · have hother := hext.records type handle
      rw [get?_foldl_acquire_of_forall_ne fun it hit hc => hitem ⟨it, hit, hc⟩,
        (canAdmit_same r s b).1] at hother ⊢
      rw [if_neg hitem]
      cases hget : s.allocations.get? type handle with
      | none => rfl
      | some a => exact hother a hget

theorem admission_of_admitted (h : (s.canAdmit r b).1.1 = true) (rs : ResourceType → Nat → Readings)
    (owner : String) (body : ResourceLedger → ResourceLedger) (e : BodyEnd) :
    admission r rs s owner b body e = (.ok (), leaveAdmission (b.items rs owner) e
      (body ((b.items rs owner).foldl (acquire owner) (s.canAdmit r b).2))) := by
  rw [admission, enterAdmission]
  simp only [h, if_true]

/-- An admission is scoped exactly when it is refused, or asks for nothing, or finds its handles free and
is left by an `Exception`. -/
theorem admissionScoped_iff (r : Readings) (rs : ResourceType → Nat → Readings) (s : ResourceLedger)
    (owner : String) (b : Bundle) (e : BodyEnd) :
    AdmissionScoped r rs s owner b e ↔ AdmitsScoped r rs s owner b e := by
  rw [AdmissionScoped, AdmitsScoped, enterAdmission]
  cases hgranted : (s.canAdmit r b).1.1 with
  | false => exact iff_of_true (canAdmit_same r s b) (.inl rfl)
  | true =>
    rw [if_pos rfl]
    simp only [admission_of_admitted hgranted, Bool.true_eq_false, false_or]
    constructor
    · intro h
      obtain ⟨hheld, hrestored⟩ := h
      rw [← items_eq_nil_iff rs owner, or_iff_not_imp_left]
      intro hne
      apply admitsScoped_of_scoped hne _ (hrestored id (ExtendedBy.refl _))
      apply allFill_of_heldAmount (items_apart b rs owner) fun _ hit => amount_pos hit
      intro t
      rw [hheld, heldAmount_canAdmit, demanded_items]
    · intro h
      cases h with
      | inl hnothing =>
        obtain ⟨hheld, hrestored⟩ := scoped_of_nothing (r := r) (s := s)
          ((items_eq_nil_iff rs owner).2 hnothing) e
        exact ⟨hheld, fun body hbody => hrestored _ hbody⟩
      | inr h =>
        obtain ⟨rfl, hfds, hitems⟩ := h
        obtain ⟨hheld, hrestored⟩ := scoped_of_allFill hfds (fun it hit => (hitems it hit).1)
          (allFill_of_admits hgranted hfds hitems)
        exact ⟨hheld, fun body hbody => hrestored _ hbody⟩

/-- A block that is left normally keeps its child process on record. -/
theorem not_admissionScoped_normal :
    ¬ ∀ (r : Readings) (rs : ResourceType → Nat → Readings) (s : ResourceLedger) (owner : String)
      (b : Bundle) (e : BodyEnd), AdmissionScoped r rs s owner b e := by
  intro h
  have hscoped := h { now := 0 } (fun _ _ => { now := 0 }) {} "tor" { childProcesses := 1 } .normal
  have hrecord := (hscoped.2 id ⟨fun _ _ _ hr => hr, fun _ _ => le_refl _⟩).records .childProcess
    (.name "tor_child_0")
  revert hrecord
  decide

end Block

end ResourceLedger

end Hledac.Core
