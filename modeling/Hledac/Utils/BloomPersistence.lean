import Hledac.Lib.Bloom
import Hledac.Py.Value
import Hledac.Utils.MultiTierBloom

/-!
# Bloom filters on disk

`BloomFilter` with its bytes and its cache of positions, what `save` and `load` make of it, and
`MmapBloomFilter`, which copies the mapped file when it is opened: what is added goes to the copy and
never to the file. The sizes, which are computed with logarithms, and the hash are parameters.
-/

namespace Hledac.Utils.Persistent

open Hledac.Lib Hledac.Py BitArray

/-- `_calculate_size`, `int(m / n * math.log(2))`, and `xxh64` of a seed and an item. -/
structure Hashing where
  calculateSize : Int → ℚ → Nat
  ratio : Nat → Int → Int
  xxh64 : Nat → String → Nat

/-- `BloomFilter`; `utils/bloom_filter.py:94-111`. -/
structure BloomFilter where
  size : Nat
  hashCount : Nat
  maxElements : Int
  errorRate : ℚ
  byteArray : Bytes
  elementCount : Nat := 0
  hashCache : Dict String (List Nat) := .empty

/-- `MAX_HASH_CACHE_SIZE`. -/
def maxHashCacheSize : Nat := 10000

/-- The dictionary that `save` writes; lines 218-225. -/
structure Saved where
  size : Nat
  hashCount : Nat
  maxElements : Int
  errorRate : ℚ
  elementCount : Nat
  byteArray : List Nat
  deriving DecidableEq

/-- `_json_dumps` and `_json_loads` of such dictionaries. -/
structure Json where
  dumps : Saved → Except PyError String
  loads : String → Except PyError Saved

namespace BloomFilter

variable (h : Hashing)

/-- The bytes for so many bits. -/
def byteSize (size : Nat) : Nat := (size + 7) / 8

/-- `__init__`; lines 97-118. -/
def new (maxElements : Int) (errorRate : ℚ) : BloomFilter where
  size := h.calculateSize maxElements errorRate
  hashCount := (max 1 (h.ratio (h.calculateSize maxElements errorRate) maxElements)).toNat
  maxElements := maxElements
  errorRate := errorRate
  byteArray := List.replicate (byteSize (h.calculateSize maxElements errorRate)) 0

/-- The positions of an item. -/
def positions (f : BloomFilter) (item : String) : List Nat :=
  (List.range f.hashCount).map fun i => h.xxh64 i item % f.size

/-- `_get_hash_positions`; lines 128-160. -/
def getHashPositions (item : String) (f : BloomFilter) : List Nat × BloomFilter :=
  match f.hashCache.get? item with
  | some positions => (positions, { f with hashCache := f.hashCache.moveToEnd item })
  | none =>
    let cache := f.hashCache.insert item (f.positions h item)
    (f.positions h item,
      { f with hashCache := if maxHashCacheSize < cache.size then cache.popFirst else cache })

/-- `add`; lines 174-184. -/
def add (item : String) (f : BloomFilter) : BloomFilter :=
  let (positions, f) := f.getHashPositions h item
  { f with
    byteArray := positions.foldl setBit f.byteArray
    elementCount := f.elementCount + 1 }

/-- `__contains__`; lines 186-197. -/
def contains (item : String) (f : BloomFilter) : Bool × BloomFilter :=
  let (positions, f) := f.getHashPositions h item
  (positions.all (getBit f.byteArray), f)

/-- The dictionary of a filter. -/
def saved (f : BloomFilter) : Saved where
  size := f.size
  hashCount := f.hashCount
  maxElements := f.maxElements
  errorRate := f.errorRate
  elementCount := f.elementCount
  byteArray := f.byteArray.map UInt8.toNat

/-- `save`; lines 216-227. -/
def save (json : Json) (f : BloomFilter) : Except PyError String := json.dumps f.saved

/-- `bytearray` of numbers. -/
def bytearray (numbers : List Nat) : Except PyError Bytes :=
  if ∀ n ∈ numbers, n < 256 then .ok (numbers.map UInt8.ofNat)
  else .error ⟨.valueError, "byte must be in range(0, 256)"⟩

/-- `load`; lines 229-239. -/
def load (json : Json) (text : String) : Except PyError BloomFilter := do
  let data ← json.loads text
  let byteArray ← bytearray data.byteArray
  return { new h data.maxElements data.errorRate with
    size := data.size
    hashCount := data.hashCount
    elementCount := data.elementCount
    byteArray := byteArray }

end BloomFilter

/-! ### The memory-mapped filter -/

/-- Whether the file and its directory, or the map of it, cannot be made. -/
inductive OpenFault where
  | none
  | file
  | map
  deriving DecidableEq

/-- `MmapBloomFilter`, with what the map of its file holds. -/
structure MmapBloomFilter extends BloomFilter where
  mmapObj : Option Bytes := none

namespace MmapBloomFilter

variable (h : Hashing)

/-- `__init__` and the file after it; lines 825-868. `bytearray(self._mmap_obj)` is a copy. -/
def init (capacity : Int) (fpRate : ℚ) (fault : OpenFault) (file : Option Bytes) :
    MmapBloomFilter × Option Bytes :=
  let f := BloomFilter.new h capacity fpRate
  let byteSize := BloomFilter.byteSize f.size
  if fault = .file then ({ f with }, file)
  else
    let content := file.getD (List.replicate byteSize 0)
    if fault = .map ∨ content.length < byteSize then ({ f with }, some content)
    else
      ({ f with byteArray := content.take byteSize, mmapObj := some (content.take byteSize) }, some content)

/-- `add`, on the copy. -/
def add (item : String) (m : MmapBloomFilter) : MmapBloomFilter :=
  { m with toBloomFilter := m.toBloomFilter.add h item }

/-- `__contains__`. -/
def contains (item : String) (m : MmapBloomFilter) : Bool × MmapBloomFilter :=
  let (answer, f) := m.toBloomFilter.contains h item
  (answer, { m with toBloomFilter := f })

/-- The file after `msync`; lines 875-878. -/
def msync (m : MmapBloomFilter) (file : Option Bytes) : Option Bytes :=
  match m.mmapObj with
  | some mapped => file.map fun content => mapped ++ content.drop mapped.length
  | none => file

end MmapBloomFilter

/-! ### Runs -/

/-- A call on a filter. -/
inductive BloomCall where
  | add (item : String)
  | contains (item : String)
  deriving DecidableEq

/-- The items that some calls add. -/
def addedItems (calls : List BloomCall) : List String :=
  calls.filterMap fun
    | .add item => some item
    | .contains _ => none

namespace BloomFilter

variable (h : Hashing)

/-- The filter after a call. -/
def step (f : BloomFilter) : BloomCall → BloomFilter
  | .add item => f.add h item
  | .contains item => (f.contains h item).2

/-- The filter after some calls. -/
def run (f : BloomFilter) (calls : List BloomCall) : BloomFilter := calls.foldl (step h) f

end BloomFilter

/-- The memory-mapped filter after a call. -/
def MmapBloomFilter.step (h : Hashing) (m : MmapBloomFilter) : BloomCall → MmapBloomFilter
  | .add item => m.add h item
  | .contains item => (m.contains h item).2

/-- A filter opened on a path, used and synced, and one that is opened on the path afterwards. -/
def reopened (h : Hashing) (capacity : Int) (fpRate : ℚ) (fault fault' : OpenFault) (file : Option Bytes)
    (calls : List BloomCall) : MmapBloomFilter :=
  let (m, file) := MmapBloomFilter.init h capacity fpRate fault file
  let m := calls.foldl (MmapBloomFilter.step h) m
  (MmapBloomFilter.init h capacity fpRate fault' (m.msync file)).1

/-! ### What a filter knows -/

/-- A filter has bits and hashes, its bytes hold its bits, and its cache is right. -/
structure Valid (h : Hashing) (f : BloomFilter) : Prop where
  size_pos : 0 < f.size
  hashCount_pos : 0 < f.hashCount
  size_le : f.size ≤ 8 * f.byteArray.length
  cached : ∀ item positions, f.hashCache.get? item = some positions → positions = f.positions h item

section Spec

variable {h : Hashing} {f : BloomFilter} {item : String}

/-- The shape of a valid filter. -/
def Valid.shape (hf : Valid h f) : BloomShape String :=
  FilterSize.shape ⟨f.size, f.hashCount, hf.size_pos, hf.hashCount_pos⟩ h.xxh64

theorem valid_new {capacity : Int} {rate : ℚ} (hsize : 0 < h.calculateSize capacity rate) :
    Valid h (BloomFilter.new h capacity rate) where
  size_pos := hsize
  hashCount_pos := by
    show 0 < (max 1 _ : Int).toNat
    omega
  size_le := by
    show _ ≤ 8 * (List.replicate _ _).length
    rw [List.length_replicate, BloomFilter.byteSize]
    show h.calculateSize capacity rate ≤ _
    omega
  cached := fun _ _ hget => by cases hget

theorem Valid.lt_length (hf : Valid h f) {p : Nat} (hp : p ∈ f.positions h item) :
    p < 8 * f.byteArray.length := by
  obtain ⟨i, -, rfl⟩ := List.mem_map.1 hp
  exact Nat.lt_of_lt_of_le (Nat.mod_lt _ hf.size_pos) hf.size_le

theorem Valid.getHashPositions (hf : Valid h f) (item : String) :
    ∃ cache, f.getHashPositions h item = (f.positions h item, { f with hashCache := cache }) ∧
      Valid h { f with hashCache := cache } := by
  rw [BloomFilter.getHashPositions]
  cases hget : f.hashCache.get? item with
  | some positions =>
    refine ⟨f.hashCache.moveToEnd item, ?_, hf.size_pos, hf.hashCount_pos, hf.size_le, ?_⟩
    · rw [hf.cached item positions hget]
    · intro other positions' hother
      rw [Dict.get?_moveToEnd] at hother
      exact hf.cached other positions' hother
  | none =>
    refine ⟨_, rfl, hf.size_pos, hf.hashCount_pos, hf.size_le, ?_⟩
    intro other positions hother
    have hinsert : (f.hashCache.insert item (f.positions h item)).get? other = some positions := by
      by_cases hfull : maxHashCacheSize < (f.hashCache.insert item (f.positions h item)).size
      · simp only [if_pos hfull] at hother
        exact Dict.get?_of_popFirst hother
      · simp only [if_neg hfull] at hother
        exact hother
    rw [Dict.get?_insert] at hinsert
    by_cases heq : item = other
    · rw [if_pos heq] at hinsert
      rw [← heq]
      exact (Option.some.inj hinsert).symm
    · rw [if_neg heq] at hinsert
      exact hf.cached other positions hinsert

theorem Valid.contains (hf : Valid h f) (item : String) :
    (f.contains h item).1 = hf.shape.mem (bits f.byteArray) item := by
  obtain ⟨cache, hget, -⟩ := hf.getHashPositions item
  rw [BloomFilter.contains, hget]
  simp only [BloomShape.mem, mem_bits, Bool.decide_eq_true]
  rfl

theorem Valid.add (hf : Valid h f) (item : String) :
    Valid h (f.add h item) ∧ (f.add h item).size = f.size ∧ (f.add h item).hashCount = f.hashCount ∧
      bits (f.add h item).byteArray = hf.shape.put (bits f.byteArray) item := by
  obtain ⟨cache, hget, hcache⟩ := hf.getHashPositions item
  rw [BloomFilter.add, hget]
  refine ⟨⟨hf.size_pos, hf.hashCount_pos, ?_, hcache.cached⟩, rfl, rfl, ?_⟩
  · rw [length_foldl_setBit]
    exact hf.size_le
  · exact bits_foldl_setBit fun p hp => hf.lt_length hp

theorem Valid.asked (hf : Valid h f) (item : String) :
    Valid h (f.contains h item).2 ∧ (f.contains h item).2.size = f.size ∧
      (f.contains h item).2.hashCount = f.hashCount ∧ (f.contains h item).2.byteArray = f.byteArray := by
  obtain ⟨cache, hget, hcache⟩ := hf.getHashPositions item
  rw [BloomFilter.contains, hget]
  exact ⟨hcache, rfl, rfl, rfl⟩

theorem Valid.step (hf : Valid h f) (call : BloomCall) :
    Valid h (f.step h call) ∧ (f.step h call).size = f.size ∧ (f.step h call).hashCount = f.hashCount ∧
      bits f.byteArray ⊆ bits (f.step h call).byteArray := by
  cases call with
  | add item =>
    obtain ⟨hvalid, hsize, hcount, hbits⟩ := hf.add item
    refine ⟨hvalid, hsize, hcount, ?_⟩
    show _ ⊆ bits (f.add h item).byteArray
    rw [hbits]
    exact Finset.subset_union_left
  | contains item =>
    obtain ⟨hvalid, hsize, hcount, hbytes⟩ := hf.asked item
    refine ⟨hvalid, hsize, hcount, ?_⟩
    show _ ⊆ bits (f.contains h item).2.byteArray
    rw [hbytes]

theorem Valid.run (hf : Valid h f) (calls : List BloomCall) :
    Valid h (f.run h calls) ∧ (f.run h calls).size = f.size ∧ (f.run h calls).hashCount = f.hashCount ∧
      bits f.byteArray ⊆ bits (f.run h calls).byteArray ∧
      ∀ item ∈ addedItems calls, (f.positions h item).toFinset ⊆ bits (f.run h calls).byteArray := by
  induction calls generalizing f with
  | nil => exact ⟨hf, rfl, rfl, Finset.Subset.refl _, fun _ hitem => absurd hitem List.not_mem_nil⟩
  | cons call rest ih =>
    obtain ⟨hvalid, hsize, hcount, hbits⟩ := hf.step call
    obtain ⟨hrun, hrunSize, hrunCount, hkept, hadded⟩ := ih hvalid
    have hpositions : ∀ item, (f.step h call).positions h item = f.positions h item := by
      intro item
      rw [BloomFilter.positions, BloomFilter.positions, hsize, hcount]
    refine ⟨hrun, hrunSize.trans hsize, hrunCount.trans hcount, hbits.trans hkept, ?_⟩
    intro item hitem
    cases call with
    | contains other => exact hpositions item ▸ hadded item hitem
    | add other =>
      cases List.mem_cons.1 hitem with
      | inr hrest => exact hpositions item ▸ hadded item hrest
      | inl heq =>
        rw [heq]
        refine Finset.Subset.trans ?_ hkept
        show _ ⊆ bits (f.add h other).byteArray
        rw [(hf.add other).2.2.2]
        exact Finset.subset_union_right

theorem Valid.contains_of_mem (hf : Valid h f) {calls : List BloomCall} (hitem : item ∈ addedItems calls) :
    ((f.run h calls).contains h item).1 = true := by
  obtain ⟨hrun, hsize, hcount, -, hadded⟩ := hf.run calls
  rw [hrun.contains, BloomShape.mem_iff]
  intro p hp
  apply hadded item hitem
  rw [List.mem_toFinset, BloomFilter.positions, ← hsize, ← hcount]
  exact hp

end Spec

/-! ### Saving and loading -/

section Load

variable {h : Hashing} {f : BloomFilter} {json : Json} {text : String}

theorem bytearray_map_toNat (bytes : Bytes) : BloomFilter.bytearray (bytes.map UInt8.toNat) = .ok bytes := by
  have hsmall : ∀ n ∈ bytes.map UInt8.toNat, n < 256 := by
    intro n hn
    obtain ⟨b, -, rfl⟩ := List.mem_map.1 hn
    exact b.toNat_lt
  have hback : UInt8.ofNat ∘ UInt8.toNat = id := funext fun b => UInt8.ofNat_toNat
  rw [BloomFilter.bytearray, if_pos hsmall, List.map_map, hback, List.map_id]

theorem load_of_loads (hloads : json.loads text = .ok f.saved) :
    BloomFilter.load h json text = .ok { f with hashCache := .empty } := by
  rw [BloomFilter.load, hloads]
  show (do let byteArray ← BloomFilter.bytearray (f.byteArray.map UInt8.toNat); _) = _
  rw [bytearray_map_toNat]
  rfl

theorem Valid.contains_emptyCache (hf : Valid h f) (item : String) :
    (BloomFilter.contains h item { f with hashCache := .empty }).1 = (f.contains h item).1 := by
  have hempty : Valid h { f with hashCache := .empty } :=
    ⟨hf.size_pos, hf.hashCount_pos, hf.size_le, fun _ _ hget => by cases hget⟩
  rw [hempty.contains, hf.contains]
  rfl

end Load

/-! ### Opening the file again -/

section Mmap

variable {h : Hashing} {capacity : Int} {rate : ℚ} {fault fault' : OpenFault} {file : Option Bytes}
  {calls : List BloomCall} {item : String}

theorem byteArray_new :
    (BloomFilter.new h capacity rate).byteArray =
      List.replicate (BloomFilter.byteSize (BloomFilter.new h capacity rate).size) 0 := rfl

theorem toBloomFilter_init :
    (MmapBloomFilter.init h capacity rate fault file).1.toBloomFilter =
      { BloomFilter.new h capacity rate with
        byteArray := match file with
          | some content =>
            if fault = .none ∧ BloomFilter.byteSize (BloomFilter.new h capacity rate).size ≤ content.length then
              content.take (BloomFilter.byteSize (BloomFilter.new h capacity rate).size)
            else (BloomFilter.new h capacity rate).byteArray
          | none => (BloomFilter.new h capacity rate).byteArray } := by
  rw [MmapBloomFilter.init]
  cases fault with
  | file => cases file <;> rfl
  | map => cases file <;> rfl
  | none =>
    cases file with
    | none =>
      simp only [reduceCtorEq, if_false, false_or, Option.getD_none, List.length_replicate, lt_irrefl,
        List.take_replicate, min_self, byteArray_new]
    | some content =>
      by_cases hlen : content.length < BloomFilter.byteSize (BloomFilter.new h capacity rate).size
      · simp [hlen, Nat.not_le.2 hlen]
      · simp [hlen, Nat.not_lt.1 hlen]

theorem mapped_append_drop {mapped : Bytes}
    (hmapped : (MmapBloomFilter.init h capacity rate fault file).1.mmapObj = some mapped) :
    (MmapBloomFilter.init h capacity rate fault file).2.map (fun content => mapped ++ content.drop mapped.length) =
      (MmapBloomFilter.init h capacity rate fault file).2 := by
  rw [MmapBloomFilter.init] at hmapped ⊢
  by_cases hfile : fault = .file
  · rw [if_pos hfile] at hmapped
    cases hmapped
  · rw [if_neg hfile] at hmapped ⊢
    dsimp only at hmapped ⊢
    split at hmapped
    · cases hmapped
    · rename_i hopen
      rw [if_neg hopen, ← Option.some.inj hmapped, List.length_take, Nat.min_eq_left (by omega)]
      exact congrArg some (List.take_append_drop _ _)

theorem mmapObj_foldl (m : MmapBloomFilter) (calls : List BloomCall) :
    (calls.foldl (MmapBloomFilter.step h) m).mmapObj = m.mmapObj := by
  induction calls generalizing m with
  | nil => rfl
  | cons call rest ih =>
    rw [List.foldl_cons, ih]
    cases call with
    | add item => rfl
    | contains item => rfl

theorem msync_foldl_init :
    (calls.foldl (MmapBloomFilter.step h) (MmapBloomFilter.init h capacity rate fault file).1).msync
        (MmapBloomFilter.init h capacity rate fault file).2 =
      (MmapBloomFilter.init h capacity rate fault file).2 := by
  rw [MmapBloomFilter.msync, mmapObj_foldl]
  cases hmapped : (MmapBloomFilter.init h capacity rate fault file).1.mmapObj with
  | none => rfl
  | some mapped => exact mapped_append_drop hmapped

theorem reopened_eq :
    reopened h capacity rate fault fault' file calls =
      (MmapBloomFilter.init h capacity rate fault' (MmapBloomFilter.init h capacity rate fault file).2).1 := by
  rw [reopened]
  dsimp only
  rw [msync_foldl_init]

/-- The file already had the bits of an item, and can be opened again. -/
def Held (h : Hashing) (capacity : Int) (rate : ℚ) (fault' : OpenFault) (file : Option Bytes) (item : String) : Prop :=
  ∃ content, file = some content ∧ fault' = .none ∧
    BloomFilter.byteSize (BloomFilter.new h capacity rate).size ≤ content.length ∧
    ∀ p ∈ (BloomFilter.new h capacity rate).positions h item, getBit content p = true

theorem contains_of_byteArray_new (hsize : 0 < h.calculateSize capacity rate) (item : String) :
    ((BloomFilter.new h capacity rate).contains h item).1 = false := by
  rw [(valid_new hsize).contains, byteArray_new, bits_replicate]
  exact BloomShape.mem_empty

theorem contains_init (hsize : 0 < h.calculateSize capacity rate) (item : String) :
    ((MmapBloomFilter.init h capacity rate fault' file).1.contains h item).1 = true ↔
      Held h capacity rate fault' file item := by
  show (BloomFilter.contains h item (MmapBloomFilter.init h capacity rate fault' file).1.toBloomFilter).1 = true ↔ _
  rw [toBloomFilter_init]
  have hnone : ((BloomFilter.new h capacity rate).contains h item).1 ≠ true := by
    rw [contains_of_byteArray_new hsize]
    exact Bool.false_ne_true
  cases file with
  | none =>
    constructor
    · exact fun hfound => absurd hfound hnone
    · intro ⟨_, hfile, _⟩
      cases hfile
  | some content =>
    by_cases hopen : fault' = .none ∧ BloomFilter.byteSize (BloomFilter.new h capacity rate).size ≤ content.length
    · simp only [if_pos hopen]
      have hvalid : Valid h { BloomFilter.new h capacity rate with
          byteArray := content.take (BloomFilter.byteSize (BloomFilter.new h capacity rate).size) } := by
        refine ⟨(valid_new hsize).size_pos, (valid_new hsize).hashCount_pos, ?_, (valid_new hsize).cached⟩
        have hlen := (valid_new hsize).size_le
        rw [byteArray_new, List.length_replicate] at hlen
        show (BloomFilter.new h capacity rate).size ≤ 8 * (content.take _).length
        rw [List.length_take, Nat.min_eq_left hopen.2]
        exact hlen
      rw [hvalid.contains, BloomShape.mem_iff]
      have hbit : ∀ p ∈ (BloomFilter.new h capacity rate).positions h item,
          (p ∈ bits (content.take (BloomFilter.byteSize (BloomFilter.new h capacity rate).size)) ↔
            getBit content p = true) := by
        intro p hp
        have hlt := (valid_new hsize).lt_length hp
        rw [byteArray_new, List.length_replicate] at hlt
        rw [mem_bits, getBit_take hlt]
      constructor
      · intro hfound
        exact ⟨content, rfl, hopen.1, hopen.2, fun p hp => (hbit p hp).1 (hfound p hp)⟩
      · intro ⟨_, hfile, _, _, hheld⟩ p hp
        cases hfile
        exact (hbit p hp).2 (hheld p hp)
    · simp only [if_neg hopen]
      constructor
      · exact fun hfound => absurd hfound hnone
      · intro ⟨_, hfile, hfault, hlen, _⟩
        cases hfile
        exact absurd ⟨hfault, hlen⟩ hopen

theorem not_held_replicate (hsize : 0 < h.calculateSize capacity rate) (n : Nat) :
    ¬ Held h capacity rate fault' (some (List.replicate n 0)) item := by
  intro ⟨content, hfile, _, _, hheld⟩
  obtain ⟨p, rest, hpositions⟩ := List.exists_cons_of_ne_nil ((valid_new hsize).shape.positions_ne_nil item)
  have hp : getBit (List.replicate n 0) p = true := by
    rw [Option.some.inj hfile]
    apply hheld
    show p ∈ (valid_new hsize).shape.positions item
    rw [hpositions]
    exact List.mem_cons_self
  rw [← mem_bits, bits_replicate] at hp
  exact Finset.notMem_empty p hp

theorem contains_reopened (hsize : 0 < h.calculateSize capacity rate) (item : String) :
    ((reopened h capacity rate fault fault' file calls).contains h item).1 = true ↔
      Held h capacity rate fault' file item := by
  rw [reopened_eq, contains_init hsize, MmapBloomFilter.init]
  by_cases hfile : fault = .file
  · rw [if_pos hfile]
  · rw [if_neg hfile]
    dsimp only
    have hcontent : Held h capacity rate fault'
        (some (file.getD (List.replicate (BloomFilter.byteSize (BloomFilter.new h capacity rate).size) 0))) item ↔
        Held h capacity rate fault' file item := by
      cases file with
      | some content => rfl
      | none => exact iff_of_false (not_held_replicate hsize _) (fun ⟨_, hnone, _⟩ => by cases hnone)
    split
    · exact hcontent
    · exact hcontent

end Mmap

/-- The sizes for one element at one percent, and a hash that adds its seed to the length. -/
def nineBits : Hashing where
  calculateSize _ _ := 9
  ratio _ _ := 6
  xxh64 seed item := seed + item.length

/-- The text of the filter with one item of one character, and the dictionary that it stands for. -/
def oneItem : Json where
  dumps _ := .ok
    "\x7b\"size\":9,\"hash_count\":6,\"max_elements\":1,\"error_rate\":0.01,\"element_count\":1,\"byte_array\":[126,0]\x7d"
  loads _ := .ok ⟨9, 6, 1, 1 / 100, 1, [126, 0]⟩

theorem loads_oneItem (text : String) :
    oneItem.loads text = .ok ((BloomFilter.new nineBits 1 (1 / 100)).run nineBits [.add "a"]).saved := by
  have hsaved : ((BloomFilter.new nineBits 1 (1 / 100)).run nineBits [.add "a"]).saved =
      ⟨9, 6, 1, 1 / 100, 1, [126, 0]⟩ := by decide +kernel
  rw [hsaved]
  rfl

end Hledac.Utils.Persistent
