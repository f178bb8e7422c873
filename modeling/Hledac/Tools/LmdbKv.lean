import Mathlib.Data.Finset.Card
import Hledac.Lib.Chunks
import Hledac.Lib.Dict
import Hledac.Lib.Machine
import Hledac.Lib.Partial

/-!
# A key-value store of bounded size

`LMDBKVStore` of `tools/lmdb_kv.py`: `put`, `put_many` and `delete` on one LMDB environment. The bound is looked at
before a write, by the number of the entries that are there and the number of pairs that come, and the fallback of a
batch does not look at it.
-/

namespace Hledac.Tools

open Hledac.Lib

universe u

variable {K V B : Type u}

/-- What the store makes of keys and values: which keys encode and have a length that LMDB takes, and the bytes of a
value, where it has any. -/
structure Codec (K V B : Type u) where
  keyOk : K → Bool
  encode : V → Option B
  decode : B → Option V

/-- Where a transaction goes wrong by itself: when it begins, or when it puts or is committed. -/
inductive TxnFault where
  | begin
  | write
  deriving DecidableEq, Repr

/-- What becomes of a write: it is there, the bound refuses it, or its transactions raise. -/
inductive WriteOutcome where
  | written
  | refused
  | failed
  deriving DecidableEq, Repr

/-- A batch of `put_many`, with what goes wrong in its two transactions. -/
structure Attempt (K V : Type u) where
  first : Option TxnFault := none
  fallback : Option TxnFault := none
  batch : List (K × V)

/-- A call. -/
inductive KvOp (K V : Type u) where
  | put (fault : Option TxnFault) (key : K) (value : V)
  | putMany (faults : Nat → Option TxnFault × Option TxnFault) (items : List (K × V))
  | delete (fault : Option TxnFault) (key : K)

namespace LmdbKv

/-- `LMDB_WRITE_BATCH_SIZE`; line 50. -/
def writeBatchSize : Nat := 2500

section Model

variable [DecidableEq K] (c : Codec K V B) (maxKeys : Nat)

/-- `_encode_pair`, and that LMDB takes the key; lines 188-189. -/
def encodePair (p : K × V) : Option (K × B) := if c.keyOk p.1 then (c.encode p.2).map (p.1, ·) else none

/-- A transaction that puts the pairs, `none` where it raises; lines 203-206, 211-214. -/
def write (fault : Option TxnFault) (pairs : List (K × V)) (s : Dict K B) : Option (Dict K B) :=
  if fault.isSome then none else (pairs.mapM (encodePair c)).map s.insertAll

/-- `get`; lines 133-150. -/
def get (s : Dict K B) (key : K) : Option V := if c.keyOk key then (s.get? key).bind c.decode else none

/-- `put`; lines 152-173. -/
def put (fault : Option TxnFault) (key : K) (value : V) (s : Dict K B) : WriteOutcome × Dict K B :=
  if fault = some .begin then (.failed, s)
  else if maxKeys ≤ s.size then (.refused, s)
  else
    match write c fault [(key, value)] s with
    | some s' => (.written, s')
    | none => (.failed, s)

/-- One batch of `put_many`; lines 192-221. -/
def putAttempt (a : Attempt K V) (s : Dict K B) : WriteOutcome × Dict K B :=
  let fallback :=
    match write c a.fallback a.batch s with
    | some s' => (.written, s')
    | none => (.failed, s)
  if a.first = some .begin then fallback
  else if maxKeys < s.size + a.batch.length then (.refused, s)
  else
    match write c a.first a.batch s with
    | some s' => (.written, s')
    | none => fallback

/-- The batches one after the other. -/
def putAttempts : List (Attempt K V) → Dict K B → List WriteOutcome × Dict K B
  | [], s => ([], s)
  | a :: rest, s =>
    let r := putAttempt c maxKeys a s
    let others := putAttempts rest r.2
    (List.replicate a.batch.length r.1 ++ others.1, others.2)

/-- The batches of `put_many`, with what goes wrong in them. -/
def attempts (faults : Nat → Option TxnFault × Option TxnFault) (items : List (K × V)) : List (Attempt K V) :=
  (chunks writeBatchSize items).zipIdx.map fun p => ⟨(faults p.2).1, (faults p.2).2, p.1⟩

/-- `put_many`, which answers with what is `written`; lines 175-228. -/
def putMany (faults : Nat → Option TxnFault × Option TxnFault) (items : List (K × V)) (s : Dict K B) :
    List WriteOutcome × Dict K B :=
  putAttempts c maxKeys (attempts faults items) s

/-- `delete`; lines 230-245. -/
def delete (fault : Option TxnFault) (key : K) (s : Dict K B) : Bool × Dict K B :=
  if fault.isSome || !c.keyOk key then (false, s) else ((s.get? key).isSome, s.erase key)

def step (s : Dict K B) : KvOp K V → Dict K B
  | .put fault key value => (put c maxKeys fault key value s).2
  | .putMany faults items => (putMany c maxKeys faults items s).2
  | .delete fault key => (delete c fault key s).2

end Model

/-! ### What should hold -/

section Spec

variable [DecidableEq K] (c : Codec K V B) (maxKeys : Nat)

/-- Every batch that is refused has new keys only, and comes when there is no room for one. -/
def RefusesRightly : List (Attempt K V) → Dict K B → Prop
  | [], _ => True
  | a :: rest, s =>
    ((putAttempt c maxKeys a s).1 = .refused → ∀ p ∈ a.batch, p.1 ∉ s.keys ∧ maxKeys ≤ s.size) ∧
      RefusesRightly rest (putAttempt c maxKeys a s).2

/-- What a call should do: the bound holds after it, only a new key is refused and only when there is no room for it,
and what is reported as written is what can be read, in the value of the pair or of a later one of its key. -/
structure Disciplined (s : Dict K B) (op : KvOp K V) : Prop where
  bound : (step c maxKeys s op).size ≤ maxKeys
  put_refused : ∀ fault key value, op = .put fault key value → (put c maxKeys fault key value s).1 = .refused →
    key ∉ s.keys ∧ maxKeys ≤ s.size
  putMany_refused : ∀ faults items, op = .putMany faults items → RefusesRightly c maxKeys (attempts faults items) s
  putMany_reports : ∀ faults items, op = .putMany faults items →
    (putMany c maxKeys faults items s).1.length = items.length ∧
      ∀ before p after, items = before ++ p :: after →
        ((putMany c maxKeys faults items s).1[before.length]? = some .written ↔
          ∃ q ∈ p :: after, q.1 = p.1 ∧ get c (step c maxKeys s op) p.1 = some q.2)

/-- The transaction raises. -/
def Raises (fault : Option TxnFault) (pairs : List (K × V)) : Prop :=
  fault.isSome = true ∨ pairs.mapM (encodePair c) = none

/-- What a batch must be like: where the bound is looked at, the batch fits as it is or has new keys only and there is
no room at all; where it is not, the keys of the store and of the batch are not too many together; and where both
transactions raise, none of its pairs is stored already, and none of its keys comes again later. -/
structure BatchMeets (s : Dict K B) (a : Attempt K V) (later : List (K × V)) : Prop where
  checked : a.first ≠ some .begin →
    s.size + a.batch.length ≤ maxKeys ∨ maxKeys ≤ s.size ∧ ∀ p ∈ a.batch, p.1 ∉ s.keys
  unchecked : a.first = some .begin → ¬ Raises c a.fallback a.batch →
    (s.keys ++ a.batch.map Prod.fst).toFinset.card ≤ maxKeys
  failing : (a.first = some .begin ∨ s.size + a.batch.length ≤ maxKeys) → Raises c a.first a.batch →
    Raises c a.fallback a.batch → ∀ before p after, a.batch = before ++ p :: after →
      (∀ q ∈ later, q.1 ≠ p.1) ∧ ∀ q ∈ p :: after, q.1 = p.1 → get c s p.1 ≠ some q.2

/-- Every batch meets it in the store that the batches before it leave. -/
def BatchesMeet : List (Attempt K V) → Dict K B → Prop
  | [], _ => True
  | a :: rest, s =>
    BatchMeets c maxKeys s a (rest.flatMap Attempt.batch) ∧ BatchesMeet rest (putAttempt c maxKeys a s).2

/-- What a call must be like: `put` finds room or has a new key, and every batch of `put_many` is as it must be. -/
def Meets (s : Dict K B) : KvOp K V → Prop
  | .put fault key _ => fault = some .begin ∨ s.size < maxKeys ∨ key ∉ s.keys
  | .putMany faults items => BatchesMeet c maxKeys (attempts faults items) s
  | .delete _ _ => True

end Spec

/-! ### Transactions -/

section Writes

variable [DecidableEq K] {c : Codec K V B} {maxKeys : Nat} {fault : Option TxnFault} {pairs : List (K × V)}
  {encoded : List (K × B)} {s s' : Dict K B}

omit [DecidableEq K] in
theorem encodePair_eq_some_iff {p : K × V} {e : K × B} :
    encodePair c p = some e ↔ c.keyOk p.1 = true ∧ e.1 = p.1 ∧ c.encode p.2 = some e.2 := by
  rw [encodePair]
  split
  · next hkey =>
    rw [Option.map_eq_some_iff]
    constructor
    · rintro ⟨b, hb, rfl⟩
      exact ⟨hkey, rfl, hb⟩
    · rintro ⟨-, hfst, hb⟩
      exact ⟨e.2, hb, Prod.ext hfst.symm rfl⟩
  · next hkey => exact ⟨nofun, fun h => absurd h.1 hkey⟩

theorem write_eq_some_iff : write c fault pairs s = some s' ↔
    fault.isSome = false ∧ ∃ encoded, pairs.mapM (encodePair c) = some encoded ∧ s' = s.insertAll encoded := by
  rw [write]
  cases hfault : fault.isSome with
  | true => exact iff_of_false nofun nofun
  | false =>
    rw [if_neg Bool.false_ne_true, Option.map_eq_some_iff]
    constructor
    · rintro ⟨encoded, henc, rfl⟩
      exact ⟨rfl, encoded, henc, rfl⟩
    · rintro ⟨-, encoded, henc, rfl⟩
      exact ⟨encoded, henc, rfl⟩

theorem write_eq_none_iff : write c fault pairs s = none ↔ Raises c fault pairs := by
  rw [write, Raises]
  cases fault.isSome with
  | true => simp
  | false => simp

omit [DecidableEq K] in
theorem keys_encoded (h : pairs.mapM (encodePair c) = some encoded) :
    encoded.map Prod.fst = pairs.map Prod.fst := by
  rw [mapM_eq_some_iff] at h
  induction h with
  | nil => rfl
  | cons hab _ ih => rw [List.map_cons, List.map_cons, ih, (encodePair_eq_some_iff.1 hab).2.1]

theorem card_keys (s : Dict K B) : s.keys.toFinset.card = s.size := by
  rw [List.toFinset_card_of_nodup s.nodup, Dict.length_keys]

theorem size_insertAll (h : pairs.mapM (encodePair c) = some encoded) :
    (s.insertAll encoded).size = (s.keys ++ pairs.map Prod.fst).toFinset.card := by
  rw [← card_keys]
  congr 1
  ext k
  rw [List.mem_toFinset, Dict.mem_keys_insertAll, keys_encoded h, List.mem_toFinset, List.mem_append]

theorem size_insertAll_le (h : pairs.mapM (encodePair c) = some encoded) :
    (s.insertAll encoded).size ≤ s.size + pairs.length := by
  have hlength : (pairs.map Prod.fst).length = pairs.length := List.length_map _
  rw [size_insertAll h, ← Dict.length_keys, ← hlength, ← List.length_append]
  exact List.toFinset_card_le _

theorem putAttempt_cases (c : Codec K V B) (maxKeys : Nat) (a : Attempt K V) (s : Dict K B) :
    (∃ encoded, a.batch.mapM (encodePair c) = some encoded ∧
      putAttempt c maxKeys a s = (.written, s.insertAll encoded) ∧
      (a.first = some .begin ∧ ¬ Raises c a.fallback a.batch ∨
        a.first ≠ some .begin ∧ s.size + a.batch.length ≤ maxKeys)) ∨
    (putAttempt c maxKeys a s = (.refused, s) ∧ a.first ≠ some .begin ∧ maxKeys < s.size + a.batch.length) ∨
    (putAttempt c maxKeys a s = (.failed, s) ∧ (a.first = some .begin ∨ s.size + a.batch.length ≤ maxKeys) ∧
      Raises c a.first a.batch ∧ Raises c a.fallback a.batch) := by
  rw [putAttempt]
  by_cases hbegin : a.first = some .begin
  · have hraises : Raises c a.first a.batch := .inl (by rw [hbegin]; rfl)
    rw [if_pos hbegin]
    cases hfallback : write c a.fallback a.batch s with
    | some s' =>
      obtain ⟨-, encoded, henc, rfl⟩ := write_eq_some_iff.1 hfallback
      have hok : ¬ Raises c a.fallback a.batch := by
        rw [← write_eq_none_iff (s := s), hfallback]
        exact nofun
      exact .inl ⟨encoded, henc, rfl, .inl ⟨hbegin, hok⟩⟩
    | none => exact .inr (.inr ⟨rfl, .inl hbegin, hraises, write_eq_none_iff.1 hfallback⟩)
  · rw [if_neg hbegin]
    by_cases hfull : maxKeys < s.size + a.batch.length
    · rw [if_pos hfull]
      exact .inr (.inl ⟨rfl, hbegin, hfull⟩)
    · rw [if_neg hfull]
      have hroom := Nat.le_of_not_lt hfull
      cases hfirst : write c a.first a.batch s with
      | some s' =>
        obtain ⟨-, encoded, henc, rfl⟩ := write_eq_some_iff.1 hfirst
        exact .inl ⟨encoded, henc, rfl, .inr ⟨hbegin, hroom⟩⟩
      | none =>
        cases hfallback : write c a.fallback a.batch s with
        | some s' =>
          obtain ⟨-, encoded, henc, rfl⟩ := write_eq_some_iff.1 hfallback
          exact .inl ⟨encoded, henc, rfl, .inr ⟨hbegin, hroom⟩⟩
        | none =>
          exact .inr (.inr ⟨rfl, .inr hroom, write_eq_none_iff.1 hfirst, write_eq_none_iff.1 hfallback⟩)

end Writes

/-! ### Batches -/

section Batches

variable [DecidableEq K] {c : Codec K V B} {maxKeys : Nat} {a : Attempt K V} {as : List (Attempt K V)}
  {later : List (K × V)} {s : Dict K B} {k : K}

theorem mem_keys_putAttempt (h : k ∈ s.keys) : k ∈ (putAttempt c maxKeys a s).2.keys := by
  rcases putAttempt_cases c maxKeys a s with ⟨encoded, -, hput, -⟩ | ⟨hput, -⟩ | ⟨hput, -⟩
  · rw [hput]
    exact Dict.mem_keys_insertAll.2 (.inl h)
  · rw [hput]
    exact h
  · rw [hput]
    exact h

theorem mem_keys_putAttempts (h : k ∈ s.keys) : k ∈ (putAttempts c maxKeys as s).2.keys := by
  induction as generalizing s with
  | nil => exact h
  | cons a rest ih => exact ih (mem_keys_putAttempt h)

theorem size_putAttempt_le (hs : s.size ≤ maxKeys) (h : BatchMeets c maxKeys s a later) :
    (putAttempt c maxKeys a s).2.size ≤ maxKeys := by
  rcases putAttempt_cases c maxKeys a s with ⟨encoded, henc, hput, hroom⟩ | ⟨hput, -⟩ | ⟨hput, -⟩
  · rw [hput]
    rcases hroom with ⟨hbegin, hok⟩ | ⟨-, hroom⟩
    · rw [size_insertAll henc]
      exact h.unchecked hbegin hok
    · exact (size_insertAll_le henc).trans hroom
  · rw [hput]
    exact hs
  · rw [hput]
    exact hs

theorem size_putAttempts_le (hs : s.size ≤ maxKeys) (h : BatchesMeet c maxKeys as s) :
    (putAttempts c maxKeys as s).2.size ≤ maxKeys := by
  induction as generalizing s with
  | nil => exact hs
  | cons a rest ih => exact ih (size_putAttempt_le hs h.1) h.2

theorem refusesRightly_of_batchesMeet (h : BatchesMeet c maxKeys as s) : RefusesRightly c maxKeys as s := by
  induction as generalizing s with
  | nil => trivial
  | cons a rest ih =>
    refine ⟨fun hrefused p hp => ?_, ih h.2⟩
    rcases putAttempt_cases c maxKeys a s with ⟨encoded, -, hput, -⟩ | ⟨-, hbegin, hfull⟩ | ⟨hput, -⟩
    · rw [hput] at hrefused
      cases hrefused
    · rcases h.1.checked hbegin with hroom | ⟨hsize, hnew⟩
      · exact absurd hfull (Nat.not_lt.2 hroom)
      · exact ⟨hnew p hp, hsize⟩
    · rw [hput] at hrefused
      cases hrefused

theorem length_putAttempts (as : List (Attempt K V)) (s : Dict K B) :
    (putAttempts c maxKeys as s).1.length = (as.flatMap Attempt.batch).length := by
  induction as generalizing s with
  | nil => rfl
  | cons a rest ih =>
    rw [putAttempts, List.length_append, List.length_replicate, ih, List.flatMap_cons, List.length_append]

theorem get_eq_none (h : k ∉ s.keys) : get c s k = none := by
  rw [get, Dict.notMem_keys_iff.1 h]
  split <;> rfl

theorem notMem_keys_putAttempts (hs : s.size ≤ maxKeys) (h : BatchesMeet c maxKeys as s) (hfull : maxKeys ≤ s.size)
    (hk : k ∉ s.keys) : k ∉ (putAttempts c maxKeys as s).2.keys := by
  intro hmem
  have hsub : insert k s.keys.toFinset ⊆ (putAttempts c maxKeys as s).2.keys.toFinset := by
    intro j hj
    rw [List.mem_toFinset]
    rcases Finset.mem_insert.1 hj with rfl | hj
    · exact hmem
    · exact mem_keys_putAttempts (List.mem_toFinset.1 hj)
  have hcard := Finset.card_le_card hsub
  rw [Finset.card_insert_of_notMem (by rwa [List.mem_toFinset]), card_keys, card_keys] at hcard
  have hle := size_putAttempts_le hs h
  omega

section Reads

variable (hcodec : ∀ v b, c.encode v = some b → c.decode b = some v)

include hcodec

theorem get_of_encodePair {q : K × V} {e : K × B} (he : encodePair c q = some e) (h : s.get? q.1 = some e.2) :
    get c s q.1 = some q.2 := by
  obtain ⟨hkey, -, henc⟩ := encodePair_eq_some_iff.1 he
  rw [get, if_pos hkey, h]
  exact hcodec _ _ henc

theorem get_putAttempt (maxKeys : Nat) (a : Attempt K V) (s : Dict K B) (k : K) :
    get c (putAttempt c maxKeys a s).2 k = get c s k ∨
      ∃ q ∈ a.batch, q.1 = k ∧ get c (putAttempt c maxKeys a s).2 k = some q.2 := by
  rcases putAttempt_cases c maxKeys a s with ⟨encoded, henc, hput, -⟩ | ⟨hput, -⟩ | ⟨hput, -⟩
  · rw [hput]
    rcases s.get?_insertAll_cases encoded k with hsame | ⟨e, he, rfl, hget⟩
    · left
      rw [get, get, hsame]
    · obtain ⟨q, hq, hqe⟩ := exists_of_mem_mapM henc he
      have hkey := (encodePair_eq_some_iff.1 hqe).2.1
      refine .inr ⟨q, hq, hkey.symm, ?_⟩
      rw [hkey] at hget ⊢
      exact get_of_encodePair hcodec hqe hget
  · rw [hput]
    exact .inl rfl
  · rw [hput]
    exact .inl rfl

theorem get_putAttempts (maxKeys : Nat) (as : List (Attempt K V)) (s : Dict K B) (k : K) :
    get c (putAttempts c maxKeys as s).2 k = get c s k ∨
      ∃ q ∈ as.flatMap Attempt.batch, q.1 = k ∧ get c (putAttempts c maxKeys as s).2 k = some q.2 := by
  induction as generalizing s with
  | nil => exact .inl rfl
  | cons a rest ih =>
    rw [List.flatMap_cons, putAttempts]
    rcases ih (putAttempt c maxKeys a s).2 with hsame | ⟨q, hq, hkey, hget⟩
    · rcases get_putAttempt hcodec maxKeys a s k with hbefore | ⟨q, hq, hkey, hget⟩
      · exact .inl (hsame.trans hbefore)
      · exact .inr ⟨q, List.mem_append_left _ hq, hkey, hsame.trans hget⟩
    · exact .inr ⟨q, List.mem_append_right _ hq, hkey, hget⟩

theorem get_insertAll_of_encoded {before after : List (K × V)} {p : K × V} {encoded : List (K × B)}
    (h : (before ++ p :: after).mapM (encodePair c) = some encoded) (s : Dict K B) :
    ∃ q ∈ p :: after, q.1 = p.1 ∧ get c (s.insertAll encoded) p.1 = some q.2 := by
  obtain ⟨vs, ⟨key, b⟩, ws, -, he, hws, rfl⟩ := mapM_append_cons h
  obtain rfl : key = p.1 := (encodePair_eq_some_iff.1 he).2.1
  have hsplit : s.insertAll (vs ++ (p.1, b) :: ws) = ((s.insertAll vs).insert p.1 b).insertAll ws := by
    rw [Dict.insertAll, List.foldl_append]
    rfl
  rw [hsplit]
  rcases ((s.insertAll vs).insert p.1 b).get?_insertAll_cases ws p.1 with hsame | ⟨w, hw, hwkey, hget⟩
  · refine ⟨p, List.mem_cons_self, rfl, ?_⟩
    rw [Dict.get?_insert_self] at hsame
    exact get_of_encodePair hcodec he hsame
  · obtain ⟨q, hq, hqw⟩ := exists_of_mem_mapM hws hw
    have hqkey : q.1 = p.1 := (encodePair_eq_some_iff.1 hqw).2.1.symm.trans hwkey
    refine ⟨q, List.mem_cons_of_mem _ hq, hqkey, ?_⟩
    rw [← hqkey] at hget ⊢
    exact get_of_encodePair hcodec hqw hget

/-- Where every batch is as it must be, what is written can be read, and nothing else. -/
theorem written_iff (hs : s.size ≤ maxKeys)
    (h : BatchesMeet c maxKeys as s) {before after : List (K × V)} {p : K × V}
    (hitems : as.flatMap Attempt.batch = before ++ p :: after) :
    (putAttempts c maxKeys as s).1[before.length]? = some .written ↔
      ∃ q ∈ p :: after, q.1 = p.1 ∧ get c (putAttempts c maxKeys as s).2 p.1 = some q.2 := by
  induction as generalizing s before with
  | nil => simp at hitems
  | cons a rest ih =>
    have hsize := size_putAttempt_le hs h.1
    have hlater {more : List (K × V)} (heq : rest.flatMap Attempt.batch = more ++ p :: after) :
        (putAttempts c maxKeys (a :: rest) s).1[(a.batch ++ more).length]? = some .written ↔
          ∃ q ∈ p :: after, q.1 = p.1 ∧ get c (putAttempts c maxKeys (a :: rest) s).2 p.1 = some q.2 := by
      rw [putAttempts, List.length_append, List.getElem?_append_right (by simp), List.length_replicate,
        Nat.add_sub_cancel_left]
      exact ih hsize h.2 heq
    rw [List.flatMap_cons] at hitems
    rcases List.append_eq_append_iff.1 hitems with ⟨more, rfl, hrest⟩ | ⟨more, hbatch, hrest⟩
    · exact hlater hrest
    · cases more with
      | nil =>
        rw [List.append_nil] at hbatch
        have hthis := hlater (show rest.flatMap Attempt.batch = [] ++ p :: after from hrest.symm)
        rw [List.append_nil] at hthis
        rwa [← hbatch]
      | cons p' more =>
        obtain ⟨rfl, rfl⟩ := List.cons.inj hrest
        have hlt : before.length < a.batch.length := by
          rw [hbatch, List.length_append, List.length_cons]
          omega
        rw [putAttempts, List.getElem?_append_left (by rwa [List.length_replicate]), List.getElem?_replicate,
          if_pos hlt]
        simp only
        have hfinal := get_putAttempts hcodec maxKeys rest (putAttempt c maxKeys a s).2 p.1
        rcases putAttempt_cases c maxKeys a s with ⟨encoded, henc, hput, -⟩ | ⟨hput, hbegin, hfull⟩ |
          ⟨hput, hroom, hfirst, hfallback⟩
        · rw [hput] at hfinal ⊢
          refine iff_of_true rfl ?_
          rw [hbatch] at henc
          rcases hfinal with hsame | ⟨q, hq, hkey, hget⟩
          · obtain ⟨q, hq, hkey, hget⟩ := get_insertAll_of_encoded hcodec henc s
            exact ⟨q, List.mem_append_left _ hq, hkey, hsame.trans hget⟩
          · exact ⟨q, List.mem_cons_of_mem _ (List.mem_append_right _ hq), hkey, hget⟩
        · -- a refused batch has new keys, and there is no room for them later
          have hafter := h.2
          rw [hput] at hafter ⊢
          refine iff_of_false (by simp) ?_
          rcases h.1.checked hbegin with hle | ⟨hsize, hnew⟩
          · exact absurd hfull (Nat.not_lt.2 hle)
          · have hnone := notMem_keys_putAttempts hs hafter hsize (hnew p (by rw [hbatch]; simp))
            rintro ⟨q, -, -, hget⟩
            rw [get_eq_none hnone] at hget
            cases hget
        · rw [hput] at hfinal ⊢
          refine iff_of_false (by simp) ?_
          obtain ⟨hnever, hother⟩ := h.1.failing hroom hfirst hfallback before p more hbatch
          rintro ⟨q, hq, hkey, hget⟩
          rcases hfinal with hsame | ⟨r, hr, hrkey, -⟩
          · have hsplit : q ∈ (p :: more) ++ rest.flatMap Attempt.batch := hq
            rcases List.mem_append.1 hsplit with hq | hq
            · exact hother q hq hkey (hsame.symm.trans hget)
            · exact hnever q hq hkey
          · exact hnever r hr hrkey

end Reads

end Batches

/-! ### Runs -/

section Runs

variable [DecidableEq K] {c : Codec K V B} {maxKeys : Nat} {s : Dict K B}

omit [DecidableEq K] in
theorem flatMap_attempts (faults : Nat → Option TxnFault × Option TxnFault) (items : List (K × V)) :
    (attempts faults items).flatMap Attempt.batch = items := by
  have hbatches : (attempts faults items).map Attempt.batch = chunks writeBatchSize items := by
    rw [attempts, List.map_map]
    exact List.zipIdx_map_fst 0 _
  rw [List.flatMap_def, hbatches, flatten_chunks (by decide)]

theorem put_cases (c : Codec K V B) (maxKeys : Nat) (fault : Option TxnFault) (key : K) (value : V) (s : Dict K B) :
    (put c maxKeys fault key value s = (.failed, s)) ∨
    (put c maxKeys fault key value s = (.refused, s) ∧ fault ≠ some .begin ∧ maxKeys ≤ s.size) ∨
    (∃ b, put c maxKeys fault key value s = (.written, s.insert key b) ∧ s.size < maxKeys) := by
  rw [put]
  split
  · exact .inl rfl
  · next hbegin =>
    split
    · next hfull => exact .inr (.inl ⟨rfl, hbegin, hfull⟩)
    · next hroom =>
      cases hwrite : write c fault [(key, value)] s with
      | none => exact .inl rfl
      | some s' =>
        obtain ⟨-, encoded, henc, rfl⟩ := write_eq_some_iff.1 hwrite
        rw [mapM_eq_some_iff] at henc
        cases henc with
        | cons he hnil =>
          rename_i e _
          obtain ⟨k, b⟩ := e
          cases hnil
          obtain rfl : k = key := (encodePair_eq_some_iff.1 he).2.1
          exact .inr (.inr ⟨b, rfl, Nat.lt_of_not_le hroom⟩)

theorem size_step_le (hs : s.size ≤ maxKeys) {op : KvOp K V} (h : Meets c maxKeys s op) :
    (step c maxKeys s op).size ≤ maxKeys := by
  cases op with
  | put fault key value =>
    rw [step]
    rcases put_cases c maxKeys fault key value s with hput | ⟨hput, -⟩ | ⟨b, hput, hroom⟩
    · rw [hput]
      exact hs
    · rw [hput]
      exact hs
    · rw [hput, Dict.size_insert]
      split <;> omega
  | putMany faults items => exact size_putAttempts_le hs h
  | delete fault key =>
    rw [step, delete]
    split
    · exact hs
    · by_cases hkey : key ∈ s.keys
      · rw [Dict.size_erase hkey]
        omega
      · rw [Dict.erase_of_notMem hkey]
        exact hs

theorem disciplined_of_meets (hcodec : ∀ v b, c.encode v = some b → c.decode b = some v) (hs : s.size ≤ maxKeys)
    {op : KvOp K V} (h : Meets c maxKeys s op) : Disciplined c maxKeys s op where
  bound := size_step_le hs h
  put_refused := by
    rintro fault key value rfl hrefused
    rcases put_cases c maxKeys fault key value s with hput | ⟨-, hbegin, hfull⟩ | ⟨b, hput, -⟩
    · rw [hput] at hrefused
      cases hrefused
    · rcases h with hfault | hroom | hnew
      · exact absurd hfault hbegin
      · exact absurd hroom (Nat.not_lt.2 hfull)
      · exact ⟨hnew, hfull⟩
    · rw [hput] at hrefused
      cases hrefused
  putMany_refused := by
    rintro faults items rfl
    exact refusesRightly_of_batchesMeet h
  putMany_reports := by
    rintro faults items rfl
    refine ⟨?_, fun before p after hitems => ?_⟩
    · rw [putMany, length_putAttempts, flatMap_attempts]
    · exact written_iff hcodec hs h (by rw [flatMap_attempts, hitems])

/-- In every run whose calls are as they must be, every call is disciplined. -/
theorem disciplined_of_stepsMeet (c : Codec K V B) (hcodec : ∀ v b, c.encode v = some b → c.decode b = some v)
    (maxKeys : Nat) (s : Dict K B) (hs : s.size ≤ maxKeys) (ops : List (KvOp K V))
    (h : StepsMeet (step c maxKeys) (Meets c maxKeys) s ops) (before : List (KvOp K V)) (op : KvOp K V)
    (after : List (KvOp K V)) (hops : ops = before ++ op :: after) :
    Disciplined c maxKeys (before.foldl (step c maxKeys) s) op := by
  subst hops
  obtain ⟨hbefore, hrest⟩ := stepsMeet_append.1 h
  have hsize : (before.foldl (step c maxKeys) s).size ≤ maxKeys :=
    hbefore.invariant (I := fun s => s.size ≤ maxKeys) (fun s a hs hc => size_step_le hs hc) hs
  exact disciplined_of_meets hcodec hsize hrest.1

end Runs

/-! ### Two runs -/

/-- A codec of dictionaries with one flag. -/
def flagCodec : Codec String Bool String where
  keyOk key := decide (key ≠ "") && decide (key.utf8ByteSize ≤ 511)
  encode flag := some (if flag then "\x7b\"v\":true\x7d" else "\x7b\"v\":false\x7d")
  decode text :=
    if text = "\x7b\"v\":true\x7d" then some true
    else if text = "\x7b\"v\":false\x7d" then some false
    else none

theorem decode_flagCodec : ∀ v b, flagCodec.encode v = some b → flagCodec.decode b = some v := by
  intro v b h
  obtain rfl := Option.some.inj h
  cases v <;> decide

/-- A new key for which there is no room. -/
theorem disciplined_new_key : Disciplined flagCodec 2
    ([.put none "a" true, .putMany (fun _ => (none, none)) [("b", true)]].foldl (step flagCodec 2) .empty)
    (.put none "c" true) := by
  refine disciplined_of_stepsMeet flagCodec decode_flagCodec 2 .empty (Nat.zero_le _) _ ?_ _ _ [.delete none "a"] rfl
  refine ⟨.inr (.inl (by decide)), ⟨⟨fun _ => .inl (by decide), nofun, ?_⟩, trivial⟩, .inr (.inr (by decide)), trivial,
    trivial⟩
  rintro - (hfirst | hencodes)
  · cases hfirst
  · cases hencodes

/-- A key that is there is not overwritten where the store is full. -/
theorem not_disciplined : ¬ ∀ (c : Codec String Bool String),
    (∀ v b, c.encode v = some b → c.decode b = some v) → ∀ (maxKeys : Nat) (s : Dict String String),
      s.size ≤ maxKeys → ∀ ops before op after, ops = before ++ op :: after →
        Disciplined c maxKeys (before.foldl (step c maxKeys) s) op := by
  intro h
  have hput := (h flagCodec decode_flagCodec 1 .empty (Nat.zero_le _) _ [.put none "a" true] (.put none "a" false) []
    rfl).put_refused _ _ _ rfl (by decide)
  exact hput.1 (by decide)

end LmdbKv

end Hledac.Tools
