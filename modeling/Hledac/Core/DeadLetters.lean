import Mathlib.Data.List.Sort
import Mathlib.Data.String.Basic
import Hledac.Lib.Dict
import Hledac.Lib.Digest

/-!
# The dead-letter queue

`DLQManager` keeps failed payloads in a table whose key is the digest of the payload, cut to the largest
size, and counts failures by source and type of error in another. A payload that is there already is not
stored again, whatever failed with it; the count goes up all the same. Every operation on the database
succeeds here. The hexadecimal text of a payload stands for its bytes, and the JSON text of the metadata
for the metadata.
-/

namespace Hledac.Core

open Hledac.Lib

/-- `ORDER BY key DESC`. It leaves open in which order the rows of one key stand. -/
structure OrderDesc {α κ : Type} [LE κ] (key : α → κ) where
  order : List α → List α
  perm : ∀ rows, (order rows).Perm rows
  sorted : ∀ rows, (order rows).Pairwise fun a b => key b ≤ key a

/-! ### The manager -/

/-- `DLQPayload`; `_core/dlq_manager.py:55-67`. -/
structure DLQPayload where
  payloadId : String
  sprintId : String
  source : String
  errorType : String
  errorMessage : String
  payloadData : Bytes
  metadata : String
  createdAt : String
  attemptCount : Nat := 0
  deriving DecidableEq

/-- A row of `dlq_stats`. -/
structure DLQStat where
  count : Nat
  lastOccurrence : String
  deriving DecidableEq, Repr

/-- The two tables of the database: the payloads by their id, the counts by source and type of error. -/
structure DLQManager where
  payloads : Dict String DLQPayload := .empty
  stats : Dict (String × String) DLQStat := .empty

/-- The arguments of a store call, and the clock. `errorType` is the qualified name of the exception's
class, `errorText` its `str`. -/
structure StoreCall where
  payloadData : Bytes
  sprintId : String
  source : String
  errorType : String
  errorText : String
  metadata : String := "{}"
  createdAt : String
  isAsync : Bool := false

/-- `DLQSchema.MAX_PAYLOAD_SIZE`; line 79. -/
def maxPayloadSize : Nat := 2 * 1024 * 1024

namespace StoreCall

/-- The payload, cut to the largest size. -/
def payload (c : StoreCall) : Bytes :=
  if maxPayloadSize < c.payloadData.length then c.payloadData.take maxPayloadSize else c.payloadData

/-- `hashlib.sha256(payload_data).hexdigest()`. -/
def payloadId (c : StoreCall) : String := Digest.sha256 c.payload

/-- The record that the call would store. -/
def record (c : StoreCall) : DLQPayload where
  payloadId := c.payloadId
  sprintId := c.sprintId
  source := c.source
  errorType := c.errorType
  errorMessage := String.ofList (c.errorText.toList.take 1000)
  payloadData := c.payload
  metadata := c.metadata
  createdAt := c.createdAt

end StoreCall

namespace DLQManager

/-- `INSERT OR IGNORE INTO dlq_payloads`. -/
def insertOrIgnore (payloads : Dict String DLQPayload) (r : DLQPayload) : Dict String DLQPayload :=
  if r.payloadId ∈ payloads.keys then payloads else payloads.insert r.payloadId r

/-- `INSERT INTO dlq_stats … ON CONFLICT(source, error_type) DO UPDATE`. -/
def countFailure (stats : Dict (String × String) DLQStat) (r : DLQPayload) :
    Dict (String × String) DLQStat :=
  stats.insert (r.source, r.errorType)
    { count := ((stats.get? (r.source, r.errorType)).map DLQStat.count).getD 0 + 1
      lastOccurrence := r.createdAt }

/-- What the two methods that store have in common. -/
def storeWith (c : StoreCall) (s : DLQManager) : String × DLQManager :=
  (c.payloadId,
    { payloads := insertOrIgnore s.payloads c.record
      stats := countFailure s.stats c.record })

/-- `store_payload`; lines 151-173. -/
def storePayload (c : StoreCall) (s : DLQManager) : String × DLQManager := storeWith c s

/-- `store_payload_async`; lines 175-198. -/
def storePayloadAsync (c : StoreCall) (s : DLQManager) : String × DLQManager := storeWith c s

/-- The manager after a call. -/
def step (s : DLQManager) (c : StoreCall) : DLQManager :=
  if c.isAsync then (storePayloadAsync c s).2 else (storePayload c s).2

/-- A run of calls on a new database. -/
def run (calls : List StoreCall) : DLQManager := calls.foldl step {}

/-- The rows of the payload table. -/
def rows (s : DLQManager) : List DLQPayload := s.payloads.entries.map Prod.snd

/-- Whether a row passes a filter, which a missing or empty argument does not set. -/
def passes (argument : Option String) (value : String) : Bool :=
  match argument with
  | none => true
  | some a => a = "" || value = a

/-- `retrieve_payloads` and `retrieve_payloads_async`; lines 200-255. -/
def retrievePayloads (o : OrderDesc DLQPayload.createdAt) (source errorType sprintId : Option String)
    (limit : Nat) (offset : Nat) (s : DLQManager) : List DLQPayload :=
  ((o.order (s.rows.filter fun r =>
    passes source r.source && passes errorType r.errorType && passes sprintId r.sprintId)).drop
      offset).take limit

/-- The default of `limit`. -/
def defaultLimit : Nat := 100

/-- A row of `get_stats`. -/
abbrev StatRow := (String × String) × DLQStat

/-- `get_stats`; lines 319-332. -/
def getStats (o : OrderDesc fun r : StatRow => r.2.count) (s : DLQManager) : List StatRow :=
  o.order s.stats.entries

/-! ### Finding the failures -/

/-- The record is one of the call's source, type of error and sprint. -/
def Matches (r : DLQPayload) (c : StoreCall) : Prop :=
  r.source = c.source ∧ r.errorType = c.errorType ∧ r.sprintId = c.sprintId

/-- The count that the statistics give. -/
def statCount (o : OrderDesc fun r : StatRow => r.2.count) (source errorType : String)
    (s : DLQManager) : Nat :=
  (((s.getStats o).find? fun r => r.1 = (source, errorType)).map fun r => r.2.count).getD 0

/-- Whether a call failed with the source and type of error. -/
def isOf (source errorType : String) (c : StoreCall) : Bool := c.source = source ∧ c.errorType = errorType

/-- Whether the record has the source and type of error. -/
def isRecordOf (source errorType : String) (r : DLQPayload) : Bool :=
  r.source = source ∧ r.errorType = errorType

/-- Every call has a record of its source, type of error and sprint that they retrieve, and there are as
many records of a source and type of error as calls. -/
structure FindsAll (o : OrderDesc DLQPayload.createdAt) (o' : OrderDesc fun r : StatRow => r.2.count)
    (calls : List StoreCall) : Prop where
  found : ∀ c ∈ calls, ∃ r ∈ (run calls).retrievePayloads o (some c.source) (some c.errorType)
    (some c.sprintId) defaultLimit 0, Matches r c
  counted : ∀ source errorType,
    (run calls).statCount o' source errorType = calls.countP (isOf source errorType) ∧
      (run calls).rows.countP (isRecordOf source errorType) = calls.countP (isOf source errorType)

/-- The calls but those whose payload id an earlier call has. -/
def firsts (calls : List StoreCall) : List StoreCall :=
  calls.foldl (fun kept c => if c.payloadId ∈ kept.map StoreCall.payloadId then kept else kept ++ [c]) []

/-- The first call of every payload has a record of its source, type of error and sprint that they
retrieve, within the default limit where none of the three is empty; the statistics count every call, and
there are as many records as first calls. -/
structure FindsFirsts (o : OrderDesc DLQPayload.createdAt)
    (o' : OrderDesc fun r : StatRow => r.2.count) (calls : List StoreCall) : Prop where
  first : ∀ c ∈ calls, ∃ f ∈ firsts calls, f.payloadId = c.payloadId
  found : ∀ c ∈ firsts calls, ∃ limit, ∃ r ∈ (run calls).retrievePayloads o (some c.source)
    (some c.errorType) (some c.sprintId) limit 0, Matches r c
  foundByDefault : ∀ c ∈ firsts calls, c.source ≠ "" → c.errorType ≠ "" → c.sprintId ≠ "" →
    ∃ r ∈ (run calls).retrievePayloads o (some c.source) (some c.errorType) (some c.sprintId)
      defaultLimit 0, Matches r c
  counted : ∀ source errorType,
    (run calls).statCount o' source errorType = calls.countP (isOf source errorType) ∧
      (run calls).rows.countP (isRecordOf source errorType) =
        (firsts calls).countP (isOf source errorType)

/-! ### What a run stores -/

section Run

variable {o : OrderDesc DLQPayload.createdAt} {o' : OrderDesc fun r : StatRow => r.2.count}
  {calls : List StoreCall} {c : StoreCall} {source errorType : String}

theorem step_eq (s : DLQManager) (c : StoreCall) : step s c = (storeWith c s).2 := by
  rw [step]
  split <;> rfl

theorem run_append (calls : List StoreCall) (c : StoreCall) :
    run (calls ++ [c]) = (storeWith c (run calls)).2 := by
  rw [run, List.foldl_append, ← run, List.foldl_cons, List.foldl_nil, step_eq]

theorem firsts_append (calls : List StoreCall) (c : StoreCall) :
    firsts (calls ++ [c]) =
      if c.payloadId ∈ (firsts calls).map StoreCall.payloadId then firsts calls
      else firsts calls ++ [c] := by
  rw [firsts, List.foldl_append, ← firsts, List.foldl_cons, List.foldl_nil]

theorem entries_run (calls : List StoreCall) :
    (run calls).payloads.entries = (firsts calls).map fun c => (c.payloadId, c.record) := by
  induction calls using List.reverseRecOn with
  | nil => rfl
  | append_singleton calls c ih =>
    have hkeys : (run calls).payloads.keys = (firsts calls).map StoreCall.payloadId := by
      rw [Dict.keys, ih, List.map_map]
      rfl
    rw [run_append, firsts_append]
    show (insertOrIgnore (run calls).payloads c.record).entries = _
    have hid : c.record.payloadId = c.payloadId := rfl
    rw [insertOrIgnore, hkeys, hid]
    split
    · exact ih
    · next h =>
      rw [Dict.entries_insert_of_notMem (by rwa [hkeys]), ih, List.map_append]
      rfl

theorem rows_run (calls : List StoreCall) : (run calls).rows = (firsts calls).map StoreCall.record := by
  rw [rows, entries_run, List.map_map]
  rfl

theorem count_run (calls : List StoreCall) (source errorType : String) :
    (((run calls).stats.get? (source, errorType)).map DLQStat.count).getD 0 =
      calls.countP (isOf source errorType) := by
  induction calls using List.reverseRecOn with
  | nil => rfl
  | append_singleton calls c ih =>
    rw [run_append, List.countP_append, ← ih, List.countP_singleton]
    show ((((countFailure (run calls).stats c.record).get? (source, errorType)).map _).getD 0) = _
    rw [countFailure, Dict.get?_insert]
    have hkey : (c.record.source, c.record.errorType) = (source, errorType) ↔
        isOf source errorType c = true := by
      rw [isOf, decide_eq_true_iff, Prod.mk.injEq]
      rfl
    by_cases h : isOf source errorType c = true
    · rw [if_pos (hkey.2 h), if_pos h, hkey.2 h]
      rfl
    · rw [if_neg fun hc => h (hkey.1 hc), if_neg h, Nat.add_zero]

theorem statCount_run (o' : OrderDesc fun r : StatRow => r.2.count) (calls : List StoreCall)
    (source errorType : String) :
    (run calls).statCount o' source errorType = calls.countP (isOf source errorType) := by
  rw [← count_run, ← Dict.find?_of_perm (o'.perm _), Option.map_map]
  rfl

theorem mem_firsts (calls : List StoreCall) :
    (∀ c ∈ firsts calls, c ∈ calls) ∧ ∀ c ∈ calls, ∃ f ∈ firsts calls, f.payloadId = c.payloadId := by
  induction calls using List.reverseRecOn with
  | nil => exact ⟨fun _ h => h, fun _ h => absurd h List.not_mem_nil⟩
  | append_singleton calls c ih =>
    obtain ⟨hsub, hall⟩ := ih
    rw [firsts_append]
    split
    · next h =>
      refine ⟨fun d hd => List.mem_append_left _ (hsub d hd), ?_⟩
      intro d hd
      cases List.mem_append.1 hd with
      | inl hd => exact hall d hd
      | inr hd =>
        obtain rfl := List.mem_singleton.1 hd
        exact List.mem_map.1 h
    · constructor
      · intro d hd
        cases List.mem_append.1 hd with
        | inl hd => exact List.mem_append_left _ (hsub d hd)
        | inr hd => exact List.mem_append_right _ hd
      · intro d hd
        cases List.mem_append.1 hd with
        | inl hd =>
          obtain ⟨f, hf, hid⟩ := hall d hd
          exact ⟨f, List.mem_append_left _ hf, hid⟩
        | inr hd => exact ⟨d, List.mem_append_right _ hd, rfl⟩

theorem record_mem_filter (hc : c ∈ firsts calls) :
    c.record ∈ (run calls).rows.filter fun r => passes (some c.source) r.source &&
      passes (some c.errorType) r.errorType && passes (some c.sprintId) r.sprintId := by
  have hself : ∀ a, passes (some a) a = true := by
    intro a
    simp [passes]
  have hrow : c.record ∈ (run calls).rows := by
    rw [rows_run]
    exact List.mem_map_of_mem hc
  apply List.mem_filter.2 ⟨hrow, ?_⟩
  show (passes (some c.source) c.source && passes (some c.errorType) c.errorType &&
    passes (some c.sprintId) c.sprintId) = true
  rw [hself, hself, hself]
  rfl

theorem exists_retrieved (o : OrderDesc DLQPayload.createdAt) (hc : c ∈ firsts calls)
    (hsource : c.source ≠ "") (herror : c.errorType ≠ "") (hsprint : c.sprintId ≠ "") :
    ∃ r ∈ (run calls).retrievePayloads o (some c.source) (some c.errorType) (some c.sprintId)
      defaultLimit 0, Matches r c := by
  have hset : ∀ a b, a ≠ "" → passes (some a) b = true → b = a := by
    intro a b ha h
    simpa [passes, ha] using h
  have hmem := (o.perm _).mem_iff.2 (record_mem_filter hc)
  rw [retrievePayloads, List.drop_zero]
  obtain ⟨r, rest, hrows⟩ := List.exists_cons_of_ne_nil (List.ne_nil_of_mem hmem)
  refine ⟨r, ?_, ?_⟩
  · rw [hrows, defaultLimit, List.take_succ_cons]
    exact List.mem_cons_self
  · have hr := (o.perm _).mem_iff.1 (hrows ▸ List.mem_cons_self : r ∈ o.order _)
    have hpass := (List.mem_filter.1 hr).2
    simp only [Bool.and_eq_true] at hpass
    exact ⟨hset _ _ hsource hpass.1.1, hset _ _ herror hpass.1.2, hset _ _ hsprint hpass.2⟩

/-- In every run the first call of every payload is found and every call is counted. -/
theorem findsFirsts_run (o : OrderDesc DLQPayload.createdAt)
    (o' : OrderDesc fun r : StatRow => r.2.count) (calls : List StoreCall) : FindsFirsts o o' calls := by
  refine ⟨(mem_firsts calls).2, ?_, fun c hc hs he hp => exists_retrieved o hc hs he hp, ?_⟩
  · intro c hc
    -- A limit that all the rows of the table are within.
    refine ⟨(run calls).rows.length, c.record, ?_, rfl, rfl, rfl⟩
    rw [retrievePayloads, List.drop_zero, List.take_of_length_le]
    · exact (o.perm _).mem_iff.2 (record_mem_filter hc)
    · rw [(o.perm _).length_eq]
      exact List.length_filter_le _ _
  · intro source errorType
    refine ⟨statCount_run o' calls source errorType, ?_⟩
    rw [rows_run, List.countP_map]
    rfl

end Run

/-- Two failures of one payload, each of a source of its own. -/
private def sameBytes : List StoreCall :=
  ["a", "b"].map fun source =>
    { payloadData := [], sprintId := "s1", source, errorType := "E", errorText := "", createdAt := "1" }

/-- The sort that orders the rows of one key as they come. -/
def byMergeSort {α κ : Type} [LinearOrder κ] (key : α → κ) : OrderDesc key where
  order rows := rows.mergeSort fun a b => decide (key b ≤ key a)
  perm rows := List.mergeSort_perm rows _
  sorted rows := List.pairwise_mergeSort' (Order.Preimage key (· ≥ ·)) rows

/-- The second of two failures of one payload is counted, and has no record. -/
theorem not_findsAll : ¬ ∀ o o' calls, FindsAll o o' calls := by
  intro h
  have hcount := ((h (byMergeSort _) (byMergeSort _) sameBytes).counted "b" "E").2
  have hfirsts : firsts sameBytes = sameBytes.take 1 := by
    rw [sameBytes, List.map_cons, List.map_cons, List.map_nil, firsts, List.foldl_cons, List.foldl_cons,
      List.foldl_nil, List.map_nil, if_neg List.not_mem_nil, List.nil_append, List.map_singleton]
    exact if_pos List.mem_cons_self
  rw [rows_run, hfirsts] at hcount
  exact absurd hcount (by decide)

end DLQManager

end Hledac.Core
