import Hledac.Lib.Dict
import Hledac.Lib.Machine
import Hledac.Lib.Nearest
import Mathlib.Data.Rat.Defs

/-!
# Routing table and closest nodes

`src/dht/kademlia_node.py`: the buckets a node files its peers in, by the
highest bit at which a peer's hashed id differs from its own, and the search
for the peers closest to a key, which looks at the eleven buckets around the
bucket of the key. A table is what any updates have made of the empty one; its
invariant is kept by each update. The search finds the closest peers exactly
when no bucket outside of the window holds a peer that belongs to them, and a
bucket above the window never does while the window holds enough.
-/

namespace Hledac.Dht

open Hledac.Lib

variable {Id : Type*}

/-- What is known of a peer's address (`peer_info`). -/
structure PeerInfo where
  host : Option String
  port : Option Nat
deriving DecidableEq, Repr

/-- An entry of a bucket. -/
structure Peer (Id : Type*) where
  id : Id
  info : PeerInfo
  lastSeen : ℚ
deriving DecidableEq

/-- What the routing depends on: the SHA-256 of an id as a number, the node's own id and the size
of a bucket (`k`). -/
structure KademliaNode (Id : Type*) where
  hash : Id → BitVec 256
  nodeId : Id
  k : Nat

/-- `routing_table`, buckets by index. -/
abbrev RoutingTable (Id : Type*) := Dict Nat (List (Peer Id))

/-- The bucket at an index, empty where there is none. -/
def bucketAt (table : RoutingTable Id) (i : Nat) : List (Peer Id) := (table.get? i).getD []

/-- All peers of the table, bucket by bucket. -/
def peers (table : RoutingTable Id) : List (Peer Id) := table.entries.flatMap Prod.snd

namespace KademliaNode

variable (c : KademliaNode Id)

/-- `_distance`, line 850. -/
def distance (key1 key2 : Id) : Nat := (c.hash key1 ^^^ c.hash key2).toNat

/-- `_bucket_index`, line 855; `bit_length() - 1` is the binary logarithm. -/
def bucketIndex (key : Id) : Nat :=
  let dist := c.distance key c.nodeId
  if dist = 0 then 0 else min (Nat.log2 dist) 255

/-- A bucket after `_update_routing` has moved or added a peer; a full bucket drops the new peer. -/
def updateBucket [DecidableEq Id] (bucket : List (Peer Id)) (peer : Peer Id) : List (Peer Id) :=
  let bucket := bucket.filter fun p => p.id ≠ peer.id
  let bucket := bucket ++ [peer]
  if c.k < bucket.length then bucket.take c.k else bucket

/-- `_update_routing`, line 861, at time `now`. -/
def updateRouting [DecidableEq Id] (table : RoutingTable Id) (peerId : Id) (info : PeerInfo) (now : ℚ) :
    RoutingTable Id :=
  if peerId = c.nodeId then table
  else
    let b := c.bucketIndex peerId
    table.insert b (c.updateBucket (bucketAt table b) ⟨peerId, info, now⟩)

/-- The candidates of `_find_closest_nodes`: the buckets from five below to five above the key's. -/
def candidates (table : RoutingTable Id) (key : Id) : List (Peer Id) :=
  let b := c.bucketIndex key
  (List.range' (b - 5) (min 256 (b + 6) - (b - 5))).flatMap (bucketAt table)

/-- `_find_closest_nodes`, line 965. -/
def findClosestNodes (table : RoutingTable Id) (key : Id) (count : Nat) : List (Peer Id) :=
  leastOf (fun p => c.distance p.id key) (c.candidates table key) count

end KademliaNode

/-- The arguments of one call of `_update_routing`. -/
structure RoutingUpdate (Id : Type*) where
  peerId : Id
  info : PeerInfo
  now : ℚ

/-- The table after a run of updates of the empty table. -/
def KademliaNode.tableAfter [DecidableEq Id] (c : KademliaNode Id) (updates : List (RoutingUpdate Id)) :
    RoutingTable Id :=
  updates.foldl (fun table u => c.updateRouting table u.peerId u.info u.now) Dict.empty

section Table

variable {table : RoutingTable Id} {p : Peer Id}

theorem mem_peers_iff : p ∈ peers table ↔ ∃ i, p ∈ bucketAt table i := by
  rw [peers, List.mem_flatMap]
  constructor
  · rintro ⟨⟨i, bucket⟩, he, hp⟩
    exact ⟨i, by rwa [bucketAt, Dict.get?_eq_some_iff.2 he]⟩
  · rintro ⟨i, hp⟩
    cases hget : table.get? i with
    | none => simp [bucketAt, hget] at hp
    | some bucket => exact ⟨(i, bucket), Dict.get?_eq_some_iff.1 hget, by simpa [bucketAt, hget] using hp⟩

theorem bucketAt_insert {i j : Nat} {bucket : List (Peer Id)} :
    bucketAt (table.insert i bucket) j = if i = j then bucket else bucketAt table j := by
  rw [bucketAt, Dict.get?_insert]
  split <;> rfl

end Table

namespace KademliaNode

variable {c : KademliaNode Id} {table : RoutingTable Id} {bucket : List (Peer Id)} {peer p : Peer Id}

theorem distance_eq (key1 key2 : Id) :
    c.distance key1 key2 = (c.hash key1).toNat ^^^ (c.hash key2).toNat := BitVec.toNat_xor ..

theorem bucketIndex_eq (key : Id) :
    c.bucketIndex key = highBit (c.hash key).toNat (c.hash c.nodeId).toNat := by
  rw [bucketIndex, highBit, ← distance_eq]
  by_cases h0 : c.distance key c.nodeId = 0
  · simp [h0]
  · have hlt : Nat.log2 (c.distance key c.nodeId) < 256 := (Nat.log2_lt h0).2 (BitVec.isLt _)
    simp only [h0, if_false]
    omega

theorem bucketIndex_lt (key : Id) : c.bucketIndex key < 256 := by
  rw [bucketIndex]
  split <;> omega

section Bucket

variable [DecidableEq Id]

theorem updateBucket_eq :
    c.updateBucket bucket peer = (bucket.filter (fun p => p.id ≠ peer.id) ++ [peer]).take c.k := by
  rw [updateBucket]
  split
  · rfl
  · rw [List.take_of_length_le (by omega)]

theorem length_updateBucket : (c.updateBucket bucket peer).length ≤ c.k := by
  rw [updateBucket_eq]
  exact List.length_take_le ..

theorem mem_updateBucket (h : p ∈ c.updateBucket bucket peer) : p ∈ bucket ∨ p = peer := by
  rw [updateBucket_eq] at h
  have h := List.mem_append.1 (List.mem_of_mem_take h)
  exact h.imp (fun h => (List.mem_filter.1 h).1) List.mem_singleton.1

theorem nodup_updateBucket (h : (bucket.map Peer.id).Nodup) :
    ((c.updateBucket bucket peer).map Peer.id).Nodup := by
  have hall : ((bucket.filter (fun p => p.id ≠ peer.id) ++ [peer]).map Peer.id).Nodup := by
    rw [List.map_append, List.map_singleton]
    apply (h.sublist (List.filter_sublist.map _)).append (List.nodup_singleton _)
    intro id hid hpeer
    obtain ⟨q, hq, rfl⟩ := List.mem_map.1 hid
    simp [List.mem_singleton.1 hpeer] at hq
  rw [updateBucket_eq]
  exact hall.sublist ((List.take_sublist ..).map _)

end Bucket

/-- The invariant of a routing table. -/
structure Valid (c : KademliaNode Id) (table : RoutingTable Id) : Prop where
  size : ∀ i, (bucketAt table i).length ≤ c.k
  nodup : ∀ i, ((bucketAt table i).map Peer.id).Nodup
  index : ∀ i, ∀ p ∈ bucketAt table i, c.bucketIndex p.id = i
  foreign : ∀ i, ∀ p ∈ bucketAt table i, p.id ≠ c.nodeId

theorem valid_empty : c.Valid Dict.empty where
  size := by simp [bucketAt]
  nodup := by simp [bucketAt]
  index := by simp [bucketAt]
  foreign := by simp [bucketAt]

theorem Valid.updateRouting [DecidableEq Id] (h : c.Valid table) (peerId : Id) (info : PeerInfo) (now : ℚ) :
    c.Valid (c.updateRouting table peerId info now) := by
  rw [KademliaNode.updateRouting]
  split
  · exact h
  · next hown =>
    constructor
    · intro i
      rw [bucketAt_insert]
      split
      · exact length_updateBucket
      · exact h.size i
    · intro i
      rw [bucketAt_insert]
      split
      · exact nodup_updateBucket (h.nodup _)
      · exact h.nodup i
    · intro i p hp
      rw [bucketAt_insert] at hp
      split at hp
      · next hi =>
        subst hi
        cases mem_updateBucket hp with
        | inl hold => exact h.index _ p hold
        | inr hnew => rw [hnew]
      · exact h.index i p hp
    · intro i p hp
      rw [bucketAt_insert] at hp
      split at hp
      · cases mem_updateBucket hp with
        | inl hold => exact h.foreign _ p hold
        | inr hnew => rwa [hnew]
      · exact h.foreign i p hp

theorem valid_tableAfter [DecidableEq Id] (updates : List (RoutingUpdate Id)) : c.Valid (c.tableAfter updates) :=
  foldl_invariant (fun _ u h => h.updateRouting u.peerId u.info u.now) updates valid_empty

namespace Valid

theorem disjoint (h : c.Valid table) {i j : Nat} (hij : i ≠ j) :
    List.Disjoint ((bucketAt table i).map Peer.id) ((bucketAt table j).map Peer.id) := by
  intro id hi hj
  obtain ⟨p, hp, rfl⟩ := List.mem_map.1 hi
  obtain ⟨q, hq, hqp⟩ := List.mem_map.1 hj
  apply hij
  rw [← h.index i p hp, ← h.index j q hq, hqp]

theorem nodup_ids (h : c.Valid table) : ((peers table).map Peer.id).Nodup := by
  have hbucket : ∀ e ∈ table.entries, bucketAt table e.1 = e.2 := fun e he => by
    rw [bucketAt, Dict.get?_eq_some_iff.2 he, Option.getD_some]
  rw [peers, List.map_flatMap, List.nodup_flatMap]
  constructor
  · intro e he
    rw [← hbucket e he]
    exact h.nodup e.1
  · apply (List.pairwise_map.1 table.nodup_keys).imp_of_mem
    intro e f he hf hne
    have := h.disjoint hne
    rwa [hbucket e he, hbucket f hf] at this

theorem nodup_candidates (h : c.Valid table) (key : Id) : (c.candidates table key).Nodup := by
  apply List.Nodup.of_map Peer.id
  rw [candidates, List.map_flatMap, List.nodup_flatMap]
  constructor
  · intro i _
    exact h.nodup i
  · exact (List.nodup_range' 1).imp h.disjoint

theorem mem_candidates_iff (h : c.Valid table) {key : Id} :
    p ∈ c.candidates table key ↔ p ∈ peers table ∧ c.bucketIndex key ≤ c.bucketIndex p.id + 5 ∧
      c.bucketIndex p.id ≤ c.bucketIndex key + 5 := by
  rw [candidates, List.mem_flatMap, mem_peers_iff]
  constructor
  · rintro ⟨i, hi, hp⟩
    rw [h.index i p hp]
    rw [List.mem_range'_1] at hi
    exact ⟨⟨i, hp⟩, by omega, by omega⟩
  · rintro ⟨⟨i, hp⟩, hlow, hhigh⟩
    have hlt := c.bucketIndex_lt p.id
    rw [h.index i p hp] at hlow hhigh hlt
    refine ⟨i, ?_, hp⟩
    rw [List.mem_range'_1]
    omega

end Valid

/-- The search misses none of the closest peers: for a peer below the window there are `count`
peers in the window that are no farther, and for one above it there are `count` at all. -/
def Searchable (c : KademliaNode Id) (table : RoutingTable Id) (key : Id) (count : Nat) : Prop :=
  (∀ p ∈ peers table, c.bucketIndex p.id + 5 < c.bucketIndex key →
    count ≤ ((c.candidates table key).filter fun q => c.distance q.id key ≤ c.distance p.id key).length) ∧
  ((∃ p ∈ peers table, c.bucketIndex key + 5 < c.bucketIndex p.id) →
    count ≤ (c.candidates table key).length)

theorem Valid.distance_lt_of_above (h : c.Valid table) {key far : Id} {q : Peer Id}
    (hq : q ∈ c.candidates table key) (hfar : c.bucketIndex key + 5 < c.bucketIndex far) :
    c.distance q.id key < c.distance far key := by
  have hwindow := (h.mem_candidates_iff.1 hq).2
  simp only [bucketIndex_eq] at hfar hwindow
  rw [distance_eq, distance_eq]
  apply xor_lt_xor_of_highBit (Nat.succ_pos _) _ _ (Nat.succ_le_of_lt hfar) <;> omega

theorem Valid.searchable_iff (h : c.Valid table) {key : Id} {count : Nat} :
    c.Searchable table key count ↔ ∀ p ∈ peers table, p ∉ c.candidates table key →
      count ≤ ((c.candidates table key).filter fun q => c.distance q.id key ≤ c.distance p.id key).length := by
  have habove : ∀ p : Peer Id, c.bucketIndex key + 5 < c.bucketIndex p.id →
      (c.candidates table key).filter (fun q => c.distance q.id key ≤ c.distance p.id key) =
        c.candidates table key := by
    intro p hp
    apply List.filter_eq_self.2
    intro q hq
    simpa using (h.distance_lt_of_above hq hp).le
  constructor
  · rintro ⟨hbelow, habove'⟩ p hp hout
    rw [h.mem_candidates_iff] at hout
    by_cases hlow : c.bucketIndex p.id + 5 < c.bucketIndex key
    · exact hbelow p hp hlow
    · have hhigh : c.bucketIndex key + 5 < c.bucketIndex p.id := by
        by_contra hle
        exact hout ⟨hp, by omega, by omega⟩
      rw [habove p hhigh]
      exact habove' ⟨p, hp, hhigh⟩
  · intro hout
    constructor
    · intro p hp hlow
      apply hout p hp
      rw [h.mem_candidates_iff]
      omega
    · rintro ⟨p, hp, hhigh⟩
      rw [← habove p hhigh]
      apply hout p hp
      rw [h.mem_candidates_iff]
      omega

/-- In every table a run of updates makes, the buckets are in order, and a search returns the
closest peers of the whole table exactly when it is `Searchable`. -/
theorem findClosestNodes_iff [DecidableEq Id] (c : KademliaNode Id) (updates : List (RoutingUpdate Id)) :
    let table := c.tableAfter updates
    (∀ i, (bucketAt table i).length ≤ c.k ∧ ∀ p ∈ bucketAt table i, c.bucketIndex p.id = i) ∧
      ((peers table).map Peer.id).Nodup ∧ c.nodeId ∉ (peers table).map Peer.id ∧
      ∀ key count, IsNearest (fun p => c.distance p.id key) (peers table) count
        (c.findClosestNodes table key count) ↔ c.Searchable table key count := by
  intro table
  have h : c.Valid table := valid_tableAfter updates
  refine ⟨fun i => ⟨h.size i, h.index i⟩, h.nodup_ids, ?_, ?_⟩
  · intro hmem
    obtain ⟨p, hp, hown⟩ := List.mem_map.1 hmem
    obtain ⟨i, hi⟩ := mem_peers_iff.1 hp
    exact h.foreign i p hi hown
  · intro key count
    rw [h.searchable_iff]
    apply isNearest_leastOf_iff (h.nodup_ids.of_map _) (h.nodup_candidates key)
    intro p hp
    exact (h.mem_candidates_iff.1 hp).1

/-- With a peer in the lowest bucket only, a search for a key of bucket six returns nothing. -/
theorem findClosestNodes_misses :
    let c : KademliaNode (BitVec 256) := ⟨id, 0, 20⟩
    let table := c.tableAfter [⟨1, ⟨some "10.0.0.1", some 6881⟩, 0⟩]
    Function.Injective c.hash ∧ c.findClosestNodes table 64 1 = [] ∧
      ¬ IsNearest (fun p => c.distance p.id 64) (peers table) 1 (c.findClosestNodes table 64 1) := by
  intro c table
  have hfound : c.findClosestNodes table 64 1 = [] := by decide +kernel
  have hsize : (peers table).length = 1 := by decide +kernel
  refine ⟨Function.injective_id, hfound, fun h => ?_⟩
  have hlength := h.length
  rw [hfound, hsize, List.length_nil] at hlength
  omega

end KademliaNode

end Hledac.Dht
