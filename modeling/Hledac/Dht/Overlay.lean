import Hledac.Dht.FindValue
import Mathlib.Logic.Function.Basic

/-!
# The overlay

Nodes of `src/dht/kademlia_node.py` that send each other the five messages of `set_transport`. Whatever was sent may
arrive at any time, in any order, more than once or never, and calls that wait are woken or time out between
arrivals. No value comes out of the overlay that was not put in under its key; the tables of a node stay in bounds;
and no future outlives the call that waits for it. The value `None` is left out, sending does not
raise, and `create_future` takes a name.
-/

namespace Hledac.Dht

open Hledac.Lib

variable {V : Type}

/-! ### Messages and nodes -/

/-- The payloads of the messages. The ids of calls are numbers, since `uuid7` gives none twice. -/
inductive Payload (V : Type) where
  | ping (rpcId : Nat)
  | pong (rpcId : Nat)
  | store (key : String) (value : V)
  | findValue (key : String) (rpcId : Nat)
  | findValueResp (rpcId : Nat) (answer : Answer V)

structure Message (V : Type) where
  sender : String
  receiver : String
  payload : Payload V

/-- What a future is set to: `True`, or the payload of a response. -/
inductive Reply (V : Type) where
  | pong
  | resp (answer : Answer V)

/-- A call that waits for its futures; a ping is sent to a peer of a bucket. -/
inductive Waiting where
  | ping (bucket : Nat) (peerId : String) (rpcId : Nat)
  | findValue (key : String) (lookup : Lookup) (rpcIds : List Nat)

/-- The calls that it waits for. -/
def Waiting.rpcIds : Waiting → List Nat
  | ping _ _ r => [r]
  | findValue _ _ rs => rs

/-- A node: its tables, the ids in `_pending_rpcs` and in `_pending_rpcs_created`, the futures that are done, the
tasks that have not sent yet, and the calls that wait. -/
structure NodeState (V : Type) where
  table : RoutingTable String := Dict.empty
  dataStore : DataStore V := Dict.empty
  pending : List Nat := []
  created : Dict Nat ℚ := Dict.empty
  done : Dict Nat (Reply V) := Dict.empty
  outbox : List (String × Payload V) := []
  waiting : List Waiting := []

/-- What a node depends on; `tooLarge` says which values are over `MAX_ITEM_BYTES`. -/
structure OverlayConfig (V : Type) where
  hash : String → BitVec 256
  k : String → Nat
  alpha : String → Nat
  tooLarge : V → Bool

def OverlayConfig.node (c : OverlayConfig V) (n : String) : KademliaNode String := ⟨c.hash, n, c.k n⟩

/-- Values that `_send_store` does not send; line 1133. -/
def OverlayConfig.skips (c : OverlayConfig V) : Payload V → Bool
  | .store _ v => c.tooLarge v
  | _ => false

namespace NodeState

variable (c : OverlayConfig V) (n : String)

/-- `_update_routing` on a node. -/
def meet (peerId : String) (info : PeerInfo) (now : ℚ) (s : NodeState V) : NodeState V :=
  { s with table := (c.node n).updateRouting s.table peerId info now }

/-- What the handlers do first: `if sender: self._update_routing(sender)`. -/
def meetSender (sender : String) (now : ℚ) (s : NodeState V) : NodeState V :=
  if sender = "" then s else s.meet c n sender ⟨none, none⟩ now

/-- A pending future is set, unless it is done. -/
def settle (r : Nat) (reply : Reply V) (s : NodeState V) : NodeState V :=
  if r ∈ s.pending ∧ s.done.get? r = none then
    { s with done := s.done.insert r reply, created := s.created.erase r }
  else s

/-- Calls leave both tables. -/
def forget (ids : List Nat) (s : NodeState V) : NodeState V :=
  { s with pending := s.pending.filter fun r => r ∉ ids, created := ids.foldl Dict.erase s.created }

/-- The calls that are done, or older than `MAX_PENDING_RPC_TTL_S`. -/
def expired (now : ℚ) (s : NodeState V) : List Nat :=
  s.pending.filter fun r => (s.done.get? r).isSome || (s.created.get? r).any fun ts => decide (60 < now - ts)

/-- `_cleanup_pending_rpcs`, line 989; `MAX_PENDING_RPCS` is 5 000. -/
def cleanup (now : ℚ) (s : NodeState V) : NodeState V :=
  let s := s.forget (s.expired now)
  if 5000 < s.pending.length then
    s.forget (((s.created.entries.mergeSort fun a b => decide (a.2 ≤ b.2)).map Prod.fst).take (s.pending.length - 5000))
  else s

/-- `_handle_ping`, `_handle_pong`, `_handle_store`, `_handle_find_value` and `_handle_find_value_resp`, lines
1154-1208, with what they send. -/
def handle (m : Message V) (now : ℚ) (s : NodeState V) : NodeState V × List (String × Payload V) :=
  match m.payload with
  | .ping r =>
    if m.sender = "" then (s, []) else (s.meetSender c n m.sender now, [(m.sender, .pong r)])
  | .pong r => ((s.meetSender c n m.sender now).settle r .pong, [])
  | .store key value =>
    ({ s.meetSender c n m.sender now with dataStore := localPut s.dataStore key value now }, [])
  | .findValue key r =>
    if m.sender = "" ∨ key = "" then (s, [])
    else
      let s := s.meetSender c n m.sender now
      match localGet s.dataStore key now with
      | (some v, store) => ({ s with dataStore := store }, [(m.sender, .findValueResp r (.value v))])
      | (none, store) =>
        let closest := (c.node n).findClosestNodes s.table key (c.k n)
        ({ s with dataStore := store }, [(m.sender, .findValueResp r (.nodes (closest.map Peer.id)))])
  | .findValueResp r a => ((s.meetSender c n m.sender now).settle r (.resp a), [])

/-- The payloads among the results of some futures. -/
def results (ids : List Nat) (s : NodeState V) : List (Answer V) :=
  ids.filterMap fun r =>
    match s.done.get? r with
    | some (.resp a) => some a
    | _ => none

/-- A call that waits has ended. -/
def ended (i : Nat) (w : Waiting) (s : NodeState V) : NodeState V :=
  { s with waiting := s.waiting.eraseIdx i }.forget w.rpcIds

end NodeState

/-! ### The network -/

/-- All nodes, the messages sent so far, the id of the next call, and the keys and values that calls of `find_value`
have returned. -/
structure Overlay (V : Type) where
  nodes : String → NodeState V := fun _ => {}
  sent : List (Message V) := []
  nextRpc : Nat := 0
  answers : List (String × V) := []

/-- What happens at a node: calls of `store` and `find_value`, a task that sends, a message that arrives, a call that
wakes up or times out, the two parts of `_refresh_loop`, and any other call of `_update_routing`. -/
inductive OverlayEvent (V : Type) where
  | store (n key : String) (value : V) (now : ℚ)
  | findValue (n key : String) (now : ℚ)
  | send (n : String) (i : Nat) (now : ℚ)
  | deliver (i : Nat) (now : ℚ)
  | wake (n : String) (i : Nat) (now : ℚ)
  | timeout (n : String) (i : Nat)
  | refresh (n : String) (now : ℚ)
  | ping (n : String) (bucket : Nat) (peerId : String) (now : ℚ)
  | meet (n peerId : String) (info : PeerInfo) (now : ℚ)

namespace Overlay

variable (c : OverlayConfig V) (n : String)

def set (o : Overlay V) (s : NodeState V) : Overlay V := { o with nodes := Function.update o.nodes n s }

/-- The loop of `find_value` from its test to the next wait; `_launch_find_value_rpcs`, line 1043. -/
def enterRound (key : String) (now : ℚ) (lookup : Lookup) (o : Overlay V) : Overlay V :=
  let new := (c.node n).newPeers (c.alpha n) lookup
  if new = [] then o
  else
    let s := o.nodes n
    let ids := List.range' o.nextRpc new.length
    { o.set n { s with
        pending := s.pending ++ ids
        created := s.created.insertAll (ids.map fun r => (r, now))
        outbox := s.outbox ++ (new.zip ids).map fun p => (p.1, .findValue key p.2)
        waiting := s.waiting ++ [.findValue key { lookup with queried := lookup.queried ++ new } ids] } with
      nextRpc := o.nextRpc + new.length }

/-- `find_value` returns a value. -/
def answer (key : String) (v : V) (o : Overlay V) : Overlay V := { o with answers := o.answers ++ [(key, v)] }

/-- The rest of a round of `find_value`, line 1086 with line 1035, when all futures are done. -/
def finishRound (key : String) (now : ℚ) (lookup : Lookup) (results : List (Answer V)) (o : Overlay V) : Overlay V :=
  match processResults lookup.queried results lookup.shortlist with
  | (some v, _) =>
    (o.set n { o.nodes n with dataStore := localPut (o.nodes n).dataStore key v now }).answer key v
  | (none, shortlist) =>
    o.enterRound c n key now { lookup with shortlist := (c.node n).pruneShortlist key shortlist }

/-- `store`, line 1016. -/
def store (key : String) (value : V) (now : ℚ) (o : Overlay V) : Overlay V :=
  let s := o.nodes n
  let closest := (((c.node n).findClosestNodes s.table key (c.k n)).map Peer.id).filter fun pid => pid ≠ n
  o.set n { s with
    dataStore := localPut s.dataStore key value now
    outbox := s.outbox ++ closest.map fun pid => (pid, .store key value) }

/-- `find_value`, line 1023, to its first wait. -/
def findValue (key : String) (now : ℚ) (o : Overlay V) : Overlay V :=
  let s := (o.nodes n).cleanup now
  match localGet s.dataStore key now with
  | (some v, store) => (o.set n { s with dataStore := store }).answer key v
  | (none, store) =>
    (o.set n { s with dataStore := store }).enterRound c n key now ((c.node n).startLookup (c.alpha n) key s.table)

/-- `_send_store` and `_send_find_value`, lines 1133-1152, in a task of their own. -/
def send (i : Nat) (now : ℚ) (o : Overlay V) : Overlay V :=
  match (o.nodes n).outbox[i]? with
  | none => o
  | some (pid, payload) =>
    let s := { o.nodes n with outbox := (o.nodes n).outbox.eraseIdx i }
    if c.skips payload then o.set n s
    else { o.set n (s.meet c n pid ⟨none, none⟩ now) with sent := o.sent ++ [⟨n, pid, payload⟩] }

/-- A message reaches its receiver; it may do so again. -/
def deliver (i : Nat) (now : ℚ) (o : Overlay V) : Overlay V :=
  match o.sent[i]? with
  | none => o
  | some m =>
    let r := (o.nodes m.receiver).handle c m.receiver m now
    { o.set m.receiver r.1 with sent := o.sent ++ r.2.map fun p => ⟨m.receiver, p.1, p.2⟩ }

/-- A call goes on once all its futures are done. -/
def wake (i : Nat) (now : ℚ) (o : Overlay V) : Overlay V :=
  let s := o.nodes n
  match s.waiting[i]? with
  | none => o
  | some w =>
    if w.rpcIds.all fun r => (s.done.get? r).isSome then
      match w with
      | .ping _ pid _ => o.set n ((s.ended i w).meet c n pid ⟨none, none⟩ now)
      | .findValue key lookup ids => (o.set n (s.ended i w)).finishRound c n key now lookup (s.results ids)
    else o

/-- A call times out; a peer that did not answer a ping leaves its bucket, line 1221. -/
def timeout (i : Nat) (o : Overlay V) : Overlay V :=
  let s := o.nodes n
  match s.waiting[i]? with
  | none => o
  | some (.ping b pid r) =>
    let s := s.ended i (.ping b pid r)
    o.set n { s with table := s.table.insert b ((bucketAt s.table b).filter fun p => p.id ≠ pid) }
  | some (.findValue key lookup ids) => o.set n (s.ended i (.findValue key lookup ids))

/-- `_ping`, line 1113, to its wait. -/
def ping (bucket : Nat) (peerId : String) (now : ℚ) (o : Overlay V) : Overlay V :=
  let s := o.nodes n
  { o.set n { s with
      pending := s.pending ++ [o.nextRpc]
      created := s.created.insert o.nextRpc now
      waiting := s.waiting ++ [.ping bucket peerId o.nextRpc] } with
    sent := o.sent ++ [⟨n, peerId, .ping o.nextRpc⟩]
    nextRpc := o.nextRpc + 1 }

def step (o : Overlay V) : OverlayEvent V → Overlay V
  | .store n key value now => o.store c n key value now
  | .findValue n key now => o.findValue c n key now
  | .send n i now => o.send c n i now
  | .deliver i now => o.deliver c i now
  | .wake n i now => o.wake c n i now
  | .timeout n i => o.timeout n i
  | .refresh n now => o.set n ((o.nodes n).cleanup now)
  | .ping n bucket peerId now => o.ping n bucket peerId now
  | .meet n peerId info now => o.set n ((o.nodes n).meet c n peerId info now)

/-- The overlay after some events, from nodes that have just been made. -/
def run (events : List (OverlayEvent V)) : Overlay V := events.foldl (step c) {}

end Overlay

/-! ### The store of a node -/

section Store

variable {d : DataStore V} {key j : String} {v : V} {e : V × ℚ} {now : ℚ}

theorem get?_localPut (h : (localPut d key v now).get? j = some e) : j = key ∧ e = (v, now) ∨ d.get? j = some e := by
  have hput : ((d.insert key (v, now)).moveToEnd key).get? j = some e := by
    rw [localPut] at h
    split at h
    · exact Dict.get?_of_popFirst h
    · exact h
  rw [Dict.get?_moveToEnd, Dict.get?_insert] at hput
  split at hput
  · next heq => exact .inl ⟨heq.symm, (Option.some.inj hput).symm⟩
  · exact .inr hput

theorem get?_localGet (h : (localGet d key now).2.get? j = some e) : d.get? j = some e := by
  rw [localGet] at h
  split at h
  · exact h
  · split at h
    · rw [Dict.get?_erase] at h
      split at h
      · cases h
      · exact h
    · rwa [Dict.get?_moveToEnd] at h

theorem get?_of_localGet (h : (localGet d key now).1 = some v) : ∃ ts, d.get? key = some (v, ts) := by
  rw [localGet] at h
  split at h
  · cases h
  · next w ts hget =>
    split at h
    · cases h
    · obtain rfl : w = v := Option.some.inj h
      exact ⟨ts, hget⟩

end Store

/-! ### Sizes -/

section Sizes

variable {d : DataStore V}

theorem size_le_of_get? {d' : DataStore V} (h : ∀ k e, d'.get? k = some e → d.get? k = some e) : d'.size ≤ d.size := by
  rw [← Dict.length_keys, ← Dict.length_keys]
  refine (List.subperm_of_subset d'.nodup fun k hk => ?_).length_le
  obtain ⟨e, he⟩ := Option.isSome_iff_exists.1 (Dict.mem_keys_iff.1 hk)
  exact Dict.mem_keys_of_get? (h k e he)

theorem size_localGet_le (d : DataStore V) (key : String) (now : ℚ) : (localGet d key now).2.size ≤ d.size :=
  size_le_of_get? fun _ _ => get?_localGet

theorem size_localPut_le (h : d.size ≤ 10000) (key : String) (v : V) (now : ℚ) :
    (localPut d key v now).size ≤ 10000 := by
  have hmove : ((d.insert key (v, now)).moveToEnd key).size ≤ (d.insert key (v, now)).size :=
    size_le_of_get? fun k e he => by rwa [Dict.get?_moveToEnd] at he
  have hinsert : (d.insert key (v, now)).size ≤ d.size + 1 := by
    rw [Dict.size_insert]
    split <;> omega
  rw [localPut]
  split
  · rw [← Dict.length_keys, Dict.keys_popFirst, List.length_tail, Dict.length_keys]
    omega
  · omega

theorem mem_keys_foldl_erase {ids : List Nat} {times : Dict Nat ℚ} {r : Nat} :
    r ∈ (ids.foldl Dict.erase times).keys ↔ r ∈ times.keys ∧ r ∉ ids := by
  induction ids generalizing times with
  | nil => simp
  | cons id ids ih =>
    rw [List.foldl_cons, ih, Dict.mem_keys_erase, List.mem_cons]
    tauto

theorem length_filter_notMem {l ids : List Nat} (hl : l.Nodup) (hids : ids.Nodup) (hsub : ids ⊆ l) :
    (l.filter fun r => decide (r ∉ ids)).length = l.length - ids.length := by
  have hperm : (l.filter fun r => decide (r ∈ ids)).Perm ids := by
    rw [List.perm_ext_iff_of_nodup (hl.filter _) hids]
    intro r
    rw [List.mem_filter, decide_eq_true_iff, and_iff_right_iff_imp]
    exact fun hr => hsub hr
  have hsplit := List.length_eq_length_filter_add (l := l) fun r => decide (r ∈ ids)
  rw [hperm.length_eq] at hsplit
  simp only [decide_not]
  omega

theorem KademliaNode.Valid.filterBucket {c : KademliaNode String} {table : RoutingTable String} (h : c.Valid table)
    (b : Nat) (keep : Peer String → Bool) : c.Valid (table.insert b ((bucketAt table b).filter keep)) := by
  have hsub i : (bucketAt (table.insert b ((bucketAt table b).filter keep)) i).Sublist (bucketAt table i) := by
    rw [bucketAt_insert]
    split
    · next hi => exact hi ▸ List.filter_sublist
    · exact List.Sublist.refl _
  exact ⟨fun i => (hsub i).length_le.trans (h.size i), fun i => (h.nodup i).sublist ((hsub i).map _),
    fun i p hp => h.index i p ((hsub i).mem hp), fun i p hp => h.foreign i p ((hsub i).mem hp)⟩

end Sizes

/-! ### The invariant -/

section Invariant

variable {c : OverlayConfig V} {P : String → V → Prop} {f g : Nat → String} {n : String} {next next' r : Nat}
  {now : ℚ}

/-- A value is one for the key of the call that it answers. -/
def Answer.Ok (P : String → V → Prop) (f : Nat → String) (next r : Nat) : Answer V → Prop
  | .value v => r < next ∧ P (f r) v
  | .nodes _ => True

def Payload.Ok (P : String → V → Prop) (f : Nat → String) (next : Nat) : Payload V → Prop
  | .store key v => P key v
  | .findValue key r => r < next ∧ f r = key
  | .findValueResp r a => a.Ok P f next r
  | _ => True

def Waiting.Ok (f : Nat → String) (next : Nat) : Waiting → Prop
  | .ping .. => True
  | .findValue key _ ids => ∀ r ∈ ids, r < next ∧ f r = key

/-- Where `f` gives the key of each call before `next`, a node holds, has been told and sends values that `P` has for
their keys, and stays in its bounds: a pending call has its time, unless it is done, and somebody waits for it. -/
structure NodeState.Ok (c : OverlayConfig V) (P : String → V → Prop) (f : Nat → String) (n : String) (next : Nat)
    (s : NodeState V) : Prop where
  held : ∀ key e, s.dataStore.get? key = some e → P key e.1
  told : ∀ r a, s.done.get? r = some (.resp a) → a.Ok P f next r
  outbox : ∀ t ∈ s.outbox, t.2.Ok P f next
  waiting : ∀ w ∈ s.waiting, w.Ok f next
  valid : (c.node n).Valid s.table
  size : s.dataStore.size ≤ 10000
  nodup : s.pending.Nodup
  fresh : ∀ r ∈ s.pending, r < next
  created : ∀ r ∈ s.created.keys, r ∈ s.pending
  timed : ∀ r ∈ s.pending, s.done.get? r = none → r ∈ s.created.keys
  owned : ∀ r ∈ s.pending, ∃ w ∈ s.waiting, r ∈ w.rpcIds

structure Overlay.Ok (c : OverlayConfig V) (P : String → V → Prop) (f : Nat → String) (o : Overlay V) : Prop where
  nodes : ∀ n, (o.nodes n).Ok c P f n o.nextRpc
  sent : ∀ m ∈ o.sent, m.payload.Ok P f o.nextRpc
  answers : ∀ a ∈ o.answers, P a.1 a.2

theorem Answer.Ok.mono {a : Answer V} (h : a.Ok P f next r) (hle : next ≤ next') (heq : ∀ r < next, g r = f r) :
    a.Ok P g next' r := by
  cases a with
  | value v => exact ⟨h.1.trans_le hle, heq r h.1 ▸ h.2⟩
  | nodes ids => trivial

theorem Payload.Ok.mono {p : Payload V} (h : p.Ok P f next) (hle : next ≤ next') (heq : ∀ r < next, g r = f r) :
    p.Ok P g next' := by
  cases p with
  | store key v => exact h
  | findValue key r => exact ⟨h.1.trans_le hle, (heq r h.1).trans h.2⟩
  | findValueResp r a => exact Answer.Ok.mono h hle heq
  | ping r => trivial
  | pong r => trivial

theorem Waiting.Ok.mono {w : Waiting} (h : w.Ok f next) (hle : next ≤ next') (heq : ∀ r < next, g r = f r) :
    w.Ok g next' := by
  cases w with
  | ping b pid r => trivial
  | findValue key lookup ids => exact fun r hr => ⟨(h r hr).1.trans_le hle, (heq r (h r hr).1).trans (h r hr).2⟩

namespace NodeState.Ok

variable {s : NodeState V}

theorem mono (h : s.Ok c P f n next) (hle : next ≤ next') (heq : ∀ r < next, g r = f r) : s.Ok c P g n next' :=
  { h with
    told := fun r a hr => (h.told r a hr).mono hle heq
    outbox := fun t ht => (h.outbox t ht).mono hle heq
    waiting := fun w hw => (h.waiting w hw).mono hle heq
    fresh := fun r hr => (h.fresh r hr).trans_le hle }

theorem meet (h : s.Ok c P f n next) (pid : String) (info : PeerInfo) : (s.meet c n pid info now).Ok c P f n next :=
  { h with valid := h.valid.updateRouting pid info now }

theorem meetSender (h : s.Ok c P f n next) (sender : String) (now : ℚ) :
    (s.meetSender c n sender now).Ok c P f n next := by
  rw [NodeState.meetSender]
  split
  · exact h
  · exact h.meet sender _

theorem settle (h : s.Ok c P f n next) {reply : Reply V} (hreply : ∀ a, reply = .resp a → a.Ok P f next r) :
    (s.settle r reply).Ok c P f n next := by
  rw [NodeState.settle]
  split
  · refine { h with
      told := fun j a ha => ?_
      created := fun j hj => h.created j (Dict.mem_keys_erase.1 hj).2
      timed := fun j hj hdone => ?_ }
    · rw [Dict.get?_insert] at ha
      split at ha
      · next heq => exact heq ▸ hreply a (Option.some.inj ha)
      · exact h.told j a ha
    · rw [Dict.get?_insert] at hdone
      split at hdone
      · cases hdone
      · next hne => exact Dict.mem_keys_erase.2 ⟨Ne.symm hne, h.timed j hj hdone⟩
  · exact h

theorem forget (h : s.Ok c P f n next) (ids : List Nat) : (s.forget ids).Ok c P f n next :=
  { h with
    nodup := h.nodup.filter _
    fresh := fun r hr => h.fresh r (List.mem_filter.1 hr).1
    created := fun r hr => by
      obtain ⟨hr, hids⟩ := mem_keys_foldl_erase.1 hr
      exact List.mem_filter.2 ⟨h.created r hr, decide_eq_true hids⟩
    timed := fun r hr hdone => by
      obtain ⟨hr, hids⟩ := List.mem_filter.1 hr
      exact mem_keys_foldl_erase.2 ⟨h.timed r hr hdone, of_decide_eq_true hids⟩
    owned := fun r hr => h.owned r (List.mem_filter.1 hr).1 }

theorem cleanup (h : s.Ok c P f n next) (now : ℚ) : (s.cleanup now).Ok c P f n next := by
  rw [NodeState.cleanup]
  split
  · exact (h.forget _).forget _
  · exact h.forget _

/-- The oldest calls that are still open make room, and all of these have their time. -/
theorem length_cleanup_le (h : s.Ok c P f n next) : (s.cleanup now).pending.length ≤ 5000 := by
  have h' := h.forget (s.expired now)
  have hopen : ∀ r ∈ (s.forget (s.expired now)).pending, (s.forget (s.expired now)).done.get? r = none := by
    intro r hr
    obtain ⟨hr, hexpired⟩ := List.mem_filter.1 hr
    by_contra hdone
    refine of_decide_eq_true hexpired (List.mem_filter.2 ⟨hr, ?_⟩)
    exact Bool.or_eq_true_iff.2 (.inl (Option.isSome_iff_ne_none.2 hdone))
  rw [NodeState.cleanup]
  generalize s.forget (s.expired now) = t at h' hopen
  split
  · have hperm : t.created.keys.Perm t.pending := (List.perm_ext_iff_of_nodup t.created.nodup h'.nodup).2 fun r =>
      ⟨h'.created r, fun hr => h'.timed r hr (hopen r hr)⟩
    have hsorted := ((List.mergeSort_perm t.created.entries fun a b => decide (a.2 ≤ b.2)).map Prod.fst).trans hperm
    rw [NodeState.forget, length_filter_notMem h'.nodup ((hsorted.nodup_iff.2 h'.nodup).sublist (List.take_sublist ..))
      fun r hr => hsorted.mem_iff.1 (List.mem_of_mem_take hr), List.length_take, hsorted.length_eq]
    omega
  · next hle => exact not_lt.1 hle

/-- A call that has ended takes its futures along. -/
theorem ended (h : s.Ok c P f n next) {i : Nat} {w : Waiting} (hi : s.waiting[i]? = some w) :
    (s.ended i w).Ok c P f n next := by
  refine { h.forget w.rpcIds with
    waiting := fun w hw => h.waiting w (List.mem_of_mem_eraseIdx hw)
    owned := fun r hr => ?_ }
  obtain ⟨hr, hids⟩ := List.mem_filter.1 hr
  obtain ⟨w', hw', hr'⟩ := h.owned r hr
  obtain ⟨j, hj⟩ := List.mem_iff_getElem?.1 hw'
  refine ⟨w', List.mem_eraseIdx_iff_getElem?.2 ⟨j, ?_, hj⟩, hr'⟩
  rintro rfl
  rw [hi] at hj
  cases hj
  exact of_decide_eq_true hids hr'

theorem put (h : s.Ok c P f n next) {key : String} {v : V} (hv : P key v) (now : ℚ) :
    { s with dataStore := localPut s.dataStore key v now }.Ok c P f n next := by
  refine { h with held := fun j e he => ?_, size := size_localPut_le h.size _ _ _ }
  obtain ⟨rfl, rfl⟩ | he := get?_localPut he
  · exact hv
  · exact h.held j e he

/-- What a node finds under a key, and the node without what is too old. -/
theorem get (h : s.Ok c P f n next) {key : String} {found : Option V} {store : DataStore V}
    (hlocal : localGet s.dataStore key now = (found, store)) :
    (∀ v, found = some v → P key v) ∧ { s with dataStore := store }.Ok c P f n next := by
  have hstore : (localGet s.dataStore key now).2 = store := by rw [hlocal]
  refine ⟨fun v hv => ?_, { h with held := fun j e he => ?_, size := ?_ }⟩
  · have hfound : (localGet s.dataStore key now).1 = some v := by rw [hlocal, hv]
    obtain ⟨ts, hget⟩ := get?_of_localGet hfound
    exact h.held key _ hget
  · exact h.held j e (get?_localGet (hstore ▸ he))
  · exact hstore ▸ (size_localGet_le _ key now).trans h.size

/-- Calls begin, and their caller waits. -/
theorem call (h : s.Ok c P f n next) {w : Waiting} {count : Nat} (hids : w.rpcIds = List.range' next count)
    (hw : w.Ok f (next + count)) {created : Dict Nat ℚ}
    (hcreated : ∀ r, r ∈ created.keys ↔ r ∈ s.created.keys ∨ r ∈ w.rpcIds) {outbox : List (String × Payload V)}
    (houtbox : ∀ t ∈ outbox, t ∈ s.outbox ∨ t.2.Ok P f (next + count)) :
    { s with pending := s.pending ++ w.rpcIds, created := created, outbox := outbox,
             waiting := s.waiting ++ [w] }.Ok c P f n (next + count) := by
  have h' := h.mono (Nat.le_add_right next count) fun _ _ => rfl
  refine { h' with
    outbox := fun t ht => (houtbox t ht).elim (h'.outbox t) id
    waiting := fun w' hw' => ?_
    nodup := ?_
    fresh := fun r hr => ?_
    created := fun r hr => List.mem_append.2 (((hcreated r).1 hr).imp_left (h.created r))
    timed := fun r hr hdone => (hcreated r).2 ((List.mem_append.1 hr).imp_left fun hr => h.timed r hr hdone)
    owned := fun r hr => ?_ }
  · obtain hw' | hw' := List.mem_append.1 hw'
    · exact h'.waiting w' hw'
    · exact List.mem_singleton.1 hw' ▸ hw
  · rw [hids]
    refine h.nodup.append List.nodup_range' fun r hr hnew => ?_
    exact (h.fresh r hr).not_ge (List.mem_range'_1.1 hnew).1
  · rw [hids, List.mem_append, List.mem_range'_1] at hr
    exact hr.elim (h'.fresh r) And.right
  · obtain hr | hr := List.mem_append.1 hr
    · obtain ⟨w', hw', hr'⟩ := h.owned r hr
      exact ⟨w', List.mem_append_left _ hw', hr'⟩
    · exact ⟨w, List.mem_append_right _ (List.mem_singleton_self w), hr⟩

theorem handle (h : s.Ok c P f n next) {m : Message V} (hm : m.payload.Ok P f next) (now : ℚ) :
    (s.handle c n m now).1.Ok c P f n next ∧ ∀ t ∈ (s.handle c n m now).2, t.2.Ok P f next := by
  have hs := h.meetSender m.sender now
  rw [NodeState.handle]
  split
  · split
    · exact ⟨h, by simp⟩
    · exact ⟨hs, by simp [Payload.Ok]⟩
  · exact ⟨hs.settle (by simp), by simp⟩
  · next hpayload =>
    rw [hpayload] at hm
    have hput := h.put hm now
    exact ⟨{ hs with held := hput.held, size := hput.size }, by simp⟩
  · next key r hpayload =>
    rw [hpayload] at hm
    split
    · exact ⟨h, by simp⟩
    · dsimp only
      split
      · next v store hlocal =>
        obtain ⟨hv, hget⟩ := hs.get hlocal
        exact ⟨hget, by simpa [Payload.Ok, Answer.Ok, hm.2] using ⟨hm.1, hv v rfl⟩⟩
      · next store hlocal => exact ⟨(hs.get hlocal).2, by simp [Payload.Ok, Answer.Ok]⟩
  · next r a hpayload =>
    rw [hpayload] at hm
    refine ⟨hs.settle fun a' ha => ?_, by simp⟩
    cases ha
    exact hm

end NodeState.Ok

theorem mem_of_processResults {queried shortlist shortlist' : List String} {v : V} : ∀ {results : List (Answer V)},
    processResults queried results shortlist = (some v, shortlist') → Answer.value v ∈ results
  | [], h => by cases h
  | .value w :: rest, h => by
    obtain rfl : w = v := Option.some.inj (congrArg Prod.fst h)
    exact List.mem_cons_self
  | .nodes ids :: rest, h => List.mem_cons_of_mem _ (mem_of_processResults h)

namespace Overlay.Ok

variable {key : String} {o : Overlay V} {s : NodeState V} {v : V} {i : Nat}

/-- A node changes, messages are sent and calls begin. -/
theorem update (h : o.Ok c P f) (hle : o.nextRpc ≤ next') (heq : ∀ r < o.nextRpc, g r = f r)
    (hs : s.Ok c P g n next') {l : List (Message V)} (hl : ∀ m ∈ l, m ∈ o.sent ∨ m.payload.Ok P g next') :
    Overlay.Ok c P g ⟨(o.set n s).nodes, l, next', o.answers⟩ := by
  refine ⟨?_, fun m hm => (hl m hm).elim (fun hm => (h.sent m hm).mono hle heq) id, h.answers⟩
  intro m
  rw [Overlay.set]
  dsimp only
  rw [Function.update_apply]
  split
  · next hm => exact hm ▸ hs
  · exact (h.nodes m).mono hle heq

theorem set (h : o.Ok c P f) (hs : s.Ok c P f n o.nextRpc) : (o.set n s).Ok c P f :=
  h.update le_rfl (fun _ _ => rfl) hs fun _ => .inl

theorem answer (h : o.Ok c P f) (hv : P key v) : (o.answer key v).Ok c P f := by
  refine ⟨h.nodes, h.sent, ?_⟩
  intro a ha
  obtain ha | ha := List.mem_append.1 ha
  · exact h.answers a ha
  · rw [List.mem_singleton.1 ha]
    exact hv

theorem enterRound (h : o.Ok c P f) (lookup : Lookup) : ∃ g, (o.enterRound c n key now lookup).Ok c P g := by
  rw [Overlay.enterRound]
  dsimp only
  split
  · exact ⟨f, h⟩
  · generalize (c.node n).newPeers (c.alpha n) lookup = new
    -- the new calls are all for `key`
    have hold : ∀ r < o.nextRpc, (if r < o.nextRpc then f r else key) = f r := fun r hr => if_pos hr
    have hnew : ∀ r ∈ List.range' o.nextRpc new.length,
        r < o.nextRpc + new.length ∧ (if r < o.nextRpc then f r else key) = key := by
      intro r hr
      rw [List.mem_range'_1] at hr
      exact ⟨hr.2, if_neg (by omega)⟩
    have hn := (h.nodes n).mono le_rfl hold
    refine ⟨_, h.update (Nat.le_add_right _ _) hold (hn.call (w := .findValue key _ _) rfl hnew (fun r => ?_)
      fun t ht => (List.mem_append.1 ht).imp_right fun ht => ?_) fun _ => .inl⟩
    · simp [Dict.mem_keys_insertAll, Waiting.rpcIds]
    · obtain ⟨p, hp, rfl⟩ := List.mem_map.1 ht
      exact hnew p.2 (List.of_mem_zip hp).2

theorem finishRound (h : o.Ok c P f) (lookup : Lookup) {results : List (Answer V)}
    (hresults : ∀ v, Answer.value v ∈ results → P key v) :
    ∃ g, (o.finishRound c n key now lookup results).Ok c P g := by
  rw [Overlay.finishRound]
  split
  · next v _ heq =>
    have hv := hresults v (mem_of_processResults heq)
    exact ⟨f, (h.set ((h.nodes n).put hv now)).answer hv⟩
  · exact h.enterRound _

theorem store (h : o.Ok c P f) (hv : P key v) : (o.store c n key v now).Ok c P f := by
  have hn := (h.nodes n).put hv now
  refine h.set { hn with outbox := fun t ht => ?_ }
  obtain ht | ht := List.mem_append.1 ht
  · exact hn.outbox t ht
  · obtain ⟨pid, _, rfl⟩ := List.mem_map.1 ht
    exact hv

theorem findValue (h : o.Ok c P f) : ∃ g, (o.findValue c n key now).Ok c P g := by
  have hn := (h.nodes n).cleanup now
  rw [Overlay.findValue]
  split
  · next v store hlocal =>
    obtain ⟨hv, hget⟩ := hn.get hlocal
    exact ⟨f, (h.set hget).answer (hv v rfl)⟩
  · next store hlocal => exact (h.set (hn.get hlocal).2).enterRound _

theorem send (h : o.Ok c P f) : (o.send c n i now).Ok c P f := by
  rw [Overlay.send]
  split
  · exact h
  · next pid payload hi =>
    have hn := h.nodes n
    have hs : { o.nodes n with outbox := (o.nodes n).outbox.eraseIdx i }.Ok c P f n o.nextRpc :=
      { hn with outbox := fun t ht => hn.outbox t (List.mem_of_mem_eraseIdx ht) }
    dsimp only
    split
    · exact h.set hs
    · refine h.update le_rfl (fun _ _ => rfl) (hs.meet pid _) fun m hm => ?_
      refine (List.mem_append.1 hm).imp_right fun hm => ?_
      rw [List.mem_singleton.1 hm]
      exact hn.outbox _ (List.mem_of_getElem? hi)

theorem deliver (h : o.Ok c P f) : (o.deliver c i now).Ok c P f := by
  rw [Overlay.deliver]
  split
  · exact h
  · next m hi =>
    obtain ⟨hs, hsent⟩ := (h.nodes m.receiver).handle (h.sent m (List.mem_of_getElem? hi)) now
    refine h.update le_rfl (fun _ _ => rfl) hs fun m' hm' => ?_
    refine (List.mem_append.1 hm').imp_right fun hm' => ?_
    obtain ⟨t, ht, rfl⟩ := List.mem_map.1 hm'
    exact hsent t ht

theorem wake (h : o.Ok c P f) : ∃ g, (o.wake c n i now).Ok c P g := by
  rw [Overlay.wake]
  split
  · exact ⟨f, h⟩
  · next w hi =>
    have hw := (h.nodes n).waiting w (List.mem_of_getElem? hi)
    have hn := (h.nodes n).ended hi
    split
    · cases w with
      | ping b pid r => exact ⟨f, h.set (hn.meet pid _)⟩
      | findValue key lookup ids =>
        refine (h.set hn).finishRound lookup fun v hv => ?_
        obtain ⟨r, hr, heq⟩ := List.mem_filterMap.1 hv
        split at heq
        · next a hdone =>
          cases heq
          have hv := (h.nodes n).told r _ hdone
          exact (hw r hr).2 ▸ hv.2
        · cases heq
    · exact ⟨f, h⟩

theorem timeout (h : o.Ok c P f) : (o.timeout n i).Ok c P f := by
  rw [Overlay.timeout]
  split
  · exact h
  · next b pid r hi =>
    have hn := (h.nodes n).ended hi
    exact h.set { hn with valid := hn.valid.filterBucket b _ }
  · next hi => exact h.set ((h.nodes n).ended hi)

theorem ping (h : o.Ok c P f) (b : Nat) (pid : String) : (o.ping n b pid now).Ok c P f := by
  refine h.update (Nat.le_add_right _ _) (fun _ _ => rfl) ((h.nodes n).call (w := .ping b pid o.nextRpc) rfl
    trivial (fun r => ?_) fun _ => .inl) fun m hm => (List.mem_append.1 hm).imp_right fun hm => ?_
  · rw [Dict.mem_keys_insert, Waiting.rpcIds, List.mem_singleton, or_comm]
  · rw [List.mem_singleton.1 hm]
    trivial

/-- Only the value of an event that stores is new. -/
theorem step (h : o.Ok c P f) (e : OverlayEvent V) (he : ∀ n key v now, e = .store n key v now → P key v) :
    ∃ g, (o.step c e).Ok c P g := by
  cases e with
  | store n key v now => exact ⟨f, h.store (he n key v now rfl)⟩
  | findValue n key now => exact h.findValue
  | send n i now => exact ⟨f, h.send⟩
  | deliver i now => exact ⟨f, h.deliver⟩
  | wake n i now => exact h.wake
  | timeout n i => exact ⟨f, h.timeout⟩
  | refresh n now => exact ⟨f, h.set ((h.nodes n).cleanup now)⟩
  | ping n b pid now => exact ⟨f, h.ping b pid⟩
  | meet n pid info now => exact ⟨f, h.set ((h.nodes n).meet pid info)⟩

theorem run (c : OverlayConfig V) (events : List (OverlayEvent V)) :
    ∃ f, (Overlay.run c events).Ok c (fun key v => ∃ n now, .store n key v now ∈ events) f := by
  refine List.foldlRecOn (motive := fun o => ∃ f, Overlay.Ok c _ f o) events (Overlay.step c) ?_ ?_
  · exact ⟨fun _ => "", fun _ => ⟨nofun, nofun, nofun, nofun, KademliaNode.valid_empty, Nat.zero_le _, List.nodup_nil,
      nofun, nofun, nofun, nofun⟩, nofun, nofun⟩
  · rintro o ⟨f, h⟩ e he
    refine h.step e ?_
    rintro n key v now rfl
    exact ⟨n, now, he⟩

end Overlay.Ok

end Invariant

/-- Whatever arrives when, a value that a call of `find_value` returns, or that a node holds, has been put in under
its key by a call of `store`. -/
theorem overlay_values_were_stored (c : OverlayConfig V) (events : List (OverlayEvent V)) :
    (∀ key v, (key, v) ∈ (Overlay.run c events).answers → ∃ n now, .store n key v now ∈ events) ∧
      ∀ m key e, ((Overlay.run c events).nodes m).dataStore.get? key = some e →
        ∃ n now, .store n key e.1 now ∈ events := by
  obtain ⟨f, h⟩ := Overlay.Ok.run c events
  exact ⟨fun key v hv => h.answers (key, v) hv, fun m => (h.nodes m).held⟩

/-- Whatever arrives when, the tables of a node keep their bounds, a node where no call waits has no open calls, and a
clean-up leaves at most 5 000. -/
theorem overlay_nodes_stay_bounded (c : OverlayConfig V) (events : List (OverlayEvent V)) (n : String) :
    let s := (Overlay.run c events).nodes n
    (c.node n).Valid s.table ∧ s.dataStore.size ≤ 10000 ∧ (s.waiting = [] → s.pending = [] ∧ s.created.keys = []) ∧
      ∀ now, (s.cleanup now).pending.length ≤ 5000 := by
  intro s
  obtain ⟨f, h⟩ := Overlay.Ok.run c events
  have h : s.Ok c _ f n _ := h.nodes n
  refine ⟨h.valid, h.size, fun hwaiting => ?_, fun now => h.length_cleanup_le⟩
  have hpending : s.pending = [] := by
    refine List.eq_nil_iff_forall_not_mem.2 fun r hr => ?_
    obtain ⟨w, hw, _⟩ := h.owned r hr
    rw [hwaiting] at hw
    cases hw
  refine ⟨hpending, List.eq_nil_iff_forall_not_mem.2 fun r hr => ?_⟩
  have hr := h.created r hr
  rw [hpending] at hr
  cases hr

end Hledac.Dht
