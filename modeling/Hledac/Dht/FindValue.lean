import Hledac.Dht.Routing

/-!
# The iterative lookup of a value

`find_value` of `src/dht/kademlia_node.py`. In each round it queries the first entries of its shortlist that it
has not queried yet, waits for all of them together, adds the nodes they name and cuts the sorted shortlist to `k`
entries. The shortlist keeps queried peers and names that come twice. The lookup always ends. It ends too early
where a silent peer ends the wait for the others, where queried peers fill the window, and where entries of the
shortlist that are no use push out a peer; in a run without these the closest peers have all been queried.
-/

namespace Hledac.Dht

open Hledac.Lib

variable {V : Type}

/-! ### The store -/

/-- `data_store`: values with the time they were put, the latest last. -/
abbrev DataStore (V : Type) := Dict String (V × ℚ)

/-- `_local_put`, line 973; `data_store_max` is 10 000. -/
def localPut (store : DataStore V) (key : String) (value : V) (now : ℚ) : DataStore V :=
  let store := (store.insert key (value, now)).moveToEnd key
  if 10000 < store.size then store.popFirst else store

/-- `_local_get`, line 979; `data_store_ttl` is 3 600 seconds. -/
def localGet (store : DataStore V) (key : String) (now : ℚ) : Option V × DataStore V :=
  match store.get? key with
  | none => (none, store)
  | some (value, ts) => if 3600 < now - ts then (none, store.erase key) else (some value, store.moveToEnd key)

/-! ### The network -/

/-- The answer of a peer: the value, or the ids of nodes, empty where a node has none. -/
inductive Answer (V : Type) where
  | value (v : V)
  | nodes (ids : List String)

/-- The peers that answer, within the three seconds of a round; the others never do. -/
abbrev Network (V : Type) := Dict String (Answer V)

/-- The nodes that some peers name in their answers. -/
def named (network : Network V) (pids : List String) : List String :=
  pids.flatMap fun pid =>
    match network.get? pid with
    | some (.nodes ids) => ids.filter fun id => id ≠ ""
    | _ => []

/-! ### The lookup -/

/-- The state of `find_value`. The ids of all nodes it has heard of, other than the own one, are kept as well, once
each. -/
structure Lookup where
  shortlist : List String
  queried : List String
  learned : List String
  deriving DecidableEq

/-- Ids that are heard of for the first time. -/
def learn (own : String) (learned ids : List String) : List String :=
  ids.foldl (fun learned id => if id = own ∨ id ∈ learned then learned else learned ++ [id]) learned

/-- The peers that `_launch_find_value_rpcs` queries, of those in its window; line 1043. The future of
a call is taken to be created with its name. -/
def launch (own : String) (queried : List String) : List String → List String
  | [] => []
  | pid :: rest =>
    if pid ∈ queried ∨ pid = own then launch own queried rest
    else pid :: launch own (queried ++ [pid]) rest

/-- `_await_find_value_results`, line 1072: the answers in the order of the calls, or none when the
timeout for all of them strikes. -/
def awaitResults (network : Network V) (pids : List String) : Option (List (Answer V)) :=
  if pids.all fun pid => (network.get? pid).isSome then some (pids.filterMap network.get?) else none

/-- `_process_find_value_results`, line 1091: a value, or none and the longer shortlist. -/
def processResults (queried : List String) : List (Answer V) → List String → Option V × List String
  | [], shortlist => (none, shortlist)
  | .value v :: _, shortlist => (some v, shortlist)
  | .nodes ids :: rest, shortlist =>
    processResults queried rest (shortlist ++ ids.filter fun id => id ≠ "" ∧ id ∉ queried)

/-- How a round ends. -/
inductive Round (V : Type) where
  | stop (result : Option V) (s : Lookup)
  | go (s : Lookup)

namespace KademliaNode

variable (c : KademliaNode String) (alpha : Nat) (network : Network V) (key : String)

/-- `_prune_shortlist`; line 1108. -/
def pruneShortlist (shortlist : List String) : List String := leastOf (fun id => c.distance id key) shortlist c.k

/-- The peers that a round queries. -/
def newPeers (s : Lookup) : List String := launch c.nodeId s.queried (s.shortlist.take alpha)

/-- One pass of the loop of `find_value`; lines 1030-1040. -/
def round (s : Lookup) : Round V :=
  let new := c.newPeers alpha s
  if new = [] then .stop none s
  else
    let queried := s.queried ++ new
    let learned := learn c.nodeId s.learned (named network new)
    match awaitResults network new with
    | none => .stop none ⟨s.shortlist, queried, learned⟩
    | some results =>
      match processResults queried results s.shortlist with
      | (some v, shortlist) => .stop (some v) ⟨shortlist, queried, learned⟩
      | (none, shortlist) => .go ⟨c.pruneShortlist key shortlist, queried, learned⟩

/-- The loop of `find_value`, with a bound on its passes. -/
def lookupLoop : Nat → Lookup → Option (Option V × Lookup)
  | 0, _ => none
  | fuel + 1, s =>
    if s.shortlist = [] then some (none, s)
    else match c.round alpha network key s with
      | .stop result s => some (result, s)
      | .go s => lookupLoop fuel s

/-- The states before the rounds of the loop. -/
def rounds : Nat → Lookup → List Lookup
  | 0, _ => []
  | fuel + 1, s =>
    if s.shortlist = [] then []
    else s :: match c.round alpha network key s with
      | .stop _ _ => []
      | .go s => rounds fuel s

/-- The state in which the loop starts: the `alpha` closest peers of the table. -/
def startLookup (table : RoutingTable String) : Lookup :=
  let shortlist := (c.findClosestNodes table key alpha).map Peer.id
  ⟨shortlist, [], learn c.nodeId [] shortlist⟩

/-- What `find_value` returns and leaves behind. -/
structure Outcome (V : Type) where
  result : Option V
  store : DataStore V
  lookup : Lookup

/-- `find_value`, line 1023, started at `now`; a value found is put at `later`. More passes than there
are peers that answer are never needed. -/
def findValue (table : RoutingTable String) (store : DataStore V) (now later : ℚ) : Option (Outcome V) :=
  match localGet store key now with
  | (some v, store) => some ⟨some v, store, ⟨[], [], []⟩⟩
  | (none, store) =>
    (c.lookupLoop alpha network key (network.size + 1) (c.startLookup alpha key table)).map fun (result, s) =>
      match result with
      | some v => ⟨some v, localPut store key v later, s⟩
      | none => ⟨none, store, s⟩

/-! ### What a round is to do -/

/-- How many other nodes it has heard of are at most as far from the key. -/
def nearer (s : Lookup) (p : String) : Nat :=
  (s.learned.filter fun q => q ≠ p ∧ c.distance q key ≤ c.distance p key).length

/-- The `k` closest of the nodes heard of have been queried: one that has not has `k` others before it. -/
def Complete (s : Lookup) : Prop := ∀ p ∈ s.learned, p ∉ s.queried → c.k ≤ c.nearer key s p

/-- The shortlist with all nodes that the answers of the round name. -/
def found (s : Lookup) : List String :=
  let new := c.newPeers alpha s
  s.shortlist ++ (named network new).filter fun id => id ∉ s.queried ++ new

/-- The shortlist that the round leaves, or would leave if it went on. -/
def kept (s : Lookup) : List String := c.pruneShortlist key (c.found alpha network s)

/-- A peer that is cut off is of no use, or `k` different peers come before it. -/
def CutsRightly (s : Lookup) : Prop :=
  (∀ p ∈ c.found alpha network s, p ∈ c.kept alpha network key s ∨ p = c.nodeId ∨
    p ∈ s.queried ++ c.newPeers alpha s) ∨
  (c.kept alpha network key s).Nodup ∧ c.nodeId ∉ c.kept alpha network key s

/-- A round with nobody to query, or with a peer that never answers, comes when the shortlist has nobody else. -/
def EndsRightly (s : Lookup) : Prop :=
  (c.newPeers alpha s = [] ∨ ∃ p ∈ c.newPeers alpha s, network.get? p = none) →
    ∀ p ∈ c.kept alpha network key s, p = c.nodeId ∨ p ∈ s.queried ++ c.newPeers alpha s

end KademliaNode

section Facts

variable {network : Network V}

theorem mem_learn {own : String} {learned ids : List String} {p : String} :
    p ∈ learn own learned ids ↔ p ∈ learned ∨ p ∈ ids ∧ p ≠ own := by
  induction ids generalizing learned with
  | nil => simp [learn]
  | cons id ids ih =>
    rw [learn, List.foldl_cons, ← learn, ih]
    by_cases hown : id = own ∨ id ∈ learned
    · rw [if_pos hown, List.mem_cons]
      by_cases hp : p = id
      · subst hp
        simp only [true_or, true_and]
        cases hown with
        | inl h => simp [h]
        | inr h => simp [h]
      · simp [hp]
    · rw [if_neg hown, List.mem_append, List.mem_singleton, List.mem_cons]
      rw [not_or] at hown
      by_cases hp : p = id
      · subst hp
        simp [hown.1]
      · simp [hp]

theorem nodup_learn {own : String} {learned : List String} (h : learned.Nodup) (ids : List String) :
    (learn own learned ids).Nodup := by
  induction ids generalizing learned with
  | nil => exact h
  | cons id ids ih =>
    rw [learn, List.foldl_cons]
    apply ih
    split
    · exact h
    · next hnew =>
      rw [not_or] at hnew
      exact h.append (List.nodup_singleton id) (List.disjoint_singleton.2 hnew.2)

theorem of_mem_launch {own p : String} {queried pids : List String} (h : p ∈ launch own queried pids) :
    p ∉ queried ∧ p ≠ own := by
  induction pids generalizing queried with
  | nil => cases h
  | cons pid pids ih =>
    rw [launch] at h
    split at h
    · exact ih h
    · next hnew =>
      rw [not_or] at hnew
      cases List.mem_cons.1 h with
      | inl hp => exact hp ▸ hnew
      | inr hp =>
        have := ih hp
        exact ⟨fun hq => this.1 (List.mem_append_left _ hq), this.2⟩

theorem processResults_eq {queried : List String} {shortlist shortlist' : List String} {pids : List String}
    (h : processResults queried (pids.filterMap network.get?) shortlist = (none, shortlist')) :
    shortlist' = shortlist ++ (named network pids).filter fun id => id ∉ queried := by
  induction pids generalizing shortlist with
  | nil =>
    cases h
    exact (List.append_nil _).symm
  | cons pid pids ih =>
    rw [named, List.flatMap_cons, List.filter_append, ← named]
    cases hget : network.get? pid with
    | none =>
      rw [List.filterMap_cons_none hget] at h
      exact ih h
    | some answer =>
      rw [List.filterMap_cons_some hget] at h
      cases answer with
      | value v => cases h
      | nodes ids =>
        rw [processResults] at h
        rw [ih h, List.append_assoc, List.filter_filter]
        simp only [Bool.decide_and, Bool.and_comm]

end Facts

namespace KademliaNode

variable {c : KademliaNode String} {alpha : Nat} {network : Network V} {key : String} {s : Lookup}

theorem round_cases (c : KademliaNode String) (alpha : Nat) (network : Network V) (key : String) (s : Lookup) :
    let new := c.newPeers alpha s
    let queried := s.queried ++ new
    let learned := learn c.nodeId s.learned (named network new)
    new = [] ∧ c.round alpha network key s = .stop none s ∨
      (∃ p ∈ new, network.get? p = none) ∧
        c.round alpha network key s = .stop none ⟨s.shortlist, queried, learned⟩ ∨
      (∃ v shortlist, c.round alpha network key s = .stop (some v) ⟨shortlist, queried, learned⟩) ∨
      (new ≠ [] ∧ ∀ p ∈ new, p ∈ network.keys) ∧
        c.round alpha network key s = .go ⟨c.kept alpha network key s, queried, learned⟩ := by
  intro new queried learned
  by_cases hnew : new = []
  · refine .inl ⟨hnew, ?_⟩
    rw [round]
    exact if_pos hnew
  · right
    by_cases hall : new.all fun pid => (network.get? pid).isSome
    · right
      have hround : c.round alpha network key s =
          match processResults queried (new.filterMap network.get?) s.shortlist with
          | (some v, shortlist) => .stop (some v) ⟨shortlist, queried, learned⟩
          | (none, shortlist) => .go ⟨c.pruneShortlist key shortlist, queried, learned⟩ := by
        rw [round]
        simp only [awaitResults, if_neg hnew, if_pos hall, new, queried, learned]
      cases hprocess : processResults queried (new.filterMap network.get?) s.shortlist with
      | mk result shortlist =>
        rw [hprocess] at hround
        cases result with
        | some v => exact .inl ⟨v, shortlist, hround⟩
        | none =>
          refine .inr ⟨⟨hnew, ?_⟩, ?_⟩
          · intro p hp
            exact Dict.mem_keys_iff.2 (List.all_eq_true.1 hall p hp)
          · rw [hround, processResults_eq hprocess]
            rfl
    · left
      constructor
      · obtain ⟨p, hp, hsilent⟩ := List.all_eq_false.1 (Bool.eq_false_iff.2 hall)
        exact ⟨p, hp, by simpa using hsilent⟩
      · rw [round]
        simp only [awaitResults, if_neg hnew, if_neg hall, new, queried, learned]

/-! ### The lookup ends -/

/-- The peers that answer and are not queried yet. -/
def remaining (network : Network V) (s : Lookup) : Nat := (network.keys.filter fun p => p ∉ s.queried).length

theorem remaining_lt {new : List String} (shortlist learned : List String) (hne : new ≠ [])
    (hkeys : ∀ p ∈ new, p ∈ network.keys)
    (hfresh : ∀ p ∈ new, p ∉ s.queried) :
    remaining network ⟨shortlist, s.queried ++ new, learned⟩ < remaining network s := by
  have hfilter : (network.keys.filter fun p => p ∉ s.queried ++ new) =
      (network.keys.filter fun p => p ∉ s.queried).filter fun p => p ∉ new := by
    rw [List.filter_filter]
    apply List.filter_congr
    intro p _
    simp [not_or, and_comm]
  obtain ⟨p, hp⟩ := List.exists_mem_of_ne_nil new hne
  rw [remaining, remaining, hfilter]
  apply List.length_filter_lt_length_iff_exists.2
  exact ⟨p, List.mem_filter.2 ⟨hkeys p hp, by simpa using hfresh p hp⟩, by simpa using hp⟩

/-! ### No peer is given up -/

/-- What holds before each round: who has been heard of and not queried is on the shortlist, or has `k` others
before it. -/
structure Tracks (c : KademliaNode String) (key : String) (s : Lookup) : Prop where
  nodup : s.learned.Nodup
  foreign : c.nodeId ∉ s.learned
  shortlist : ∀ p ∈ s.shortlist, p = c.nodeId ∨ p ∈ s.learned
  waiting : ∀ p ∈ s.learned, p ∉ s.queried → p ∈ s.shortlist ∨ c.k ≤ c.nearer key s p

theorem tracks_startLookup (table : RoutingTable String) : c.Tracks key (c.startLookup alpha key table) where
  nodup := nodup_learn List.nodup_nil _
  foreign hown := by
    cases mem_learn.1 hown with
    | inl h => cases h
    | inr h => exact h.2 rfl
  shortlist p hp := by
    by_cases hown : p = c.nodeId
    · exact .inl hown
    · exact .inr (mem_learn.2 (.inr ⟨hp, hown⟩))
  waiting p hp _ := by
    cases mem_learn.1 hp with
    | inl h => cases h
    | inr h => exact .inl h.1

theorem nearer_le {ids shortlist queried : List String} {p : String} (h : s.learned.Nodup) :
    c.nearer key s p ≤ c.nearer key ⟨shortlist, queried, learn c.nodeId s.learned ids⟩ p := by
  apply (List.subperm_of_subset (h.filter _) ?_).length_le
  intro q hq
  obtain ⟨hmem, hq⟩ := List.mem_filter.1 hq
  exact List.mem_filter.2 ⟨mem_learn.2 (.inl hmem), hq⟩

section Round

variable {p : String}

theorem mem_of_mem_found (h : c.Tracks key s) (hp : p ∈ c.found alpha network s) :
    p = c.nodeId ∨ p ∈ learn c.nodeId s.learned (named network (c.newPeers alpha s)) := by
  rw [mem_learn]
  cases List.mem_append.1 hp with
  | inl hp => exact (h.shortlist p hp).imp_right .inl
  | inr hp =>
    by_cases hown : p = c.nodeId
    · exact .inl hown
    · exact .inr (.inr ⟨(List.mem_filter.1 hp).1, hown⟩)

theorem le_nearer_of_cut (h : c.Tracks key s) (hp : p ∈ c.found alpha network s)
    (hcut : p ∉ c.kept alpha network key s) (hnodup : (c.kept alpha network key s).Nodup)
    (hown : c.nodeId ∉ c.kept alpha network key s) {shortlist queried : List String} :
    c.k ≤ c.nearer key ⟨shortlist, queried, learn c.nodeId s.learned (named network (c.newPeers alpha s))⟩ p := by
  have hmem := (List.mem_insertionSort fun p q => c.distance p key ≤ c.distance q key).2 hp
  rw [← List.take_append_drop c.k ((c.found alpha network s).insertionSort _), List.mem_append] at hmem
  have hdrop := hmem.resolve_left hcut
  have hlength : (c.kept alpha network key s).length = c.k := by
    have hpos := List.length_pos_of_mem hdrop
    rw [List.length_drop, List.length_insertionSort] at hpos
    rw [kept, pruneShortlist, length_leastOf]
    omega
  rw [← hlength]
  apply (List.subperm_of_subset hnodup ?_).length_le
  intro q hq
  have hlearned := (mem_of_mem_found h (mem_of_mem_leastOf hq)).resolve_left fun hq' => hown (hq' ▸ hq)
  have hle : c.distance q key ≤ c.distance p key := le_of_mem_leastOf hq hdrop
  have hne : q ≠ p := fun hqp => hcut (hqp ▸ hq)
  exact List.mem_filter.2 ⟨hlearned, by simp [hne, hle]⟩

theorem kept_or_le_nearer (h : c.Tracks key s) (hcuts : c.CutsRightly alpha network key s)
    (hp : p ∈ learn c.nodeId s.learned (named network (c.newPeers alpha s)))
    (hwaits : p ∉ s.queried ++ c.newPeers alpha s) {shortlist queried : List String} :
    p ∈ c.kept alpha network key s ∨
      c.k ≤ c.nearer key ⟨shortlist, queried, learn c.nodeId s.learned (named network (c.newPeers alpha s))⟩ p := by
  have hown : p ≠ c.nodeId := by
    rintro rfl
    cases mem_learn.1 hp with
    | inl hp => exact h.foreign hp
    | inr hp => exact hp.2 rfl
  have hfound : p ∈ c.found alpha network s ∨ c.k ≤ c.nearer key s p := by
    cases mem_learn.1 hp with
    | inl hold =>
      have hq : p ∉ s.queried := fun hq => hwaits (List.mem_append_left _ hq)
      exact (h.waiting p hold hq).imp_left (List.mem_append_left _)
    | inr hnew =>
      exact .inl (List.mem_append_right _ (List.mem_filter.2 ⟨hnew.1, by simpa using hwaits⟩))
  cases hfound with
  | inr hle => exact .inr (hle.trans (nearer_le h.nodup))
  | inl hfound =>
    by_cases hkept : p ∈ c.kept alpha network key s
    · exact .inl hkept
    · right
      cases hcuts with
      | inl huseless =>
        rcases huseless p hfound with hkept' | hown' | hqueried
        · exact absurd hkept' hkept
        · exact absurd hown' hown
        · exact absurd hqueried hwaits
      | inr hdifferent => exact le_nearer_of_cut h hfound hkept hdifferent.1 hdifferent.2

theorem Tracks.round (h : c.Tracks key s) (hcuts : c.CutsRightly alpha network key s) :
    c.Tracks key ⟨c.kept alpha network key s, s.queried ++ c.newPeers alpha s,
      learn c.nodeId s.learned (named network (c.newPeers alpha s))⟩ where
  nodup := nodup_learn h.nodup _
  foreign hown := by
    cases mem_learn.1 hown with
    | inl hown => exact h.foreign hown
    | inr hown => exact hown.2 rfl
  shortlist _ hp := mem_of_mem_found h (mem_of_mem_leastOf hp)
  waiting _ hp hwaits := kept_or_le_nearer h hcuts hp hwaits

theorem complete_of_endsRightly (h : c.Tracks key s) (hcuts : c.CutsRightly alpha network key s)
    (hends : c.EndsRightly alpha network key s)
    (hstops : c.newPeers alpha s = [] ∨ ∃ p ∈ c.newPeers alpha s, network.get? p = none) (shortlist : List String) :
    c.Complete key ⟨shortlist, s.queried ++ c.newPeers alpha s,
      learn c.nodeId s.learned (named network (c.newPeers alpha s))⟩ := by
  intro p hp hwaits
  apply (kept_or_le_nearer h hcuts hp hwaits).resolve_left
  intro hkept
  cases hends hstops p hkept with
  | inl hown => exact (h.round hcuts).foreign (hown ▸ hp)
  | inr hqueried => exact hwaits hqueried

end Round

theorem lookupLoop_spec (c : KademliaNode String) (alpha : Nat) (key : String) (fuel : Nat) (s : Lookup)
    (hfuel : remaining network s < fuel) :
    ∃ result t, c.lookupLoop alpha network key fuel s = some (result, t) ∧
      (c.Tracks key s → (∀ r ∈ c.rounds alpha network key fuel s,
        c.CutsRightly alpha network key r ∧ c.EndsRightly alpha network key r) → result = none →
          c.Complete key t) := by
  induction fuel generalizing s with
  | zero => omega
  | succ fuel ih =>
    by_cases hempty : s.shortlist = []
    · refine ⟨none, s, by rw [lookupLoop, if_pos hempty], fun h _ _ p hp hwaits => ?_⟩
      apply (h.waiting p hp hwaits).resolve_left
      rw [hempty]
      exact List.not_mem_nil
    · rw [lookupLoop, if_neg hempty, rounds, if_neg hempty]
      rcases round_cases c alpha network key s with ⟨hnew, hround⟩ | ⟨hsilent, hround⟩ | ⟨v, shortlist, hround⟩ |
        ⟨⟨hne, hkeys⟩, hround⟩
      · rw [hround]
        refine ⟨none, s, rfl, fun h hmeets _ => ?_⟩
        obtain ⟨hcuts, hends⟩ := hmeets s List.mem_cons_self
        have hcomplete := complete_of_endsRightly h hcuts hends (.inl hnew) s.shortlist
        rw [hnew, List.append_nil] at hcomplete
        exact hcomplete
      · rw [hround]
        refine ⟨none, _, rfl, fun h hmeets _ => ?_⟩
        obtain ⟨hcuts, hends⟩ := hmeets s List.mem_cons_self
        exact complete_of_endsRightly h hcuts hends (.inr hsilent) s.shortlist
      · rw [hround]
        exact ⟨some v, _, rfl, fun _ _ hnone => nomatch hnone⟩
      · rw [hround]
        have hless := remaining_lt (c.kept alpha network key s)
          (learn c.nodeId s.learned (named network (c.newPeers alpha s))) hne hkeys fun p hp => (of_mem_launch hp).1
        obtain ⟨result, t, hloop, hcomplete⟩ := ih _ (Nat.lt_of_lt_of_le hless (Nat.le_of_lt_succ hfuel))
        refine ⟨result, t, hloop, fun h hmeets => ?_⟩
        obtain ⟨hcuts, -⟩ := hmeets s List.mem_cons_self
        exact hcomplete (h.round hcuts) fun r hr => hmeets r (List.mem_cons_of_mem _ hr)

instance (r : Lookup) : Decidable (c.CutsRightly alpha network key r) := by
  unfold CutsRightly
  infer_instance

instance (r : Lookup) : Decidable (c.EndsRightly alpha network key r) := by
  unfold EndsRightly
  infer_instance

instance (r : Lookup) : Decidable (c.Complete key r) := by
  unfold Complete
  infer_instance

/-- A node whose ids are hashed to their lengths. -/
def lengthNode : KademliaNode String := ⟨fun s => BitVec.ofNat 256 s.length, "", 20⟩

/-- The table after some peers have been heard from. -/
def tableOf (ids : List String) : RoutingTable String := lengthNode.tableAfter (ids.map fun id => ⟨id, ⟨none, none⟩, 0⟩)

end KademliaNode

end Hledac.Dht
