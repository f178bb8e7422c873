import Mathlib.Data.List.Dedup
import Hledac.Lib.Machine
import Hledac.Lib.Semaphore
import Hledac.Utils.LruCache

/-!
# The per-host gate

`BoundedPerHostGate` keeps one semaphore for each host in an LRU cache;
`utils/asyncx/_rate_limit.py:41-119`. Whoever has acquired holds on to the semaphore itself, which may
have left the cache by then.
-/

namespace Hledac.Utils

open Hledac.Lib

/-! ### Eviction -/

section Evict

variable {K V : Type} [DecidableEq K]

/-- The least recently used entry leaves, `n` times. -/
def popOldest : Nat → LRUCache K V → Except (CacheError K) Unit × LRUCache K V
  | 0, cache => (.ok (), cache)
  | n + 1, cache => match cache.popitem false with
    | (.error e, cache) => (.error e, cache)
    | (.ok _, cache) => popOldest n cache

/-- `_evict_idle` of both limiters, with the number of the entries that leave;
lines 66-77, lines 179-186. -/
def evictIdle (cache : LRUCache K V) (maxHosts : Nat) : Except (CacheError K) Nat × LRUCache K V :=
  if cache.length < maxHosts then (.ok 0, cache)
  else
    let evictCount := max 1 (cache.length - maxHosts)
    (popOldest evictCount cache).map (·.map fun _ => evictCount) id

theorem get?_popOldest {n : Nat} {cache : LRUCache K V} {k : K} {v : V}
    (h : (popOldest n cache).2.data.get? k = some v) : cache.data.get? k = some v := by
  induction n generalizing cache with
  | zero => exact h
  | succ n ih =>
    have hpop := cache.get?_popitem false (k := k) (v := v)
    rw [popOldest] at h
    cases hpopped : cache.popitem false with
    | mk result cache' =>
      rw [hpopped] at h hpop
      cases result with
      | error e => exact hpop h
      | ok _ => exact hpop (ih h)

theorem get?_evictIdle {cache : LRUCache K V} {maxHosts : Nat} {k : K} {v : V}
    (h : (evictIdle cache maxHosts).2.data.get? k = some v) : cache.data.get? k = some v := by
  rw [evictIdle] at h
  split at h
  · exact h
  · exact get?_popOldest h

end Evict

/-! ### The gate -/

/-- `BoundedPerHostGate`. The cache holds the numbers of the semaphores; lines 56-64. -/
structure BoundedPerHostGate where
  maxHosts : Nat := 512
  perHostLimit : Nat := 4
  gates : LRUCache String Nat := { maxSize := maxHosts }
  evicted : Nat := 0

/-- The second part of what `acquire` returns. -/
inductive OpId where
  | hit
  | miss
  deriving DecidableEq, Repr

/-- `acquire` before it waits: the semaphore for the host, which is number `fresh` where it is a new
one; lines 87-95. -/
def BoundedPerHostGate.findGate (g : BoundedPerHostGate) (fresh : Nat) (host : String) :
    Except (CacheError String) (Nat × OpId) × BoundedPerHostGate :=
  match g.gates.get host none with
  | (some sem, gates) => (.ok (sem, .hit), { g with gates := gates.moveToEnd host })
  | (none, gates) =>
    match evictIdle gates g.maxHosts with
    | (.error e, gates) => (.error e, { g with gates := gates })
    | (.ok evictCount, gates) =>
      let g := { g with gates := gates, evicted := g.evicted + evictCount }
      match g.gates.setItem host fresh with
      | (.error e, gates) => (.error e, { g with gates := gates })
      | (.ok _, gates) => (.ok (fresh, .miss), { g with gates := gates })

/-- A call of `acquire`: it waits in the semaphore, has returned and holds a slot, has given it back, or
has been cancelled. -/
inductive Phase where
  | waiting
  | holding
  | released
  | cancelled
  deriving DecidableEq, Repr

/-- A call of `acquire` that has found its semaphore. -/
structure GateCall where
  task : Nat
  host : String
  sem : Nat
  opId : OpId
  phase : Phase
  deriving DecidableEq, Repr

/-- The call waits for a slot or has one. -/
def GateCall.Open (c : GateCall) : Prop := c.phase = .waiting ∨ c.phase = .holding

instance (c : GateCall) : Decidable c.Open := inferInstanceAs (Decidable (_ ∨ _))

/-- The gate with the semaphores that have been made for it and the calls of `acquire`. A waiter of a
semaphore is named by the number of its call. -/
structure GateRun where
  gate : BoundedPerHostGate
  semaphores : Nat → Semaphore Nat := fun _ => { value := 0 }
  created : Nat := 0
  calls : List GateCall := []

/-- What happens between two turns of the event loop: a task calls `acquire`, a waiting call runs on or
is cancelled, or the semaphore that a call has returned is given to `release`. -/
inductive GateStep where
  | acquire (task : Nat) (host : String)
  | resume (call : Nat)
  | cancel (call : Nat)
  | release (call : Nat)
  deriving DecidableEq, Repr

namespace GateRun

/-- A semaphore is made. -/
def create (s : GateRun) : GateRun :=
  { s with
    semaphores := Function.update s.semaphores s.created { value := s.gate.perHostLimit }
    created := s.created + 1 }

/-- `await sem.acquire()` up to its first pause; line 97. -/
def await (s : GateRun) (task : Nat) (host : String) (sem : Nat) (opId : OpId) : GateRun :=
  let semaphore := s.semaphores sem
  if semaphore.locked then
    { s with
      semaphores := Function.update s.semaphores sem (semaphore.enqueue s.calls.length)
      calls := s.calls ++ [⟨task, host, sem, opId, .waiting⟩] }
  else
    { s with
      semaphores := Function.update s.semaphores sem semaphore.take
      calls := s.calls ++ [⟨task, host, sem, opId, .holding⟩] }

/-- `acquire` up to its first pause; lines 79-98. -/
def acquire (s : GateRun) (task : Nat) (host : String) : GateRun :=
  match s.gate.findGate s.created host with
  | (.error _, gate) => { s with gate := gate }
  | (.ok (sem, .hit), gate) => { s with gate := gate }.await task host sem .hit
  | (.ok (sem, .miss), gate) => { s with gate := gate }.create.await task host sem .miss

/-- A call changes its phase, and its semaphore with it. -/
def change (s : GateRun) (i : Nat) (c : GateCall) (semaphore : Semaphore Nat) (phase : Phase) :
    GateRun :=
  { s with
    semaphores := Function.update s.semaphores c.sem semaphore
    calls := s.calls.set i { c with phase := phase } }

/-- A waiting call runs on where its future is done. -/
def resume (s : GateRun) (i : Nat) : GateRun :=
  match s.calls[i]? with
  | none => s
  | some c =>
    if c.phase = .waiting then
      match (s.semaphores c.sem).stateOf i with
      | some .granted => s.change i c ((s.semaphores c.sem).leave i) .holding
      | some .cancelled => s.change i c ((s.semaphores c.sem).leave i) .cancelled
      | some .withdrawn => s.change i c ((s.semaphores c.sem).leave i) .cancelled
      | _ => s
    else s

/-- A waiting call is cancelled. -/
def cancel (s : GateRun) (i : Nat) : GateRun :=
  match s.calls[i]? with
  | none => s
  | some c =>
    if c.phase = .waiting then s.change i c ((s.semaphores c.sem).cancel i) .waiting else s

/-- `release` with the semaphore of a call that has returned; the semaphore raises nothing, however
often it is called; lines 100-109. -/
def release (s : GateRun) (i : Nat) : GateRun :=
  match s.calls[i]? with
  | none => s
  | some c =>
    if c.phase = .holding ∨ c.phase = .released
      then s.change i c (s.semaphores c.sem).release .released else s

def step (s : GateRun) : GateStep → GateRun
  | .acquire task host => s.acquire task host
  | .resume i => s.resume i
  | .cancel i => s.cancel i
  | .release i => s.release i

/-- A new gate after the steps. -/
def run (maxHosts perHostLimit : Nat) (steps : List GateStep) : GateRun :=
  steps.foldl step { gate := { maxHosts := maxHosts, perHostLimit := perHostLimit } }

/-! ### What it is for -/

/-- The tasks that hold a slot for the host. -/
def holders (s : GateRun) (host : String) : List Nat :=
  ((s.calls.filter fun c => decide (c.host = host ∧ c.phase = .holding)).map GateCall.task).dedup

/-- No host has more holders than slots. -/
def WithinLimit (s : GateRun) : Prop := ∀ host, (s.holders host).length ≤ s.gate.perHostLimit

/-- No slot is in danger: a semaphore is made for a host only where no call of the host waits or holds a
slot, and what is given back has not been given back before. -/
def KeepsSlots (s : GateRun) : GateStep → Prop
  | .acquire _ host =>
    host ∈ s.gate.gates.data.keys ∨ ∀ c ∈ s.calls, c.Open → c.host ≠ host
  | .release i => (s.calls[i]?).map GateCall.phase ≠ some .released
  | _ => True

instance (s : GateRun) : ∀ step, Decidable (s.KeepsSlots step)
  | .acquire _ _ => inferInstanceAs (Decidable (_ ∨ _))
  | .release _ => inferInstanceAs (Decidable (_ ≠ _))
  | .resume _ => .isTrue trivial
  | .cancel _ => .isTrue trivial

/-! ### Which semaphore a call finds -/

theorem findGate_cases (g : BoundedPerHostGate) (fresh : Nat) (host : String) :
    (∃ sem gates, g.findGate fresh host = (.ok (sem, .hit), { g with gates := gates }) ∧
      gates.data = g.gates.data ∧ g.gates.data.get? host = some sem) ∨
    (∃ g', g.findGate fresh host = (.ok (fresh, .miss), g') ∧ g'.perHostLimit = g.perHostLimit ∧
      g.gates.data.get? host = none ∧ ∀ k v, g'.gates.data.get? k = some v →
        host = k ∧ fresh = v ∨ g.gates.data.get? k = some v) ∨
    ∃ e g', g.findGate fresh host = (.error e, g') ∧ g'.perHostLimit = g.perHostLimit ∧
      ∀ k v, g'.gates.data.get? k = some v → g.gates.data.get? k = some v := by
  obtain ⟨hfound, hsame⟩ := LRUCache.data_get g.gates host none
  rw [Option.or_none] at hfound
  rw [BoundedPerHostGate.findGate]
  cases hget : g.gates.get host none with
  | mk found gates =>
    rw [hget] at hfound hsame
    cases found with
    | some sem => exact .inl ⟨sem, _, rfl, hsame, hfound.symm⟩
    | none =>
      simp only at hsame hfound ⊢
      have hevict (k : String) (v : Nat) :
          (evictIdle gates g.maxHosts).2.data.get? k = some v → gates.data.get? k = some v :=
        get?_evictIdle
      rw [hsame] at hevict
      cases hev : evictIdle gates g.maxHosts with
      | mk result gates' =>
        rw [hev] at hevict
        cases result with
        | error e => exact .inr (.inr ⟨e, _, rfl, rfl, hevict⟩)
        | ok n =>
          simp only
          cases hset : gates'.setItem host fresh with
          | mk done gates'' =>
            cases done with
            | error e =>
              refine .inr (.inr ⟨e, _, rfl, rfl, ?_⟩)
              intro k v hk
              exact hevict k v (LRUCache.get?_of_setItem_error hset hk)
            | ok _ =>
              refine .inr (.inl ⟨_, rfl, rfl, hfound.symm, ?_⟩)
              intro k v hk
              have hnew : host = k ∧ fresh = v ∨ gates'.data.get? k = some v := by
                apply LRUCache.get?_setItem
                rw [hset]
                exact hk
              exact hnew.imp_right (hevict k v)

/-! ### The slots -/

/-- The slots of the semaphore that are held. -/
def heldOf (s : GateRun) (sem : Nat) : Nat :=
  s.calls.countP fun c => decide (c.sem = sem ∧ c.phase = .holding)

/-- Every slot of every semaphore is free, set aside or held, and the open calls of a host are all at one
semaphore, which is the resident one where there is one. -/
structure Sound (s : GateRun) : Prop where
  call_lt : ∀ c ∈ s.calls, c.sem < s.created
  gate_lt : ∀ host sem, s.gate.gates.data.get? host = some sem → sem < s.created
  slots : ∀ sem < s.created, (s.semaphores sem).slots + s.heldOf sem = s.gate.perHostLimit
  one : ∀ c ∈ s.calls, ∀ c' ∈ s.calls, c.Open → c'.Open → c.host = c'.host → c.sem = c'.sem
  resident : ∀ host sem, s.gate.gates.data.get? host = some sem →
    ∀ c ∈ s.calls, c.Open → c.host = host → c.sem = sem

section Sound

variable {s : GateRun} {i : Nat} {c : GateCall}

theorem heldOf_change (h : s.calls[i]? = some c) (semaphore : Semaphore Nat) (phase : Phase) (sem : Nat) :
    (s.change i c semaphore phase).heldOf sem + (if c.sem = sem ∧ c.phase = .holding then 1 else 0) =
      s.heldOf sem + if c.sem = sem ∧ phase = .holding then 1 else 0 := by
  obtain ⟨hlt, hget⟩ := List.getElem?_eq_some_iff.1 h
  have hset : (s.change i c semaphore phase).heldOf sem =
      s.heldOf sem - (if c.sem = sem ∧ c.phase = .holding then 1 else 0) +
        if c.sem = sem ∧ phase = .holding then 1 else 0 := by
    rw [heldOf, change, List.countP_set hlt, hget, heldOf]
    simp only [decide_eq_true_eq]
  have hle : (if c.sem = sem ∧ c.phase = .holding then 1 else 0) ≤ s.heldOf sem := by
    split
    · next hc => exact List.countP_pos_iff.2 ⟨c, List.mem_of_getElem? h, decide_eq_true hc⟩
    · exact Nat.zero_le _
  omega

/-- A call that takes a slot with it when it leaves, or brings it, leaves the gate sound. -/
theorem Sound.change (h : s.Sound) (hc : s.calls[i]? = some c) {semaphore : Semaphore Nat} {phase : Phase}
    (hopen : phase = .waiting ∨ phase = .holding → c.Open)
    (hslots : semaphore.slots + (if phase = .holding then 1 else 0) =
      (s.semaphores c.sem).slots + if c.phase = .holding then 1 else 0) :
    (s.change i c semaphore phase).Sound := by
  have hmem := List.mem_of_getElem? hc
  have hfrom (d : GateCall) (hd : d ∈ s.calls.set i { c with phase := phase }) :
      ∃ d' ∈ s.calls, d'.host = d.host ∧ d'.sem = d.sem ∧ (d.Open → d'.Open) := by
    cases List.mem_or_eq_of_mem_set hd with
    | inl hold => exact ⟨d, hold, rfl, rfl, id⟩
    | inr hnew =>
      subst hnew
      exact ⟨c, hmem, rfl, rfl, hopen⟩
  constructor
  · intro d hd
    obtain ⟨d', hd', _, hsem, _⟩ := hfrom d hd
    rw [← hsem]
    exact h.call_lt d' hd'
  · exact h.gate_lt
  · intro sem hsem
    have hheld := heldOf_change hc semaphore phase sem
    have hbefore := h.slots sem hsem
    show (Function.update s.semaphores c.sem semaphore sem).slots + _ = s.gate.perHostLimit
    by_cases hs : c.sem = sem
    · subst hs
      rw [Function.update_self]
      simp only [true_and] at hheld
      omega
    · rw [Function.update_of_ne fun hcon => hs hcon.symm]
      simp only [hs, false_and, if_false] at hheld
      omega
  · intro d hd e he hopenD hopenE hhost
    obtain ⟨d', hd', hhostD, hsemD, hopenD'⟩ := hfrom d hd
    obtain ⟨e', he', hhostE, hsemE, hopenE'⟩ := hfrom e he
    rw [← hsemD, ← hsemE]
    exact h.one d' hd' e' he' (hopenD' hopenD) (hopenE' hopenE) (hhostD.trans (hhost.trans hhostE.symm))
  · intro host sem hget d hd hopenD hhost
    obtain ⟨d', hd', hhostD, hsemD, hopenD'⟩ := hfrom d hd
    rw [← hsemD]
    exact h.resident host sem hget d' hd' (hopenD' hopenD) (hhostD.trans hhost)

/-- A call comes to the semaphore of its host. -/
theorem Sound.add (h : s.Sound) {semaphore : Semaphore Nat} (hlt : c.sem < s.created)
    (hall : ∀ d ∈ s.calls, d.Open → d.host = c.host → d.sem = c.sem)
    (hresident : ∀ sem, s.gate.gates.data.get? c.host = some sem → c.sem = sem)
    (hslots : semaphore.slots + (if c.phase = .holding then 1 else 0) = (s.semaphores c.sem).slots) :
    ({ s with
      semaphores := Function.update s.semaphores c.sem semaphore
      calls := s.calls ++ [c] } : GateRun).Sound := by
  constructor
  · intro d hd
    cases List.mem_append.1 hd with
    | inl hold => exact h.call_lt d hold
    | inr hnew => rw [List.mem_singleton.1 hnew]; exact hlt
  · exact h.gate_lt
  · intro sem hsem
    have hbefore := h.slots sem hsem
    show (Function.update s.semaphores c.sem semaphore sem).slots + (s.calls ++ [c]).countP _ =
      s.gate.perHostLimit
    rw [heldOf] at hbefore
    rw [List.countP_append, List.countP_singleton]
    by_cases hs : c.sem = sem
    · subst hs
      rw [Function.update_self]
      simp only [true_and, decide_eq_true_eq]
      omega
    · rw [Function.update_of_ne fun hcon => hs hcon.symm]
      simp only [hs, false_and, decide_false, Bool.false_eq_true, if_false]
      exact hbefore
  · intro d hd e he hopenD hopenE hhost
    cases List.mem_append.1 hd with
    | inl hold =>
      cases List.mem_append.1 he with
      | inl hold' => exact h.one d hold e hold' hopenD hopenE hhost
      | inr hnew =>
        rw [List.mem_singleton.1 hnew] at hhost ⊢
        exact hall d hold hopenD hhost
    | inr hnew =>
      rw [List.mem_singleton.1 hnew] at hhost ⊢
      cases List.mem_append.1 he with
      | inl hold => exact (hall e hold hopenE hhost.symm).symm
      | inr hnew' => rw [List.mem_singleton.1 hnew']
  · intro host sem hget d hd hopenD hhost
    cases List.mem_append.1 hd with
    | inl hold => exact h.resident host sem hget d hold hopenD hhost
    | inr hnew =>
      rw [List.mem_singleton.1 hnew] at hhost ⊢
      rw [← hhost] at hget
      exact hresident sem hget

theorem Sound.await (h : s.Sound) (task : Nat) {host : String} {sem : Nat} (opId : OpId)
    (hlt : sem < s.created) (hall : ∀ d ∈ s.calls, d.Open → d.host = host → d.sem = sem)
    (hresident : ∀ sem', s.gate.gates.data.get? host = some sem' → sem = sem') :
    (s.await task host sem opId).Sound := by
  rw [GateRun.await]
  cases hlocked : (s.semaphores sem).locked with
  | true =>
    have hslots := Semaphore.slots_enqueue (s.semaphores sem) s.calls.length
    exact h.add (c := ⟨task, host, sem, opId, .waiting⟩) hlt hall hresident hslots
  | false =>
    have hslots := Semaphore.slots_take (Semaphore.value_pos_of_not_locked hlocked)
    exact h.add (c := ⟨task, host, sem, opId, .holding⟩) hlt hall hresident hslots

theorem Sound.gate (h : s.Sound) {g : BoundedPerHostGate} (hlimit : g.perHostLimit = s.gate.perHostLimit)
    (hsub : ∀ k v, g.gates.data.get? k = some v → s.gate.gates.data.get? k = some v) :
    ({ s with gate := g } : GateRun).Sound where
  call_lt := h.call_lt
  gate_lt host sem hget := h.gate_lt host sem (hsub host sem hget)
  slots sem hsem := (h.slots sem hsem).trans hlimit.symm
  one := h.one
  resident host sem hget := h.resident host sem (hsub host sem hget)

theorem Sound.create (h : s.Sound) {g : BoundedPerHostGate} {host : String}
    (hlimit : g.perHostLimit = s.gate.perHostLimit) (hnone : ∀ c ∈ s.calls, c.Open → c.host ≠ host)
    (hsub : ∀ k v, g.gates.data.get? k = some v →
      host = k ∧ s.created = v ∨ s.gate.gates.data.get? k = some v) :
    ({ s with gate := g } : GateRun).create.Sound := by
  constructor
  · intro c hc
    exact Nat.lt_succ_of_lt (h.call_lt c hc)
  · intro k v hget
    cases hsub k v hget with
    | inl hnew => exact hnew.2 ▸ Nat.lt_succ_self _
    | inr hold => exact Nat.lt_succ_of_lt (h.gate_lt k v hold)
  · intro sem hsem
    show (Function.update s.semaphores s.created { value := g.perHostLimit } sem).slots + s.heldOf sem =
      g.perHostLimit
    by_cases hs : sem = s.created
    · have hzero : s.heldOf sem = 0 := by
        rw [heldOf, List.countP_eq_zero]
        intro c hc hcon
        have hlt := h.call_lt c hc
        rw [(of_decide_eq_true hcon).1, hs] at hlt
        exact Nat.lt_irrefl _ hlt
      rw [hzero, hs, Function.update_self]
      rfl
    · rw [Function.update_of_ne hs, hlimit]
      exact h.slots sem (Nat.lt_of_le_of_ne (Nat.le_of_lt_succ hsem) hs)
  · exact h.one
  · intro k v hget c hc hopen hhost
    cases hsub k v hget with
    | inl hnew => exact absurd (hhost.trans hnew.1.symm) (hnone c hc hopen)
    | inr hold => exact h.resident k v hold c hc hopen hhost

/-! ### One step -/

theorem Sound.acquire (h : s.Sound) (task : Nat) {host : String}
    (hkeeps : s.KeepsSlots (.acquire task host)) : (s.acquire task host).Sound := by
  rw [GateRun.acquire]
  rcases findGate_cases s.gate s.created host with ⟨sem, gates, hfound, hdata, hget⟩ |
    ⟨g, hfound, hlimit, hnone, hsub⟩ | ⟨e, g, hfound, hlimit, hsub⟩
  · rw [hfound]
    have hgate : ({ s with gate := { s.gate with gates := gates } } : GateRun).Sound :=
      h.gate rfl fun k v hk => hdata ▸ hk
    apply hgate.await task .hit (h.gate_lt host sem hget) (h.resident host sem hget)
    intro sem' hget'
    rw [← Option.some_inj, ← hget, ← hget', ← hdata]
  · rw [hfound]
    have hopen : ∀ c ∈ s.calls, c.Open → c.host ≠ host := by
      apply hkeeps.resolve_left
      exact Dict.notMem_keys_iff.2 hnone
    have hcreate := h.create hlimit hopen hsub
    apply hcreate.await task .miss (Nat.lt_succ_self _)
    · intro d hd hd' hhost
      exact absurd hhost (hopen d hd hd')
    · intro sem' hget'
      cases hsub host sem' hget' with
      | inl hnew => exact hnew.2
      | inr hold =>
        rw [hnone] at hold
        cases hold
  · rw [hfound]
    exact h.gate hlimit hsub

theorem Sound.resume (h : s.Sound) (i : Nat) : (s.resume i).Sound := by
  rw [GateRun.resume]
  cases hc : s.calls[i]? with
  | none => exact h
  | some c =>
    simp only
    split
    · next hwaiting =>
      cases hstate : (s.semaphores c.sem).stateOf i with
      | none => exact h
      | some state =>
        have hslots := Semaphore.slots_leave hstate
        cases state with
        | pending => exact h
        | granted =>
          apply h.change hc fun _ => .inl hwaiting
          rw [hwaiting]
          exact hslots
        | cancelled =>
          apply h.change hc fun _ => .inl hwaiting
          rw [hwaiting]
          exact hslots
        | withdrawn =>
          apply h.change hc fun _ => .inl hwaiting
          rw [hwaiting]
          exact hslots
    · exact h

theorem Sound.cancel (h : s.Sound) (i : Nat) : (s.cancel i).Sound := by
  rw [GateRun.cancel]
  cases hc : s.calls[i]? with
  | none => exact h
  | some c =>
    simp only
    split
    · next hwaiting =>
      apply h.change hc fun _ => .inl hwaiting
      rw [hwaiting, Semaphore.slots_cancel]
    · exact h

theorem Sound.release (h : s.Sound) (hkeeps : s.KeepsSlots (.release i)) : (s.release i).Sound := by
  rw [KeepsSlots] at hkeeps
  rw [GateRun.release]
  cases hc : s.calls[i]? with
  | none => exact h
  | some c =>
    rw [hc] at hkeeps
    simp only
    split
    · next hphase =>
      have hholding : c.phase = .holding := hphase.resolve_right fun hr => hkeeps (congrArg some hr)
      apply h.change hc
      · intro hopen
        cases hopen with
        | inl hc => cases hc
        | inr hc => cases hc
      · rw [hholding, Semaphore.slots_release]
        rfl
    · exact h

theorem Sound.step (h : s.Sound) {e : GateStep} (hkeeps : s.KeepsSlots e) : (s.step e).Sound := by
  cases e with
  | acquire task host => exact h.acquire task hkeeps
  | resume i => exact h.resume i
  | cancel i => exact h.cancel i
  | release i => exact h.release hkeeps

theorem sound_new (maxHosts perHostLimit : Nat) :
    ({ gate := { maxHosts := maxHosts, perHostLimit := perHostLimit } } : GateRun).Sound where
  call_lt _ hc := absurd hc List.not_mem_nil
  gate_lt _ _ hget := by cases hget
  slots _ hsem := absurd hsem (Nat.not_lt_zero _)
  one _ hc := absurd hc List.not_mem_nil
  resident _ _ hget := by cases hget

theorem Sound.withinLimit (h : s.Sound) : s.WithinLimit := by
  intro host
  rw [holders]
  apply Nat.le_trans (List.dedup_sublist _).length_le
  rw [List.length_map, ← List.countP_eq_length_filter]
  cases hheld : (s.calls.filter fun c => decide (c.host = host ∧ c.phase = .holding)) with
  | nil =>
    rw [List.countP_eq_length_filter, hheld]
    exact Nat.zero_le _
  | cons c rest =>
    have hmem : c ∈ s.calls.filter fun c => decide (c.host = host ∧ c.phase = .holding) := by
      rw [hheld]
      exact List.mem_cons_self
    obtain ⟨hc, hhost⟩ := List.mem_filter.1 hmem
    obtain ⟨hhost, hholding⟩ := of_decide_eq_true hhost
    have hslots := h.slots c.sem (h.call_lt c hc)
    have hle : (s.calls.countP fun d => decide (d.host = host ∧ d.phase = .holding)) ≤ s.heldOf c.sem := by
      apply List.countP_mono_left
      intro d hd hdec
      obtain ⟨hhostD, hholdingD⟩ := of_decide_eq_true hdec
      apply decide_eq_true
      exact ⟨h.one d hd c hc (.inr hholdingD) (.inr hholding) (hhostD.trans hhost.symm), hholdingD⟩
    omega

end Sound

/-- Throughout a run in which no slot is in danger, no more tasks hold a slot of a host than there are
slots. -/
theorem withinLimit_of_keepsSlots (maxHosts perHostLimit : Nat) (steps : List GateStep)
    (h : StepsMeet step KeepsSlots
      { gate := { maxHosts := maxHosts, perHostLimit := perHostLimit } } steps) :
    ∀ pre, pre <+: steps → (run maxHosts perHostLimit pre).WithinLimit := by
  intro pre hpre
  obtain ⟨rest, rfl⟩ := hpre
  have hsound : (run maxHosts perHostLimit pre).Sound :=
    (stepsMeet_append.1 h).1.invariant (fun _ _ hs hk => hs.step hk) (sound_new maxHosts perHostLimit)
  exact hsound.withinLimit

/-- Two tasks at one host, the second after the first has given its slot back. -/
theorem withinLimit_two_tasks :
    (run 1 1 [.acquire 0 "a", .acquire 1 "a", .release 0, .resume 1, .acquire 2 "b"]).WithinLimit :=
  withinLimit_of_keepsSlots 1 1 _ (by decide) _ (List.prefix_refl _)

/-- The host of a held slot leaves the cache and comes back with a new semaphore. -/
theorem not_withinLimit_evicted :
    ¬ ∀ (maxHosts perHostLimit : Nat) (steps : List GateStep), 1 ≤ maxHosts → 1 ≤ perHostLimit →
      (run maxHosts perHostLimit steps).WithinLimit := by
  intro h
  have hlimit := h 1 1 [.acquire 0 "a", .acquire 1 "b", .acquire 2 "a"] (by decide) (by decide) "a"
  revert hlimit
  decide

end GateRun

end Hledac.Utils
