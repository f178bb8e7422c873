import Hledac.Transport.DnsCache

/-!
# Resolutions in flight

What keeps the single-flight pattern of the DNS cache alive: a future in `_inflight` belongs to a call that still asks,
every waiter has such a future, and the cache and the order of use hold the same hosts. An exception other than
`OSError` and `ValueError`, a cancelled task, waiters of a failed resolution and a batch larger than what is free each
break one of these.
-/

namespace Hledac.Transport

open Hledac.Lib Hledac.Utils

/-! ### Calls and futures -/

namespace DnsPhase

/-- The call has no future: it has not begun, waits for a slot, or was answered at once. -/
def Idle : DnsPhase → Prop
  | .scheduled => True
  | .queued => True
  | .ended none _ => True
  | _ => False

variable {p : DnsPhase} {fut : Nat} {result : DnsResult}

theorem Idle.not_asks (h : p.Idle) : ¬ p.Asks fut := by
  cases p with
  | askingRust => exact h.elim
  | askingSystem => exact h.elim
  | scheduled => exact id
  | queued => exact id
  | waiting => exact id
  | ended => exact id

theorem Idle.not_waits (h : p.Idle) : ¬ p.Waits fut := by
  cases p with
  | waiting => exact h.elim
  | scheduled => exact id
  | queued => exact id
  | askingRust => exact id
  | askingSystem => exact id
  | ended => exact id

theorem Idle.ne_ended (h : p.Idle) : p ≠ .ended (some fut) result := by
  rintro rfl
  exact h

theorem Asks.not_waits {fut' : Nat} (h : p.Asks fut) : ¬ p.Waits fut' := by
  cases p with
  | askingRust => exact id
  | askingSystem => exact id
  | _ => exact h.elim

theorem Asks.ne_ended {o : Option Nat} (h : p.Asks fut) : p ≠ .ended o result := by
  rintro rfl
  exact h

theorem Waits.ne_ended {o : Option Nat} (h : p.Waits fut) : p ≠ .ended o result := by
  rintro rfl
  exact h

theorem Asks.unique {fut' : Nat} (h : p.Asks fut) (h' : p.Asks fut') : fut = fut' := by
  cases p with
  | askingRust => exact h.symm.trans h'
  | askingSystem => exact h.symm.trans h'
  | _ => exact h.elim

end DnsPhase

/-- The futures in flight are those of the calls that ask, the waiters have one of them, and what has ended on a future
has ended as the call that asked, without an exception. -/
structure Flights (inflight : Dict String Nat) (calls : List DnsCall) : Prop where
  asks : ∀ (i : Nat) (call : DnsCall) (fut : Nat), calls[i]? = some call → call.phase.Asks fut →
    fut = i ∧ inflight.get? call.host = some i
  flying : ∀ (host : String) (fut : Nat), inflight.get? host = some fut →
    ∃ call : DnsCall, calls[fut]? = some call ∧ call.phase.Asks fut ∧ call.host = host
  waits : ∀ (i : Nat) (call : DnsCall) (fut : Nat), calls[i]? = some call → call.phase.Waits fut →
    ∃ asker : DnsCall, calls[fut]? = some asker ∧ asker.phase.Asks fut
  ended : ∀ (i : Nat) (call : DnsCall) (fut : Nat) (result : DnsResult), calls[i]? = some call →
    call.phase = .ended (some fut) result →
    (∃ ips, result = .ok ips) ∧ ∃ asker : DnsCall, calls[fut]? = some asker ∧ asker.phase = .ended (some fut) result

theorem flights_nil : Flights .empty [] where
  asks _ _ _ h := nomatch h
  flying _ _ h := nomatch h
  waits _ _ _ h := nomatch h
  ended _ _ _ _ h := nomatch h

section Flights

variable {inflight : Dict String Nat} {calls more : List DnsCall} {c : Nat} {call : DnsCall} {phase : DnsPhase}

/-- One call in another phase. -/
def withPhase (calls : List DnsCall) (c : Nat) (phase : DnsPhase) : List DnsCall :=
  calls.modify c fun call => { call with phase := phase }

theorem getElem?_withPhase (calls : List DnsCall) (c i : Nat) (phase : DnsPhase) :
    (withPhase calls c phase)[i]? = calls[i]?.map fun call => if c = i then { call with phase := phase } else call := by
  rw [withPhase, List.getElem?_modify]
  rfl

theorem getElem?_withPhase_self (h : calls[c]? = some call) (phase : DnsPhase) :
    (withPhase calls c phase)[c]? = some { call with phase := phase } := by
  rw [getElem?_withPhase, h]
  simp

theorem getElem?_withPhase_of_ne {i : Nat} (h : c ≠ i) (phase : DnsPhase) :
    (withPhase calls c phase)[i]? = calls[i]? := by
  rw [getElem?_withPhase]
  simp [h]

theorem withPhase_cases {i : Nat} {call' : DnsCall} (h : (withPhase calls c phase)[i]? = some call') :
    (c = i ∧ ∃ call, calls[c]? = some call ∧ call' = { call with phase := phase }) ∨
    (c ≠ i ∧ calls[i]? = some call') := by
  by_cases hi : c = i
  · subst hi
    rw [getElem?_withPhase, Option.map_eq_some_iff] at h
    obtain ⟨call, hcall, rfl⟩ := h
    exact .inl ⟨rfl, call, hcall, if_pos rfl⟩
  · rw [getElem?_withPhase_of_ne hi] at h
    exact .inr ⟨hi, h⟩

theorem Flights.append (h : Flights inflight calls) (hidle : ∀ call ∈ more, call.phase.Idle) :
    Flights inflight (calls ++ more) := by
  have hold : ∀ {i : Nat} {call : DnsCall}, (calls ++ more)[i]? = some call → ¬ call.phase.Idle →
      calls[i]? = some call := by
    intro i call hget hbusy
    rw [List.getElem?_append] at hget
    split at hget
    · exact hget
    · exact absurd (hidle call (List.mem_of_getElem? hget)) hbusy
  have hnew : ∀ {i : Nat} {call : DnsCall}, calls[i]? = some call → (calls ++ more)[i]? = some call := by
    intro i call hget
    rw [List.getElem?_append_left (List.getElem?_eq_some_iff.1 hget).1]
    exact hget
  constructor
  · intro i call fut hget hasks
    exact h.asks i call fut (hold hget fun hi => hi.not_asks hasks) hasks
  · intro host fut hget
    obtain ⟨call, hcall, hrest⟩ := h.flying host fut hget
    exact ⟨call, hnew hcall, hrest⟩
  · intro i call fut hget hwaits
    obtain ⟨asker, hasker, hasks⟩ := h.waits i call fut (hold hget fun hi => hi.not_waits hwaits) hwaits
    exact ⟨asker, hnew hasker, hasks⟩
  · intro i call fut result hget hended
    obtain ⟨hok, asker, hasker, hsame⟩ := h.ended i call fut result (hold hget fun hi => hi.ne_ended hended) hended
    exact ⟨hok, asker, hnew hasker, hsame⟩

theorem getElem?_withPhase_of_busy {i : Nat} {other : DnsCall} (hcall : calls[c]? = some call) (hidle : call.phase.Idle)
    (hget : calls[i]? = some other) (hbusy : ¬ other.phase.Idle) : (withPhase calls c phase)[i]? = some other := by
  rw [getElem?_withPhase_of_ne, hget]
  rintro rfl
  cases hcall.symm.trans hget
  exact hbusy hidle

theorem Flights.withPhase_idle (h : Flights inflight calls) (hcall : calls[c]? = some call) (hidle : call.phase.Idle)
    (hphase : phase.Idle ∨ ∃ fut, phase = .waiting fut ∧ inflight.get? call.host = some fut) :
    Flights inflight (withPhase calls c phase) := by
  constructor
  · intro i call' fut hget hasks
    rcases withPhase_cases hget with ⟨rfl, old, _, rfl⟩ | ⟨_, hold⟩
    · rcases hphase with hp | ⟨_, rfl, _⟩
      · exact absurd hasks hp.not_asks
      · exact hasks.elim
    · exact h.asks i call' fut hold hasks
  · intro host fut hget
    obtain ⟨asker, hasker, hasks, hhost⟩ := h.flying host fut hget
    exact ⟨asker, getElem?_withPhase_of_busy hcall hidle hasker fun hi => hi.not_asks hasks, hasks, hhost⟩
  · intro i call' fut hget hwaits
    rcases withPhase_cases hget with ⟨rfl, old, _, rfl⟩ | ⟨_, hold⟩
    · rcases hphase with hp | ⟨fut', rfl, hfut⟩
      · exact absurd hwaits hp.not_waits
      · obtain rfl : fut' = fut := hwaits
        obtain ⟨asker, hasker, hasks, _⟩ := h.flying call.host fut' hfut
        exact ⟨asker, getElem?_withPhase_of_busy hcall hidle hasker fun hi => hi.not_asks hasks, hasks⟩
    · obtain ⟨asker, hasker, hasks⟩ := h.waits i call' fut hold hwaits
      exact ⟨asker, getElem?_withPhase_of_busy hcall hidle hasker fun hi => hi.not_asks hasks, hasks⟩
  · intro i call' fut result hget hended
    rcases withPhase_cases hget with ⟨rfl, old, _, rfl⟩ | ⟨_, hold⟩
    · rcases hphase with hp | ⟨_, rfl, _⟩
      · exact absurd hended hp.ne_ended
      · cases hended
    · obtain ⟨hok, asker, hasker, hsame⟩ := h.ended i call' fut result hold hended
      exact ⟨hok, asker, getElem?_withPhase_of_busy hcall hidle hasker fun hi => hi.ne_ended hsame, hsame⟩

theorem Flights.reserve (h : Flights inflight calls) (hcall : calls[c]? = some call) (hidle : call.phase.Idle)
    (hfree : inflight.get? call.host = none) (hphase : phase.Asks c) :
    Flights (inflight.insert call.host c) (withPhase calls c phase) := by
  constructor
  · intro i call' fut hget hasks
    rcases withPhase_cases hget with ⟨rfl, old, hold, rfl⟩ | ⟨_, hold⟩
    · cases hcall.symm.trans hold
      exact ⟨hasks.unique hphase, Dict.get?_insert_self⟩
    · obtain ⟨hfut, hflying⟩ := h.asks i call' fut hold hasks
      have hhost : call.host ≠ call'.host := by
        intro hc
        rw [hc, hflying] at hfree
        cases hfree
      exact ⟨hfut, (Dict.get?_insert_of_ne hhost).trans hflying⟩
  · intro host fut hget
    rw [Dict.get?_insert] at hget
    split at hget
    · next hhost =>
      obtain rfl := Option.some_inj.1 hget
      exact ⟨{ call with phase := phase }, getElem?_withPhase_self hcall phase, hphase, hhost⟩
    · obtain ⟨asker, hasker, hasks, hhost⟩ := h.flying host fut hget
      exact ⟨asker, getElem?_withPhase_of_busy hcall hidle hasker fun hi => hi.not_asks hasks, hasks, hhost⟩
  · intro i call' fut hget hwaits
    rcases withPhase_cases hget with ⟨rfl, old, _, rfl⟩ | ⟨_, hold⟩
    · exact absurd hwaits hphase.not_waits
    · obtain ⟨asker, hasker, hasks⟩ := h.waits i call' fut hold hwaits
      exact ⟨asker, getElem?_withPhase_of_busy hcall hidle hasker fun hi => hi.not_asks hasks, hasks⟩
  · intro i call' fut result hget hended
    rcases withPhase_cases hget with ⟨rfl, old, _, rfl⟩ | ⟨_, hold⟩
    · exact absurd hended hphase.ne_ended
    · obtain ⟨hok, asker, hasker, hsame⟩ := h.ended i call' fut result hold hended
      exact ⟨hok, asker, getElem?_withPhase_of_busy hcall hidle hasker fun hi => hi.ne_ended hsame, hsame⟩

theorem Flights.restage (h : Flights inflight calls) (hcall : calls[c]? = some call) (hasks : call.phase.Asks c)
    (hphase : phase.Asks c) : Flights inflight (withPhase calls c phase) := by
  have hself := getElem?_withPhase_self hcall phase
  constructor
  · intro i call' fut hget hasks'
    rcases withPhase_cases hget with ⟨rfl, old, hold, rfl⟩ | ⟨_, hold⟩
    · cases hcall.symm.trans hold
      exact ⟨hasks'.unique hphase, (h.asks c call c hcall hasks).2⟩
    · exact h.asks i call' fut hold hasks'
  · intro host fut hget
    obtain ⟨asker, hasker, hasks', hhost⟩ := h.flying host fut hget
    by_cases hfut : c = fut
    · subst hfut
      cases hcall.symm.trans hasker
      exact ⟨_, hself, hphase, hhost⟩
    · exact ⟨asker, (getElem?_withPhase_of_ne hfut phase).trans hasker, hasks', hhost⟩
  · intro i call' fut hget hwaits
    rcases withPhase_cases hget with ⟨rfl, old, _, rfl⟩ | ⟨_, hold⟩
    · exact absurd hwaits hphase.not_waits
    · obtain ⟨asker, hasker, hasks'⟩ := h.waits i call' fut hold hwaits
      by_cases hfut : c = fut
      · subst hfut
        exact ⟨_, hself, hphase⟩
      · exact ⟨asker, (getElem?_withPhase_of_ne hfut phase).trans hasker, hasks'⟩
  · intro i call' fut result hget hended
    rcases withPhase_cases hget with ⟨rfl, old, _, rfl⟩ | ⟨_, hold⟩
    · exact absurd hended hphase.ne_ended
    · obtain ⟨hok, asker, hasker, hsame⟩ := h.ended i call' fut result hold hended
      have hfut : c ≠ fut := by
        rintro rfl
        cases hcall.symm.trans hasker
        exact hasks.ne_ended hsame
      exact ⟨hok, asker, (getElem?_withPhase_of_ne hfut phase).trans hasker, hsame⟩

theorem conclude_cases {p : DnsPhase} (fut : Nat) (own others : DnsResult) :
    (p.Asks fut ∧ p.conclude fut own others = .ended (some fut) own) ∨
    (p.Waits fut ∧ p.conclude fut own others = .ended (some fut) others) ∨
    (¬ p.Asks fut ∧ ¬ p.Waits fut ∧ p.conclude fut own others = p) := by
  rw [DnsPhase.conclude]
  by_cases hasks : p.Asks fut
  · exact .inl ⟨hasks, if_pos hasks⟩
  · by_cases hwaits : p.Waits fut
    · exact .inr (.inl ⟨hwaits, by rw [if_neg hasks, if_pos hwaits]⟩)
    · exact .inr (.inr ⟨hasks, hwaits, by rw [if_neg hasks, if_neg hwaits]⟩)

/-- All calls after a future has ended. -/
def concluded (calls : List DnsCall) (fut : Nat) (own others : DnsResult) : List DnsCall :=
  calls.map fun call => { call with phase := call.phase.conclude fut own others }

/-- A future ends: its entry goes, and so do its waiters, with the result of the call that asked. -/
theorem Flights.conclude (h : Flights inflight calls) (hcall : calls[c]? = some call) (hasks : call.phase.Asks c)
    {ips : Option (List String)} {others : DnsResult}
    (hothers : (∃ w ∈ calls, w.phase.Waits c) → others = .ok ips) :
    Flights (inflight.erase call.host) (concluded calls c (.ok ips) others) := by
  have hcases : ∀ {i : Nat} {call' : DnsCall}, (concluded calls c (.ok ips) others)[i]? = some call' →
      ∃ old, calls[i]? = some old ∧ call' = { old with phase := old.phase.conclude c (.ok ips) others } := by
    intro i call' hget
    rw [concluded, List.getElem?_map, Option.map_eq_some_iff] at hget
    obtain ⟨old, hold, rfl⟩ := hget
    exact ⟨old, hold, rfl⟩
  have hkeep : ∀ {i : Nat} {old : DnsCall}, calls[i]? = some old → ¬ old.phase.Asks c → ¬ old.phase.Waits c →
      (concluded calls c (.ok ips) others)[i]? = some old := by
    intro i old hget hnasks hnwaits
    rw [concluded, List.getElem?_map, hget, Option.map_some, DnsPhase.conclude, if_neg hnasks, if_neg hnwaits]
  have hself : (concluded calls c (.ok ips) others)[c]? =
      some { call with phase := .ended (some c) (.ok ips) } := by
    rw [concluded, List.getElem?_map, hcall, Option.map_some, DnsPhase.conclude, if_pos hasks]
  have hflight := (h.asks c call c hcall hasks).2
  constructor
  · intro i call' fut hget hasks'
    obtain ⟨old, hold, rfl⟩ := hcases hget
    rcases conclude_cases (p := old.phase) c (.ok ips) others with ⟨_, heq⟩ | ⟨_, heq⟩ | ⟨hnasks, _, heq⟩
    · exact absurd heq hasks'.ne_ended
    · exact absurd heq hasks'.ne_ended
    · have hasks'' : old.phase.Asks fut := heq ▸ hasks'
      obtain ⟨hfut, hflying⟩ := h.asks i old fut hold hasks''
      have hhost : call.host ≠ old.host := by
        intro hc
        rw [← hc, hflight, Option.some_inj] at hflying
        subst hflying
        exact hnasks (hfut ▸ hasks'')
      exact ⟨hfut, (Dict.get?_erase_of_ne hhost).trans hflying⟩
  · intro host fut hget
    rw [Dict.get?_erase] at hget
    split at hget
    · cases hget
    · next hne =>
      obtain ⟨asker, hasker, hasks', hhost⟩ := h.flying host fut hget
      have hnasks : ¬ asker.phase.Asks c := by
        intro hc
        obtain rfl := hc.unique hasks'
        cases hcall.symm.trans hasker
        exact hne hhost
      exact ⟨asker, hkeep hasker hnasks hasks'.not_waits, hasks', hhost⟩
  · intro i call' fut hget hwaits
    obtain ⟨old, hold, rfl⟩ := hcases hget
    rcases conclude_cases (p := old.phase) c (.ok ips) others with ⟨_, heq⟩ | ⟨_, heq⟩ | ⟨_, hnwaits, heq⟩
    · exact absurd heq hwaits.ne_ended
    · exact absurd heq hwaits.ne_ended
    · have hwaits' : old.phase.Waits fut := heq ▸ hwaits
      obtain ⟨asker, hasker, hasks'⟩ := h.waits i old fut hold hwaits'
      have hnasks : ¬ asker.phase.Asks c := by
        intro hc
        obtain rfl := hc.unique hasks'
        exact hnwaits hwaits'
      exact ⟨asker, hkeep hasker hnasks hasks'.not_waits, hasks'⟩
  · intro i call' fut result hget hended
    obtain ⟨old, hold, rfl⟩ := hcases hget
    rcases conclude_cases (p := old.phase) c (.ok ips) others with ⟨_, heq⟩ | ⟨hwaits, heq⟩ | ⟨_, _, heq⟩
    · cases heq.symm.trans hended
      exact ⟨⟨ips, rfl⟩, _, hself, rfl⟩
    · cases heq.symm.trans hended
      have hsame := hothers ⟨old, List.mem_of_getElem? hold, hwaits⟩
      refine ⟨⟨ips, hsame⟩, _, hself, ?_⟩
      rw [hsame]
    · obtain ⟨hok, asker, hasker, hsame⟩ := h.ended i old fut result hold (heq.symm.trans hended)
      have hnasks : ¬ asker.phase.Asks c := fun hc => hc.ne_ended hsame
      have hnwaits : ¬ asker.phase.Waits c := fun hc => hc.ne_ended hsame
      exact ⟨hok, asker, hkeep hasker hnasks hnwaits, hsame⟩

end Flights

/-! ### The two structures -/

/-- The cache and the order hold the same hosts, and the order is that of an LRU list. -/
structure Twins (cfg : DnsConfig) (cache : Dict String (List String × ℚ)) (order : LRUCache String Unit) : Prop where
  mirrors : ∃ fifo : FifoCache String Unit cfg.maxSize, order.Mirrors fifo
  hosts : ∀ host, host ∈ cache.keys ↔ host ∈ order.keys

section Twins

variable {cfg : DnsConfig} {cache : Dict String (List String × ℚ)} {order : LRUCache String Unit}

theorem size_erase_le (cache : Dict String (List String × ℚ)) (host : String) : (cache.erase host).size ≤ cache.size :=
  List.length_filter_le _ _

theorem twins_init (hpos : 0 < cfg.maxSize) : Twins cfg .empty { maxSize := cfg.maxSize } where
  mirrors := ⟨_, LRUCache.mirrors_new hpos⟩
  hosts _ := Iff.rfl

theorem Twins.size_eq (h : Twins cfg cache order) : cache.size = order.data.size := by
  obtain ⟨fifo, hfifo⟩ := h.mirrors
  rw [Dict.size_eq_length hfifo.nodup fun key => (h.hosts key).symm, ← Dict.size_eq_length hfifo.nodup]
  exact fun _ => hfifo.mem_order_iff

theorem Twins.size_le (h : Twins cfg cache order) : cache.size ≤ cfg.maxSize := by
  obtain ⟨fifo, hfifo⟩ := h.mirrors
  rw [h.size_eq, ← hfifo.maxSize]
  exact hfifo.size_le

theorem Twins.moveToEnd (h : Twins cfg cache order) (host : String) : Twins cfg cache (order.moveToEnd host) := by
  obtain ⟨fifo, hfifo⟩ := h.mirrors
  have hmoved := LRUCache.mirrors_moveToEnd hfifo host
  refine ⟨⟨_, hmoved⟩, fun key => ?_⟩
  rw [h.hosts, LRUCache.keys, LRUCache.keys, hfifo.mem_order_iff, hmoved.mem_order_iff]
  rfl

theorem mem_keys_pop {fifo : FifoCache String Unit cfg.maxSize} (hfifo : order.Mirrors fifo) (host key : String) :
    key ∈ (order.pop host none).2.keys ↔ key ≠ host ∧ key ∈ order.keys := by
  have hpop := (LRUCache.pop_spec hfifo host none).2
  rw [LRUCache.keys, LRUCache.keys, hpop.mem_order_iff, hfifo.mem_order_iff, hpop.mem_keys_iff, hfifo.mem_keys_iff,
    FifoCache.keys_erase, fifo.nodup.mem_erase_iff]

theorem Twins.drop (h : Twins cfg cache order) (host : String) :
    Twins cfg (cache.erase host) (order.pop host none).2 := by
  obtain ⟨fifo, hfifo⟩ := h.mirrors
  refine ⟨⟨_, (LRUCache.pop_spec hfifo host none).2⟩, fun key => ?_⟩
  rw [mem_keys_pop hfifo, Dict.mem_keys_erase, h.hosts]

theorem Twins.put (h : Twins cfg cache order) (host : String)
    (hroom : host ∈ cache.keys ∨ cache.size < cfg.maxSize) (value : List String × ℚ) :
    ∃ order', order.setItem host () = (.ok (), order') ∧ Twins cfg (cache.insert host value) order' := by
  obtain ⟨fifo, hfifo⟩ := h.mirrors
  obtain ⟨order', hmirrors, hset⟩ := LRUCache.setItem_spec hfifo host ()
  refine ⟨order', hset, ⟨_, hmirrors⟩, fun key => ?_⟩
  have hroom' : host ∈ order.data.keys ∨ order.data.size < order.maxSize := by
    rw [← hfifo.mem_order_iff, ← h.size_eq, hfifo.maxSize]
    exact hroom.imp_left (h.hosts host).1
  have hdata := LRUCache.data_setItem hroom' ()
  rw [hset] at hdata
  rw [LRUCache.keys, hmirrors.mem_order_iff, hdata, Dict.mem_keys_insert, Dict.mem_keys_insert, h.hosts,
    LRUCache.keys, hfifo.mem_order_iff]

theorem Twins.of_keys (h : Twins cfg cache order) {cache' : Dict String (List String × ℚ)}
    (hkeys : ∀ key, key ∈ cache'.keys ↔ key ∈ cache.keys) : Twins cfg cache' order :=
  ⟨h.mirrors, fun key => (hkeys key).trans (h.hosts key)⟩

theorem Twins.popLru (h : Twins cfg cache order) (hne : 0 < cache.size) :
    ∃ oldest order', order.popLru = (.ok (oldest, ()), order') ∧ oldest ∈ cache.keys ∧
      Twins cfg (cache.erase oldest) order' := by
  obtain ⟨fifo, hfifo⟩ := h.mirrors
  have hpop := LRUCache.popLru_spec hfifo
  cases hhead : fifo.entries.head? with
  | none =>
    rw [h.size_eq, hfifo.size_eq, List.head?_eq_none_iff.1 hhead] at hne
    exact absurd hne (Nat.lt_irrefl 0)
  | some e =>
    rw [hhead] at hpop
    obtain ⟨order', hmirrors, hpopped⟩ := hpop
    have hmem : e.1 ∈ fifo.keys := List.mem_map_of_mem (List.mem_of_head? hhead)
    refine ⟨e.1, order', hpopped, ?_, ⟨_, hmirrors⟩, fun key => ?_⟩
    · rw [h.hosts, LRUCache.keys, hfifo.order]
      exact hmem
    · rw [Dict.mem_keys_erase, h.hosts, LRUCache.keys, LRUCache.keys, hfifo.order, hmirrors.order]
      exact (FifoCache.mem_keys_dropOldest hhead).symm

/-- One round of the loop makes room, once the host is out of the order. -/
theorem evict_spec (h : Twins cfg cache order) (hpos : 0 < cfg.maxSize) (host : String)
    (hroom : cfg.maxSize ≤ cache.size → host ∈ cache.keys → 2 ≤ cfg.maxSize) :
    ∃ cache' order', DnsCache.evict cfg ((order.pop host none).2.keys.length + 1) cache (order.pop host none).2 =
        (.ok (), cache', order') ∧ (cache'.erase host).size < cfg.maxSize ∧ Twins cfg (cache'.erase host) order' := by
  have hdropped := h.drop host
  by_cases hfull : cfg.maxSize ≤ cache.size
  · have hsize : cache.size = cfg.maxSize := Nat.le_antisymm h.size_le hfull
    have hleft : 0 < (cache.erase host).size := by
      by_cases hmem : host ∈ cache.keys
      · have htwo := hroom hfull hmem
        rw [Dict.size_erase hmem]
        omega
      · rw [Dict.erase_of_notMem hmem]
        omega
    obtain ⟨oldest, order', hpopped, hmem, htwins⟩ := hdropped.popLru hleft
    obtain ⟨n, hn⟩ : ∃ n, (order.pop host none).2.keys.length = n + 1 := by
      apply Nat.exists_eq_succ_of_ne_zero
      intro hzero
      have hin := (hdropped.hosts oldest).1 hmem
      rw [List.length_eq_zero_iff.1 hzero] at hin
      cases hin
    rw [Dict.mem_keys_erase] at hmem
    have hless : (cache.erase oldest).size < cfg.maxSize := by
      rw [Dict.size_erase hmem.2]
      omega
    have hswap : ∀ key, key ∈ ((cache.erase oldest).erase host).keys ↔
        key ∈ ((cache.erase host).erase oldest).keys := by
      intro key
      simp only [Dict.mem_keys_erase]
      exact and_left_comm
    have htwins' := htwins.of_keys hswap
    refine ⟨cache.erase oldest, order', ?_, ?_, htwins'⟩
    · rw [hn, DnsCache.evict, if_pos hfull, hpopped]
      simp only
      rw [DnsCache.evict, if_neg (Nat.not_le.2 hless)]
    · exact (size_erase_le _ _).trans_lt hless
  · have hless := Nat.lt_of_not_le hfull
    refine ⟨cache, (order.pop host none).2, ?_, (size_erase_le _ _).trans_lt hless, hdropped⟩
    rw [DnsCache.evict, if_neg hfull]

end Twins

/-! ### One step -/

/-- What the steps carry along. -/
structure Carried (cfg : DnsConfig) (s : DnsCache) : Prop where
  flights : Flights s.inflight s.calls
  twins : Twins cfg s.cache s.order

theorem carried_init {cfg : DnsConfig} (hpos : 0 < cfg.maxSize) : Carried cfg (.init cfg) :=
  ⟨flights_nil, twins_init hpos⟩

section Steps

variable {env : DnsEnv} {cfg : DnsConfig} {s : DnsCache} {c : Nat} {call : DnsCall} {now : ℚ}

theorem Carried.answerNow (h : Carried cfg s) (hcall : s.calls[c]? = some call) (hidle : call.phase.Idle)
    (prefetched : Bool) (ips : Option (List String)) : Carried cfg (s.answerNow c prefetched ips) :=
  ⟨h.flights.withPhase_idle hcall hidle (.inl trivial), h.twins⟩

theorem Carried.join (h : Carried cfg s) (hcall : s.calls[c]? = some call) (hidle : call.phase.Idle) :
    Carried cfg (s.join cfg c call.host now) := by
  rw [DnsCache.join]
  split
  · next fut hfut => exact ⟨h.flights.withPhase_idle hcall hidle (.inr ⟨fut, rfl, hfut⟩), h.twins⟩
  · next hfree =>
    rw [DnsCache.ask]
    split
    · exact ⟨h.flights.reserve hcall hidle hfree rfl, h.twins⟩
    · exact ⟨h.flights.reserve hcall hidle hfree rfl, h.twins⟩

theorem Carried.start (h : Carried cfg s) (hcall : s.calls[c]? = some call) (hidle : call.phase.Idle)
    (prefetched : Bool) : Carried cfg (s.start cfg c call.host prefetched now) := by
  rw [DnsCache.start]
  split
  · exact h.answerNow hcall hidle prefetched none
  · split
    · split
      · exact Carried.answerNow (s := { s with order := s.order.moveToEnd call.host })
          ⟨h.flights, h.twins.moveToEnd call.host⟩ hcall hidle prefetched _
      · exact Carried.join (s := { s with
            cache := s.cache.erase call.host, order := (s.order.pop call.host none).2 })
          ⟨h.flights, h.twins.drop call.host⟩ hcall hidle
    · exact h.join hcall hidle

theorem Carried.conclude (h : Carried cfg s) (hcall : s.calls[c]? = some call) (hasks : call.phase.Asks c)
    {ips : Option (List String)} {others : DnsResult} (hothers : (∃ w ∈ s.calls, w.phase.Waits c) → others = .ok ips) :
    Carried cfg { s.conclude c (.ok ips) others with inflight := s.inflight.erase call.host } :=
  ⟨h.flights.conclude hcall hasks hothers, h.twins⟩

theorem store_spec (h : Twins cfg s.cache s.order) (hpos : 0 < cfg.maxSize) {host : String}
    (hroom : cfg.maxSize ≤ s.cache.size → host ∈ s.cache.keys → 2 ≤ cfg.maxSize) (ips : List String) (started : ℚ) :
    ∃ cache order, s.store cfg host ips started = (.ok (), { s with cache := cache, order := order }) ∧
      Twins cfg cache order := by
  obtain ⟨cache, order, hevict, hless, htwins⟩ := evict_spec h hpos host hroom
  obtain ⟨order', hset, hput⟩ := htwins.put host (.inr hless) (ips, started)
  refine ⟨cache.insert host (ips, started), order', ?_, hput.of_keys fun key => ?_⟩
  · rw [DnsCache.store]
    simp only [hevict, hset]
  · rw [Dict.mem_keys_insert, Dict.mem_keys_insert, Dict.mem_keys_erase]
    by_cases hkey : key = host
    · simp [hkey]
    · simp [hkey]

theorem Carried.finish (h : Carried cfg s) (hpos : 0 < cfg.maxSize) (hcall : s.calls[c]? = some call)
    (hasks : call.phase.Asks c) (ips : Option (List String)) (started : ℚ)
    (hroom : cfg.maxSize ≤ s.cache.size → call.host ∈ s.cache.keys → 2 ≤ cfg.maxSize) :
    Carried cfg (s.finish cfg c call ips started) := by
  cases ips with
  | none => exact h.conclude hcall hasks fun _ => rfl
  | some ips =>
    cases ips with
    | nil => exact h.conclude hcall hasks fun _ => rfl
    | cons ip ips =>
      obtain ⟨cache, order, hstore, htwins⟩ := store_spec h.twins hpos hroom (ip :: ips) started
      rw [DnsCache.finish, hstore]
      · exact Carried.conclude (s := { s with cache := cache, order := order }) ⟨h.flights, htwins⟩ hcall hasks
          fun _ => rfl
      · nofun

theorem Carried.spawn (h : Carried cfg s) (hosts : List String) : Carried cfg (s.spawn hosts) := by
  rw [DnsCache.spawn]
  split
  · exact h
  · refine ⟨h.flights.append fun call hcall => ?_, h.twins⟩
    obtain ⟨host, _, rfl⟩ := List.mem_map.1 hcall
    trivial

theorem Carried.prefetch (h : Carried cfg s) (urls : List String) : Carried cfg (s.prefetch env cfg urls) := by
  rw [DnsCache.prefetch]
  split
  · exact h
  · split
    · exact ⟨h.flights, h.twins⟩
    · exact h.spawn _

/-- The hosts of a batch that are new to the cache. -/
def newHosts (cache : Dict String (List String × ℚ)) (entries : List (String × List String)) :
    List (String × List String) :=
  entries.filter fun e => decide (e.2 ≠ [] ∧ e.1 ∉ cache.keys)

theorem newHosts_cons (cache : Dict String (List String × ℚ)) (e : String × List String)
    (rest : List (String × List String)) : newHosts cache (e :: rest) =
      if e.2 ≠ [] ∧ e.1 ∉ cache.keys then e :: newHosts cache rest else newHosts cache rest := by
  rw [newHosts, List.filter_cons]
  simp only [decide_eq_true_eq]
  rfl

theorem newHosts_insert (cache : Dict String (List String × ℚ)) (value : List String × ℚ) {host : String}
    {rest : List (String × List String)} (h : host ∉ rest.map Prod.fst) :
    newHosts (cache.insert host value) rest = newHosts cache rest := by
  apply List.filter_congr
  intro e he
  have hne : e.1 ≠ host := fun hc => h (hc ▸ List.mem_map_of_mem he)
  rw [decide_eq_decide, Dict.mem_keys_insert]
  simp [hne]

theorem storeBatched_spec (now : ℚ) (h : Twins cfg s.cache s.order) (e : String × List String)
    (hroom : e.2 ≠ [] → e.1 ∈ s.cache.keys ∨ s.cache.size < cfg.maxSize) :
    ∃ s', s.storeBatched now e = (.ok s', s') ∧ Twins cfg s'.cache s'.order ∧ s'.calls = s.calls ∧
      s'.inflight = s.inflight ∧
      s'.cache = if e.2 = [] then s.cache else s.cache.insert e.1 (e.2, now) := by
  rw [DnsCache.storeBatched]
  by_cases hnone : e.2 = []
  · rw [if_pos hnone, if_pos hnone]
    exact ⟨s, rfl, h, rfl, rfl, rfl⟩
  · obtain ⟨order', hset, htwins⟩ := h.put e.1 (hroom hnone) (e.2, now)
    rw [if_neg hnone, if_neg hnone]
    simp only [hset]
    exact ⟨_, rfl, htwins.moveToEnd e.1, rfl, rfl, rfl⟩

theorem storeAll_spec (now : ℚ) (h : Twins cfg s.cache s.order) (entries : List (String × List String))
    (hnodup : (entries.map Prod.fst).Nodup) (hroom : s.cache.size + (newHosts s.cache entries).length ≤ cfg.maxSize) :
    ∃ s', s.storeAll now entries = (true, s') ∧ Twins cfg s'.cache s'.order ∧ s'.calls = s.calls ∧
      s'.inflight = s.inflight := by
  induction entries generalizing s with
  | nil => exact ⟨s, rfl, h, rfl, rfl⟩
  | cons e rest ih =>
    rw [List.map_cons, List.nodup_cons] at hnodup
    have hfits : e.2 ≠ [] → e.1 ∈ s.cache.keys ∨ s.cache.size < cfg.maxSize := by
      intro hsome
      by_cases hmem : e.1 ∈ s.cache.keys
      · exact .inl hmem
      · rw [newHosts_cons, if_pos ⟨hsome, hmem⟩, List.length_cons] at hroom
        exact .inr (by omega)
    obtain ⟨s', hstored, htwins, hcalls, hinflight, hcache⟩ := storeBatched_spec now h e hfits
    have hroom' : s'.cache.size + (newHosts s'.cache rest).length ≤ cfg.maxSize := by
      by_cases hnone : e.2 = []
      · rw [if_pos hnone] at hcache
        rw [newHosts_cons, if_neg fun hc => hc.1 hnone] at hroom
        rw [hcache]
        exact hroom
      · rw [if_neg hnone] at hcache
        rw [hcache, newHosts_insert _ _ hnodup.1, Dict.size_insert]
        by_cases hmem : e.1 ∈ s.cache.keys
        · rw [newHosts_cons, if_neg fun hc => hc.2 hmem] at hroom
          rw [if_pos hmem]
          exact hroom
        · rw [newHosts_cons, if_pos ⟨hnone, hmem⟩, List.length_cons] at hroom
          rw [if_neg hmem]
          omega
    obtain ⟨s'', hall, htwins'', hcalls', hinflight'⟩ := ih htwins hnodup.2 hroom'
    refine ⟨s'', ?_, htwins'', hcalls'.trans hcalls, hinflight'.trans hinflight⟩
    rw [DnsCache.storeAll, hstored]
    exact hall

/-- The call has come to the resolver of the system. -/
def DnsPhase.OnSystem : DnsPhase → Bool
  | .askingSystem _ _ => true
  | _ => false

/-- A resolution that the call of `resolve` reports as `None`. -/
def Lookup.Fails : Lookup → Bool
  | .osError => true
  | .valueError => true
  | _ => false

/-- A resolution that has found something to store. -/
def Lookup.Finds : Lookup → Bool
  | .addresses ips => !ips.isEmpty
  | _ => false

/-- The task is not cancelled and ends with no exception other than `OSError` and `ValueError`; with one of these it
has no waiters; and a host that has come into a full cache meanwhile is not alone there. -/
def CalmAnswer (cfg : DnsConfig) (s : DnsCache) (c : Nat) (call : DnsCall) (lookup : Lookup) : Prop :=
  lookup ≠ .cancelled ∧
  (call.phase.OnSystem = true →
    lookup ≠ .other ∧ (lookup.Fails = true → ∀ w ∈ s.calls, ¬ w.phase.Waits c)) ∧
  (lookup.Finds = true → cfg.maxSize ≤ s.cache.size → call.host ∈ s.cache.keys → 2 ≤ cfg.maxSize)

instance (c : Nat) (call : DnsCall) (lookup : Lookup) : Decidable (CalmAnswer cfg s c call lookup) :=
  inferInstanceAs (Decidable (_ ∧ _))

/-- A resolution ends calmly, and a batch finds room. -/
def Calm (cfg : DnsConfig) (s : DnsCache) (e : DnsEvent) : Prop :=
  match e.action with
  | .answer c lookup => ∀ call ∈ s.calls[c]?, call.phase.Asks c → CalmAnswer cfg s c call lookup
  | .batch b (some results) => ∀ hosts ∈ s.batches[b]?, hosts.isSome = true →
      s.cache.size + (newHosts s.cache results.entries).length ≤ cfg.maxSize
  | _ => True

instance : ∀ (s : DnsCache) (e : DnsEvent), Decidable (Calm cfg s e)
  | _, ⟨_, .answer _ _⟩ => inferInstanceAs (Decidable (∀ _ ∈ _, _ → _))
  | _, ⟨_, .batch _ (some _)⟩ => inferInstanceAs (Decidable (∀ _ ∈ _, _ → _))
  | _, ⟨_, .batch _ none⟩ => inferInstanceAs (Decidable True)
  | _, ⟨_, .resolve _⟩ => inferInstanceAs (Decidable True)
  | _, ⟨_, .prefetch _⟩ => inferInstanceAs (Decidable True)
  | _, ⟨_, .begin _⟩ => inferInstanceAs (Decidable True)
  | _, ⟨_, .enter _⟩ => inferInstanceAs (Decidable True)

theorem Carried.failed (h : Carried cfg s) (hcall : s.calls[c]? = some call) (hasks : call.phase.Asks c)
    (hwaits : ∀ w ∈ s.calls, ¬ w.phase.Waits c) (e : DnsError) : Carried cfg (s.failed c call e) := by
  apply h.conclude hcall hasks
  intro hw
  obtain ⟨w, hmem, hw⟩ := hw
  exact absurd hw (hwaits w hmem)

theorem Carried.rustAnswer (h : Carried cfg s) (hpos : 0 < cfg.maxSize) (hcall : s.calls[c]? = some call)
    (hasks : call.phase.Asks c) {lookup : Lookup} (hcalm : CalmAnswer cfg s c call lookup) (started : ℚ) :
    Carried cfg (s.rustAnswer cfg c call started lookup) := by
  have hnext : Carried cfg { s.setPhase c (.askingSystem c started) with
      queries := s.queries ++ [.getaddrinfo (splitPort call.host).1 (splitPort call.host).2] } :=
    ⟨h.flights.restage hcall hasks rfl, h.twins⟩
  cases lookup with
  | addresses ips =>
    cases ips with
    | nil => exact hnext
    | cons ip ips => exact h.finish hpos hcall hasks (some (ip :: ips)) started (hcalm.2.2 rfl)
  | cancelled => exact absurd rfl hcalm.1
  | nothing => exact hnext
  | osError => exact hnext
  | valueError => exact hnext
  | other => exact hnext

theorem Carried.systemAnswer (h : Carried cfg s) (hpos : 0 < cfg.maxSize) (hcall : s.calls[c]? = some call)
    (hasks : call.phase.Asks c) (hsystem : call.phase.OnSystem = true) {lookup : Lookup}
    (hcalm : CalmAnswer cfg s c call lookup) (started : ℚ) :
    Carried cfg (s.systemAnswer cfg c call started lookup) := by
  obtain ⟨hother, hfails⟩ := hcalm.2.1 hsystem
  cases lookup with
  | addresses ips =>
    cases ips with
    | nil => exact h.conclude hcall hasks fun _ => rfl
    | cons ip ips => exact h.finish hpos hcall hasks (some (ip :: ips)) started (hcalm.2.2 rfl)
  | nothing => exact h.conclude hcall hasks fun _ => rfl
  | osError => exact h.failed hcall hasks (hfails rfl) .osError
  | valueError => exact h.failed hcall hasks (hfails rfl) .valueError
  | other => exact absurd rfl hother
  | cancelled => exact absurd rfl hcalm.1

theorem Carried.answer (h : Carried cfg s) (hpos : 0 < cfg.maxSize) {lookup : Lookup}
    (hcalm : ∀ call ∈ s.calls[c]?, call.phase.Asks c → CalmAnswer cfg s c call lookup) :
    Carried cfg (s.answer cfg c lookup) := by
  rw [DnsCache.answer]
  cases hcall : s.calls[c]? with
  | none => exact h
  | some call =>
    simp only
    split
    · next fut started hphase =>
      have hfut : fut = c := (h.flights.asks c call fut hcall (by rw [hphase]; rfl)).1
      have hasks : call.phase.Asks c := by rw [hphase]; exact hfut
      exact h.rustAnswer hpos hcall hasks (hcalm call hcall hasks) started
    · next fut started hphase =>
      have hfut : fut = c := (h.flights.asks c call fut hcall (by rw [hphase]; rfl)).1
      have hasks : call.phase.Asks c := by rw [hphase]; exact hfut
      exact h.systemAnswer hpos hcall hasks (by rw [hphase]; rfl) (hcalm call hcall hasks) started
    · exact h

theorem Carried.beginPrefetch (h : Carried cfg s) (c : Nat) : Carried cfg (s.beginPrefetch cfg c now) := by
  rw [DnsCache.beginPrefetch]
  split
  · next host hcall =>
    split
    · exact ⟨h.flights.withPhase_idle hcall trivial (.inl trivial), h.twins⟩
    · exact Carried.start (s := { s with semaphore := s.semaphore.take }) ⟨h.flights, h.twins⟩ hcall trivial true
  · exact h

theorem Carried.enterPrefetch (h : Carried cfg s) (c : Nat) : Carried cfg (s.enterPrefetch cfg c now) := by
  rw [DnsCache.enterPrefetch]
  split
  · next host hcall =>
    split
    · exact Carried.start (s := { s with semaphore := s.semaphore.leave c }) ⟨h.flights, h.twins⟩ hcall trivial true
    · exact h
  · exact h

theorem Carried.batchAnswer (h : Carried cfg s) {b : Nat} {answer : Option (Dict String (List String))}
    (hcalm : ∀ results ∈ answer, ∀ hosts ∈ s.batches[b]?, hosts.isSome = true →
      s.cache.size + (newHosts s.cache results.entries).length ≤ cfg.maxSize) :
    Carried cfg (s.batchAnswer b answer now) := by
  rw [DnsCache.batchAnswer]
  split
  · next hosts hbatch =>
    have htaken : Carried cfg { s with batches := s.batches.set b none } := ⟨h.flights, h.twins⟩
    cases answer with
    | none => exact htaken.spawn hosts
    | some results =>
      obtain ⟨s', hall, htwins, hcalls, hinflight⟩ := storeAll_spec now htaken.twins results.entries
        results.nodup_keys (hcalm results rfl _ hbatch rfl)
      simp only [hall]
      refine ⟨?_, htwins⟩
      rw [hcalls, hinflight]
      exact h.flights
  · exact h

theorem carried_step (hpos : 0 < cfg.maxSize) {e : DnsEvent} (h : Carried cfg s) (hcalm : Calm cfg s e) :
    Carried cfg (dnsStep env cfg s e) := by
  obtain ⟨now, action⟩ := e
  cases action with
  | resolve host =>
    have hflights : Flights s.inflight (s.calls ++ [⟨host, false, .scheduled⟩]) := by
      apply h.flights.append
      intro call hmem
      rw [List.mem_singleton.1 hmem]
      trivial
    exact Carried.start (s := { s with calls := s.calls ++ [⟨host, false, .scheduled⟩] }) ⟨hflights, h.twins⟩
      List.getElem?_concat_length trivial false
  | prefetch urls => exact h.prefetch urls
  | begin c => exact h.beginPrefetch c
  | enter c => exact h.enterPrefetch c
  | answer c lookup => exact h.answer hpos hcalm
  | batch b answer =>
    apply h.batchAnswer
    intro results hresults
    cases hresults
    exact hcalm

end Steps

/-! ### Whole runs -/

/-- One resolution per host is in flight, its entry is gone once it has ended, its waiters have ended with it and as it
did, and the two structures hold the same hosts, at most `max_size` of them. -/
structure Settled (cfg : DnsConfig) (s : DnsCache) : Prop where
  single : ∀ (i j : Nat) (call call' : DnsCall) (fut fut' : Nat), s.calls[i]? = some call → s.calls[j]? = some call' →
    call.phase.Asks fut → call'.phase.Asks fut' → call.host = call'.host → i = j
  gone : ∀ (host : String) (fut : Nat), s.inflight.get? host = some fut →
    ∃ call : DnsCall, s.calls[fut]? = some call ∧ call.phase.Asks fut ∧ call.host = host
  waiters : ∀ call ∈ s.calls, ∀ fut, call.phase.Waits fut →
    ∃ asker : DnsCall, s.calls[fut]? = some asker ∧ asker.phase.Asks fut
  outcome : ∀ call ∈ s.calls, ∀ fut result, call.phase = .ended (some fut) result →
    (∃ ips, result = .ok ips) ∧ ∃ asker : DnsCall, s.calls[fut]? = some asker ∧ asker.phase = .ended (some fut) result
  hosts : ∀ host, host ∈ s.cache.keys ↔ host ∈ s.order.keys
  bounded : s.cache.size ≤ cfg.maxSize

theorem Carried.settled {cfg : DnsConfig} {s : DnsCache} (h : Carried cfg s) : Settled cfg s where
  single i j call call' fut fut' hcall hcall' hasks hasks' hhost := by
    have hi := (h.flights.asks i call fut hcall hasks).2
    have hj := (h.flights.asks j call' fut' hcall' hasks').2
    rw [hhost, hj] at hi
    exact (Option.some_inj.1 hi).symm
  gone := h.flights.flying
  waiters call hmem fut hwaits := by
    obtain ⟨i, hi⟩ := List.mem_iff_getElem?.1 hmem
    exact h.flights.waits i call fut hi hwaits
  outcome call hmem fut result hended := by
    obtain ⟨i, hi⟩ := List.mem_iff_getElem?.1 hmem
    exact h.flights.ended i call fut result hi hended
  hosts := h.twins.hosts
  bounded := h.twins.size_le

/-! ### What goes wrong -/

section Converse

variable {env : DnsEnv} {cfg : DnsConfig} {s : DnsCache} {c : Nat} {call : DnsCall} {now : ℚ}

theorem not_settled_of_error {call : DnsCall} (hmem : call ∈ s.calls) {fut : Nat} {e : DnsError}
    (hended : call.phase = .ended (some fut) (.error e)) : ¬ Settled cfg s := by
  intro h
  obtain ⟨⟨ips, hok⟩, _⟩ := h.outcome call hmem fut (.error e) hended
  cases hok

theorem not_settled_abandon (hcall : s.calls[c]? = some call) (prefetched : Bool) (e : DnsError) :
    ¬ Settled cfg (s.abandon c prefetched e) :=
  not_settled_of_error (List.mem_of_getElem? (getElem?_withPhase_self hcall (.ended (some c) (.error e)))) rfl

theorem not_settled_failed {w : DnsCall} (hmem : w ∈ s.calls) (hwaits : w.phase.Waits c) (e : DnsError) :
    ¬ Settled cfg (s.failed c call e) := by
  have hmem' : ({ w with phase := w.phase.conclude c (.ok none) (.error e) } : DnsCall) ∈ (s.failed c call e).calls :=
    List.mem_map_of_mem hmem
  apply not_settled_of_error hmem'
  have hnasks : ¬ w.phase.Asks c := fun hc => hc.not_waits hwaits
  exact (if_neg hnasks).trans (if_pos hwaits)

theorem store_error (h : Twins cfg s.cache s.order) {host : String} (hfull : cfg.maxSize ≤ s.cache.size)
    (hmem : host ∈ s.cache.keys) (hone : ¬ 2 ≤ cfg.maxSize) (ips : List String) (started : ℚ) :
    ∃ s', s.store cfg host ips started = (.error .keyError, s') ∧ s'.calls = s.calls := by
  have hdropped := h.drop host
  have hempty : (s.order.pop host none).2.keys = [] := by
    rw [List.eq_nil_iff_forall_not_mem]
    intro key hkey
    have hin := (hdropped.hosts key).2 hkey
    have hsize : (s.cache.erase host).size = 0 := by
      have hle := h.size_le
      rw [Dict.size_erase hmem]
      omega
    rw [← Dict.length_keys, List.length_eq_zero_iff] at hsize
    rw [hsize] at hin
    cases hin
  have hpop : (s.order.pop host none).2.popLru =
      (.error (.empty "pop_lru from empty cache"), (s.order.pop host none).2) := by
    have horder : (s.order.pop host none).2.order.order = [] := hempty
    rw [LRUCache.popLru, OrderTracker.popLru, horder]
  refine ⟨{ s with order := (s.order.pop host none).2 }, ?_, rfl⟩
  rw [DnsCache.store]
  simp only [DnsCache.evict, if_pos hfull, hpop]

theorem not_settled_finish (h : Carried cfg s) (hcall : s.calls[c]? = some call) {ip : String} {ips : List String}
    (started : ℚ) (hfull : cfg.maxSize ≤ s.cache.size) (hmem : call.host ∈ s.cache.keys) (hone : ¬ 2 ≤ cfg.maxSize) :
    ¬ Settled cfg (s.finish cfg c call (some (ip :: ips)) started) := by
  obtain ⟨s', hstore, hcalls⟩ := store_error h.twins hfull hmem hone (ip :: ips) started
  rw [DnsCache.finish, hstore]
  · exact not_settled_abandon (hcalls ▸ hcall) _ _
  · nofun

theorem size_storeAll (now : ℚ) {fifo : FifoCache String Unit cfg.maxSize} (h : s.order.Mirrors fifo)
    (entries : List (String × List String)) (hnodup : (entries.map Prod.fst).Nodup) :
    ∃ s', s.storeAll now entries = (true, s') ∧ s'.cache.size = s.cache.size + (newHosts s.cache entries).length := by
  induction entries generalizing s fifo with
  | nil => exact ⟨s, rfl, rfl⟩
  | cons e rest ih =>
    rw [List.map_cons, List.nodup_cons] at hnodup
    by_cases hnone : e.2 = []
    · obtain ⟨s', hall, hsize⟩ := ih h hnodup.2
      refine ⟨s', ?_, ?_⟩
      · rw [DnsCache.storeAll, DnsCache.storeBatched, if_pos hnone]
        exact hall
      · rw [newHosts_cons, if_neg fun hc => hc.1 hnone]
        exact hsize
    · obtain ⟨order', hmirrors, hset⟩ := LRUCache.setItem_spec h e.1 ()
      obtain ⟨s', hall, hsize⟩ := ih (s := { s with
        cache := s.cache.insert e.1 (e.2, now), order := order'.moveToEnd e.1 })
        (LRUCache.mirrors_moveToEnd hmirrors e.1) hnodup.2
      refine ⟨s', ?_, ?_⟩
      · rw [DnsCache.storeAll, DnsCache.storeBatched, if_neg hnone]
        simp only [hset]
        exact hall
      · rw [hsize, newHosts_insert _ _ hnodup.1, Dict.size_insert, newHosts_cons]
        by_cases hmem : e.1 ∈ s.cache.keys
        · rw [if_pos hmem, if_neg fun hc => hc.2 hmem]
        · rw [if_neg hmem, if_pos ⟨hnone, hmem⟩, List.length_cons]
          omega

theorem calmAnswer_of_settled (h : Carried cfg s) (hcall : s.calls[c]? = some call) {lookup : Lookup} {started : ℚ}
    (hphase : call.phase = .askingRust c started ∨ call.phase = .askingSystem c started)
    (hsettled : Settled cfg (s.answer cfg c lookup)) : CalmAnswer cfg s c call lookup := by
  have hanswer : s.answer cfg c lookup =
      if call.phase.OnSystem = true then s.systemAnswer cfg c call started lookup
      else s.rustAnswer cfg c call started lookup := by
    rw [DnsCache.answer, hcall]
    rcases hphase with hphase | hphase
    · simp only [hphase]
      rfl
    · simp only [hphase]
      rfl
  rw [hanswer] at hsettled
  have hnot : lookup ≠ .cancelled := by
    rintro rfl
    split at hsettled
    · exact not_settled_abandon hcall _ _ hsettled
    · exact not_settled_abandon hcall _ _ hsettled
  refine ⟨hnot, fun hsystem => ⟨?_, fun hfails w hw hwaits => ?_⟩, fun hfinds hfull hmem => ?_⟩
  · rintro rfl
    rw [if_pos hsystem] at hsettled
    exact not_settled_abandon hcall _ _ hsettled
  · rw [if_pos hsystem] at hsettled
    cases lookup with
    | osError => exact not_settled_failed hw hwaits _ hsettled
    | valueError => exact not_settled_failed hw hwaits _ hsettled
    | _ => cases hfails
  · by_contra hone
    cases lookup with
    | addresses ips =>
      cases ips with
      | nil => cases hfinds
      | cons ip ips =>
        split at hsettled
        · exact not_settled_finish h hcall started hfull hmem hone hsettled
        · exact not_settled_finish h hcall started hfull hmem hone hsettled
    | _ => cases hfinds

theorem calm_of_settled (h : Carried cfg s) {e : DnsEvent} (hsettled : Settled cfg (dnsStep env cfg s e)) :
    Calm cfg s e := by
  obtain ⟨now, action⟩ := e
  cases action with
  | resolve host => trivial
  | prefetch urls => trivial
  | begin c => trivial
  | enter c => trivial
  | answer c lookup =>
    intro call hcall hasks
    cases hphase : call.phase with
    | askingRust fut started =>
      obtain rfl : fut = c := by
        rw [hphase] at hasks
        exact hasks
      exact calmAnswer_of_settled h hcall (.inl hphase) hsettled
    | askingSystem fut started =>
      obtain rfl : fut = c := by
        rw [hphase] at hasks
        exact hasks
      exact calmAnswer_of_settled h hcall (.inr hphase) hsettled
    | _ =>
      rw [hphase] at hasks
      exact hasks.elim
  | batch b answer =>
    cases answer with
    | none => trivial
    | some results =>
      intro hosts hbatch hsome
      obtain ⟨hosts, rfl⟩ := Option.isSome_iff_exists.1 hsome
      obtain ⟨fifo, hfifo⟩ := h.twins.mirrors
      obtain ⟨s', hall, hsize⟩ := size_storeAll (s := { s with batches := s.batches.set b none }) now hfifo
        results.entries results.nodup_keys
      have hbounded := hsettled.bounded
      rw [dnsStep] at hbounded
      simp only [DnsCache.batchAnswer, Option.mem_def.1 hbatch, hall] at hbounded
      rw [hsize] at hbounded
      exact hbounded

end Converse

/-- The states on the way are all settled exactly when every step is calm. -/
theorem settled_iff_calm {env : DnsEnv} {cfg : DnsConfig} (hpos : 0 < cfg.maxSize) (events : List DnsEvent) :
    (∀ pre, pre <+: events → Settled cfg (dnsRun env cfg pre)) ↔
      StepsMeet (dnsStep env cfg) (Calm cfg) (.init cfg) events :=
  forall_prefix_iff_stepsMeet_of_carried (K := Carried cfg) (fun _ h => h.settled)
    (fun _ _ h hcalm => carried_step hpos h hcalm)
    (fun _ _ h => ⟨calm_of_settled h, fun hcalm => (carried_step hpos h hcalm).settled⟩) (carried_init hpos) events

/-- No location is refused, and a set is read in the order in which its members came. -/
def plainEnv : DnsEnv where
  urls := ⟨fun _ => false, fun host => host.map Char.toLower⟩
  order := id
  perm _ := .rfl

/-- Two callers share a resolution, and the next host takes the place of theirs. -/
theorem settled_iff_calm_shared :
    (∀ pre, pre <+: [⟨0, .resolve "a.org"⟩, ⟨0, .resolve "a.org"⟩, ⟨1, .answer 0 (.addresses ["192.0.2.1"])⟩,
      ⟨2, .resolve "b.org"⟩, ⟨3, .answer 2 (.addresses ["192.0.2.2"])⟩] →
      Settled { maxSize := 1 } (dnsRun plainEnv { maxSize := 1 } pre)) ↔
    StepsMeet (dnsStep plainEnv { maxSize := 1 }) (Calm { maxSize := 1 }) (.init { maxSize := 1 })
      [⟨0, .resolve "a.org"⟩, ⟨0, .resolve "a.org"⟩, ⟨1, .answer 0 (.addresses ["192.0.2.1"])⟩,
      ⟨2, .resolve "b.org"⟩, ⟨3, .answer 2 (.addresses ["192.0.2.2"])⟩] :=
  settled_iff_calm (by decide) _

/-- The second of two callers gets the `OSError` that the first reports as `None`. -/
theorem not_settled :
    ¬ ∀ (env : DnsEnv) (cfg : DnsConfig) (events : List DnsEvent), 0 < cfg.maxSize →
      ∀ pre, pre <+: events → Settled cfg (dnsRun env cfg pre) := by
  intro h
  have hsettled := h plainEnv {} [⟨0, .resolve "a.org"⟩, ⟨0, .resolve "a.org"⟩, ⟨1, .answer 0 .osError⟩] (by decide) _
    (List.prefix_refl _)
  have hcall : (dnsRun plainEnv {} [⟨0, .resolve "a.org"⟩, ⟨0, .resolve "a.org"⟩, ⟨1, .answer 0 .osError⟩]).calls[1]? =
      some ⟨"a.org", false, .ended (some 0) (.error .osError)⟩ := by
    rfl
  exact not_settled_of_error (List.mem_of_getElem? hcall) rfl hsettled

end Hledac.Transport
