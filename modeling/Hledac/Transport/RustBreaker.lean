import Hledac.Transport.CircuitBreaker

/-!
# The Rust domain breaker

`rust_extensions/src/circuit_breaker.rs`: the state kept for each domain and the two functions
that report an outcome. The two times of a state are left out, only `should_allow_request` reads
them. The adaptive window is left out too.
-/

namespace Hledac.Transport

/-- An outcome as Rust receives it. -/
inductive Outcome where
  | success
  | failure (isTimeout : Bool)
  deriving DecidableEq

/-- `DomainState`; lines 118-135. -/
structure DomainState where
  failureCount : UInt32 := 0
  state : CBState := .closed
  halfOpenProbes : UInt32 := 0
  deriving DecidableEq

namespace DomainState

/-- `FAILURE_THRESHOLD`; line 56. -/
def failureThreshold : UInt32 := 5

/-- `DomainState::record_success`; lines 174-183. -/
def recordSuccess (_ : DomainState) : DomainState :=
  { failureCount := 0, state := .closed, halfOpenProbes := 0 }

/-- `DomainState::record_failure`; lines 185-210. `fetch_add` wraps. A timeout and
a hard error take branches that do the same. -/
def recordFailure (isTimeout : Bool) (s : DomainState) : DomainState :=
  let prev := s.failureCount
  let s := { s with failureCount := prev + 1 }
  if isTimeout then
    if prev + 1 ≥ failureThreshold then { s with state := .opened } else s
  else
    if prev + 1 ≥ failureThreshold then { s with state := .opened } else s

/-- One outcome. -/
def record (s : DomainState) : Outcome → DomainState
  | .success => s.recordSuccess
  | .failure isTimeout => s.recordFailure isTimeout

end DomainState

/-- `CIRCUIT_BREAKERS`, and the calls that reached the backend, oldest first;
line 228. -/
structure RustBackend where
  states : String → Option DomainState
  received : List (String × Outcome)

namespace RustBackend

/-- The backend before any call. -/
def empty : RustBackend := ⟨fun _ => none, []⟩

/-- `get_or_create_state`, what it finds; lines 239-260. -/
def stateOf (r : RustBackend) (domain : String) : DomainState :=
  (r.states domain).getD {}

/-- `circuit_breaker_record_success` and `circuit_breaker_record_failure`;
lines 283-302. -/
def receive (r : RustBackend) (domain : String) (o : Outcome) : RustBackend where
  states := if domain = "" then r.states
    else Function.update r.states domain (some ((r.stateOf domain).record o))
  received := r.received ++ [(domain, o)]

/-- `circuit_breaker_clear_all`; lines 321-323. -/
def clearAll (r : RustBackend) : RustBackend := { r with states := fun _ => none }

/-- The outcomes that reached the backend for one domain. -/
def receivedFor (r : RustBackend) (domain : String) : List Outcome :=
  (r.received.filter fun c => c.1 = domain).map Prod.snd

@[simp] theorem receivedFor_receive (r : RustBackend) (domain : String) (o : Outcome) :
    (r.receive domain o).receivedFor domain = r.receivedFor domain ++ [o] := by
  simp [receivedFor, receive]

@[simp] theorem stateOf_receive (r : RustBackend) {domain : String} (hd : domain ≠ "")
    (o : Outcome) : (r.receive domain o).stateOf domain = (r.stateOf domain).record o := by
  simp [stateOf, receive, hd]

end RustBackend

end Hledac.Transport
