import Hledac.Lib.Machine
import Hledac.Lib.Semaphore
import Hledac.Py.Parse
import Hledac.Py.Url
import Hledac.Utils.LruCache

/-!
# The DNS cache

`DnsCache` of `src/transport/dns_cache.py`. The sections under the lock never wait, so a task runs from its start to
its first wait in one step: until then it has answered, joined a resolution that is in flight, or asked a resolver.
Waiters of a future end in the step in which the future does. A resolver's answer, or the cancellation of the task that
asked, is the input of a later step.
-/

namespace Hledac.Transport

open Hledac.Lib Hledac.Py Hledac.Utils

/-! ### Host names -/

/-- The guard of `resolve` and `prefetch`, line 141. -/
def endsDarknet (host : String) : Bool :=
  ".onion".toList.isSuffixOf (lower host).toList || ".i2p".toList.isSuffixOf (lower host).toList

/-- `host.rsplit(":", 1)`, of a host with a colon. -/
def rsplitColon (host : List Char) : List Char × List Char :=
  (((host.reverse.dropWhile (· ≠ ':')).drop 1).reverse, (host.reverse.takeWhile (· ≠ ':')).reverse)

/-- The name and the port that are resolved, line 175. -/
def splitPort (host : String) : String × Int :=
  if ':' ∈ host.toList then
    let parts := rsplitColon host.toList
    match readInt (String.ofList parts.2) with
    | some port => (String.ofList parts.1, port)
    | none => (host, 443)
  else (host, 443)

/-! ### The cache -/

/-- The arguments of `DnsCache` and what it finds installed. -/
structure DnsConfig where
  maxSize : Nat := 1024
  ttl : ℚ := 60
  prefetchMaxUrls : Nat := 500
  prefetchConcurrency : Nat := 50
  hasRustDns : Bool := false
  hasRustDnsAsync : Bool := false

/-- The library that parses URLs, and the order in which a set of hosts is read. -/
structure DnsEnv where
  urls : UrlParser
  order : List String → List String
  perm : ∀ hosts, (order hosts).Perm hosts

/-- How a call of a resolver ends, or the task that waits for it. -/
inductive Lookup where
  | addresses (ips : List String)
  | nothing
  | osError
  | valueError
  | other
  | cancelled
  deriving DecidableEq

/-- What a call of `resolve` raises. -/
inductive DnsError where
  | osError
  | valueError
  | other
  | cancelled
  | keyError
  deriving DecidableEq

/-- What a call of `resolve` returns or raises. -/
abbrev DnsResult := Except DnsError (Option (List String))

/-- Where a call of `resolve` stands. A future is named by the call that made it; a call that has ended has the future
on which it did, if any. -/
inductive DnsPhase where
  | scheduled
  | queued
  | askingRust (fut : Nat) (started : ℚ)
  | askingSystem (fut : Nat) (started : ℚ)
  | waiting (fut : Nat)
  | ended (fut : Option Nat) (result : DnsResult)

/-- A call of `resolve`, by a caller or for a prefetch. -/
structure DnsCall where
  host : String
  prefetched : Bool
  phase : DnsPhase

/-- What is handed to a resolver. -/
inductive DnsQuery where
  | rust (name : String)
  | getaddrinfo (name : String) (port : Int)
  | prefetch (names : List String)
  deriving DecidableEq

/-- `DnsCache`, line 53, with the calls so far, the batches that `rust.dns` works on and all queries. -/
structure DnsCache where
  cache : Dict String (List String × ℚ) := .empty
  inflight : Dict String Nat := .empty
  order : LRUCache String Unit
  semaphore : Semaphore Nat
  calls : List DnsCall := []
  batches : List (Option (List String)) := []
  queries : List DnsQuery := []

namespace DnsPhase

/-- The call waits for a resolver, and ends its future. -/
def Asks (fut : Nat) : DnsPhase → Prop
  | .askingRust f _ => f = fut
  | .askingSystem f _ => f = fut
  | _ => False

instance (fut : Nat) : ∀ p : DnsPhase, Decidable (p.Asks fut)
  | .scheduled => inferInstanceAs (Decidable False)
  | .queued => inferInstanceAs (Decidable False)
  | .askingRust _ _ => inferInstanceAs (Decidable (_ = _))
  | .askingSystem _ _ => inferInstanceAs (Decidable (_ = _))
  | .waiting _ => inferInstanceAs (Decidable False)
  | .ended _ _ => inferInstanceAs (Decidable False)

/-- The call waits for the future of another. -/
def Waits (fut : Nat) : DnsPhase → Prop
  | .waiting f => f = fut
  | _ => False

instance (fut : Nat) : ∀ p : DnsPhase, Decidable (p.Waits fut)
  | .scheduled => inferInstanceAs (Decidable False)
  | .queued => inferInstanceAs (Decidable False)
  | .askingRust _ _ => inferInstanceAs (Decidable False)
  | .askingSystem _ _ => inferInstanceAs (Decidable False)
  | .waiting _ => inferInstanceAs (Decidable (_ = _))
  | .ended _ _ => inferInstanceAs (Decidable False)

/-- A future ends: one result for the call that asked, one for those that wait. -/
def conclude (fut : Nat) (own others : DnsResult) (p : DnsPhase) : DnsPhase :=
  if p.Asks fut then .ended (some fut) own else if p.Waits fut then .ended (some fut) others else p

end DnsPhase

namespace DnsCache

/-- `__init__`. -/
def init (cfg : DnsConfig) : DnsCache where
  order := { maxSize := cfg.maxSize }
  semaphore := { value := cfg.prefetchConcurrency }

def setPhase (s : DnsCache) (c : Nat) (phase : DnsPhase) : DnsCache :=
  { s with calls := s.calls.modify c fun call => { call with phase := phase } }

/-- The tasks for a prefetch that have ended give their slots back. -/
def releaseSlots (s : DnsCache) (n : Nat) : DnsCache := { s with semaphore := Semaphore.release^[n] s.semaphore }

/-- A call ends without a future. -/
def answerNow (s : DnsCache) (c : Nat) (prefetched : Bool) (ips : Option (List String)) : DnsCache :=
  (s.setPhase c (.ended none (.ok ips))).releaseSlots (if prefetched then 1 else 0)

/-- A future ends, and with it the call that asked and those that wait. -/
def conclude (s : DnsCache) (fut : Nat) (own others : DnsResult) : DnsCache :=
  let slots := s.calls.countP fun call => call.prefetched && decide (call.phase.Asks fut ∨ call.phase.Waits fut)
  let s' : DnsCache :=
    { s with calls := s.calls.map fun call => { call with phase := call.phase.conclude fut own others } }
  s'.releaseSlots slots

/-- The call that asked ends with an exception that nobody handles: its future never ends. -/
def abandon (s : DnsCache) (c : Nat) (prefetched : Bool) (e : DnsError) : DnsCache :=
  (s.setPhase c (.ended (some c) (.error e))).releaseSlots (if prefetched then 1 else 0)

/-- A call that found nothing asks `rust.dns` first, where it is installed. -/
def ask (cfg : DnsConfig) (s : DnsCache) (c : Nat) (host : String) (now : ℚ) : DnsCache :=
  let s := { s with inflight := s.inflight.insert host c }
  if cfg.hasRustDns then
    { s.setPhase c (.askingRust c now) with queries := s.queries ++ [.rust (splitPort host).1] }
  else
    { s.setPhase c (.askingSystem c now) with
      queries := s.queries ++ [.getaddrinfo (splitPort host).1 (splitPort host).2] }

/-- A call that has nothing in the cache joins the resolution in flight, or asks. -/
def join (cfg : DnsConfig) (s : DnsCache) (c : Nat) (host : String) (now : ℚ) : DnsCache :=
  match s.inflight.get? host with
  | some fut => s.setPhase c (.waiting fut)
  | none => s.ask cfg c host now

/-- `resolve` up to its first wait, line 128. -/
def start (cfg : DnsConfig) (s : DnsCache) (c : Nat) (host : String) (prefetched : Bool) (now : ℚ) : DnsCache :=
  if endsDarknet host then s.answerNow c prefetched none
  else
    match s.cache.get? host with
    | some (ips, cachedAt) =>
      if now - cachedAt < cfg.ttl then
        { s with order := s.order.moveToEnd host }.answerNow c prefetched (some ips)
      else
        { s with cache := s.cache.erase host, order := (s.order.pop host none).2 }.join cfg c host now
    | none => s.join cfg c host now

/-- The loop that makes room, line 194: it pops the order and then the cache, and raises where the order is
empty. Every round takes one host out of the order. -/
def evict (cfg : DnsConfig) : Nat → Dict String (List String × ℚ) → LRUCache String Unit →
    Except DnsError Unit × Dict String (List String × ℚ) × LRUCache String Unit
  | 0, cache, order => (.error .keyError, cache, order)
  | rounds + 1, cache, order =>
    if cfg.maxSize ≤ cache.size then
      match order.popLru with
      | (.ok (oldest, _), order) => evict cfg rounds (cache.erase oldest) order
      | (.error _, order) => (.error .keyError, cache, order)
    else (.ok (), cache, order)

/-- The addresses of a host are stored, line 192. -/
def store (cfg : DnsConfig) (s : DnsCache) (host : String) (ips : List String) (started : ℚ) :
    Except DnsError Unit × DnsCache :=
  let order := (s.order.pop host none).2
  match evict cfg (order.keys.length + 1) s.cache order with
  | (.error e, cache, order) => (.error e, { s with cache := cache, order := order })
  | (.ok _, cache, order) =>
    match order.setItem host () with
    | (.ok _, order) => (.ok (), { s with cache := cache.insert host (ips, started), order := order })
    | (.error _, order) => (.error .keyError, { s with cache := cache.insert host (ips, started), order := order })

/-- The resolution has ended without an exception, line 190. -/
def finish (cfg : DnsConfig) (s : DnsCache) (c : Nat) (call : DnsCall) (ips : Option (List String)) (started : ℚ) :
    DnsCache :=
  match ips with
  | none => { s.conclude c (.ok none) (.ok none) with inflight := s.inflight.erase call.host }
  | some [] => { s.conclude c (.ok (some [])) (.ok (some [])) with inflight := s.inflight.erase call.host }
  | some ips =>
    match s.store cfg call.host ips started with
    | (.ok _, s) => { s.conclude c (.ok (some ips)) (.ok (some ips)) with inflight := s.inflight.erase call.host }
    | (.error e, s) => s.abandon c call.prefetched e

/-- `except (OSError, ValueError)`, line 203: the caller gets `None`, the waiters the exception. -/
def failed (s : DnsCache) (c : Nat) (call : DnsCall) (e : DnsError) : DnsCache :=
  { s.conclude c (.ok none) (.error e) with inflight := s.inflight.erase call.host }

/-- `rust.dns` has answered call `c`; whatever it raises stands for no answer, and the system is asked. -/
def rustAnswer (cfg : DnsConfig) (s : DnsCache) (c : Nat) (call : DnsCall) (started : ℚ) : Lookup → DnsCache
  | .addresses (ip :: ips) => s.finish cfg c call (some (ip :: ips)) started
  | .cancelled => s.abandon c call.prefetched .cancelled
  | _ =>
    { s.setPhase c (.askingSystem c started) with
      queries := s.queries ++ [.getaddrinfo (splitPort call.host).1 (splitPort call.host).2] }

/-- `async_getaddrinfo` has ended for call `c`. -/
def systemAnswer (cfg : DnsConfig) (s : DnsCache) (c : Nat) (call : DnsCall) (started : ℚ) : Lookup → DnsCache
  | .addresses ips => s.finish cfg c call (some ips) started
  | .nothing => s.finish cfg c call none started
  | .osError => s.failed c call .osError
  | .valueError => s.failed c call .valueError
  | .other => s.abandon c call.prefetched .other
  | .cancelled => s.abandon c call.prefetched .cancelled

/-! ### Prefetching -/

/-- The host that is prefetched for a URL, line 228. -/
def prefetchHost (env : DnsEnv) (url : String) : Option String :=
  match env.urls.netloc url.toList with
  | none => none
  | some [] => none
  | some location =>
    let cleanHost := String.ofList (location.takeWhile (· ≠ ':'))
    if endsDarknet cleanHost then none else some cleanHost

/-- `host_list`. -/
def prefetchHosts (env : DnsEnv) (cfg : DnsConfig) (urls : List String) : List String :=
  env.order ((urls.take cfg.prefetchMaxUrls).filterMap (prefetchHost env)).dedup

/-- A task for each host, unless all slots are taken, line 262. No task runs before the loop has ended. -/
def spawn (s : DnsCache) (hosts : List String) : DnsCache :=
  if s.semaphore.locked then s
  else { s with calls := s.calls ++ hosts.map fun host => ⟨host, true, .scheduled⟩ }

/-- `prefetch` up to its first wait, line 209. -/
def prefetch (env : DnsEnv) (cfg : DnsConfig) (s : DnsCache) (urls : List String) : DnsCache :=
  let hosts := prefetchHosts env cfg urls
  if hosts = [] then s
  else if cfg.hasRustDnsAsync then
    { s with batches := s.batches ++ [some hosts], queries := s.queries ++ [.prefetch hosts] }
  else s.spawn hosts

/-- One host of a batch, line 251. -/
def storeBatched (now : ℚ) (s : DnsCache) (e : String × List String) : Except DnsError DnsCache × DnsCache :=
  if e.2 = [] then (.ok s, s)
  else
    let s := { s with cache := s.cache.insert e.1 (e.2, now) }
    match s.order.setItem e.1 () with
    | (.ok _, order) =>
      let s := { s with order := order.moveToEnd e.1 }
      (.ok s, s)
    | (.error _, order) => (.error .keyError, { s with order := order })

/-- All hosts of a batch, up to the first that raises. -/
def storeAll (now : ℚ) : DnsCache → List (String × List String) → Bool × DnsCache
  | s, [] => (true, s)
  | s, e :: rest =>
    match s.storeBatched now e with
    | (.ok s, _) => storeAll now s rest
    | (.error _, s) => (false, s)

/-- `rust.dns` has answered a batch, or raised; in the second case the hosts are resolved one by one. -/
def batchAnswer (s : DnsCache) (b : Nat) (answer : Option (Dict String (List String))) (now : ℚ) : DnsCache :=
  match s.batches[b]? with
  | some (some hosts) =>
    let s := { s with batches := s.batches.set b none }
    match answer with
    | none => s.spawn hosts
    | some results =>
      match s.storeAll now results.entries with
      | (true, s) => s
      | (false, s) => s.spawn hosts
  | _ => s

/-- `_prefetch_one`, line 272: the task runs first, and takes a slot or queues up for one. -/
def beginPrefetch (cfg : DnsConfig) (s : DnsCache) (c : Nat) (now : ℚ) : DnsCache :=
  match s.calls[c]? with
  | some ⟨host, true, .scheduled⟩ =>
    if s.semaphore.locked then { s.setPhase c .queued with semaphore := s.semaphore.enqueue c }
    else { s with semaphore := s.semaphore.take }.start cfg c host true now
  | _ => s

/-- The task runs on with a slot that was set aside for it. -/
def enterPrefetch (cfg : DnsConfig) (s : DnsCache) (c : Nat) (now : ℚ) : DnsCache :=
  match s.calls[c]? with
  | some ⟨host, true, .queued⟩ =>
    if s.semaphore.stateOf c = some .granted then
      { s with semaphore := s.semaphore.leave c }.start cfg c host true now
    else s
  | _ => s

/-- A resolver has answered. -/
def answer (cfg : DnsConfig) (s : DnsCache) (c : Nat) (lookup : Lookup) : DnsCache :=
  match s.calls[c]? with
  | some call =>
    match call.phase with
    | .askingRust _ started => s.rustAnswer cfg c call started lookup
    | .askingSystem _ started => s.systemAnswer cfg c call started lookup
    | _ => s
  | none => s

end DnsCache

/-! ### Runs -/

/-- What happens next: a task calls `resolve` or `prefetch`, a prefetching task runs, or a resolver answers. -/
inductive DnsAction where
  | resolve (host : String)
  | prefetch (urls : List String)
  | begin (call : Nat)
  | enter (call : Nat)
  | answer (call : Nat) (lookup : Lookup)
  | batch (b : Nat) (answer : Option (Dict String (List String)))

/-- An action and its time. -/
structure DnsEvent where
  now : ℚ
  action : DnsAction

/-- One step; what cannot happen changes nothing. -/
def dnsStep (env : DnsEnv) (cfg : DnsConfig) (s : DnsCache) (e : DnsEvent) : DnsCache :=
  match e.action with
  | .resolve host =>
    let s' : DnsCache := { s with calls := s.calls ++ [⟨host, false, .scheduled⟩] }
    s'.start cfg s.calls.length host false e.now
  | .prefetch urls => s.prefetch env cfg urls
  | .begin c => s.beginPrefetch cfg c e.now
  | .enter c => s.enterPrefetch cfg c e.now
  | .answer c lookup => s.answer cfg c lookup
  | .batch b answer => s.batchAnswer b answer e.now

def dnsRun (env : DnsEnv) (cfg : DnsConfig) (events : List DnsEvent) : DnsCache :=
  events.foldl (dnsStep env cfg) (.init cfg)

end Hledac.Transport
