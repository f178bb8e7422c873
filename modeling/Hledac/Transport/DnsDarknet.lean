import Mathlib.Data.List.Dedup
import Hledac.Transport.DnsFlights

/-!
# Darknet names

Which darknet names reach a resolver. The guard of `resolve` looks at the argument as it is, so a port or a trailing
dot hides the suffix from it; the guard of `prefetch` looks at what stands before the first colon of the network
location, which may end in a dot or be a user name. Where neither happens, the queries do not depend on the darknet
names that are asked for.
-/

namespace Hledac.Transport

open Hledac.Lib Hledac.Py Hledac.Utils

/-! ### Darknet hosts -/

/-- The name without its trailing dot. -/
def dropDot (name : List Char) : List Char := if name.getLast? = some '.' then name.dropLast else name

/-- The host name of an argument: neither its port nor its trailing dot counts. -/
def hostName (host : String) : String := String.ofList (dropDot (host.toList.takeWhile (· ≠ ':')))

/-- The host is a hidden service or an eepsite, however it is spelled. -/
def IsDarknet (host : String) : Prop := endsDarknet (hostName host) = true

instance (host : String) : Decidable (IsDarknet host) := inferInstanceAs (Decidable (_ = _))

/-- The host of the URL is one. -/
def UrlIsDarknet (env : DnsEnv) (url : String) : Prop :=
  ∃ location, env.urls.netloc url.toList = some location ∧
    endsDarknet (String.ofList (dropDot (UrlParser.hostOf location))) = true

/-- What stands before the first colon of a network location. -/
def cleanHost (location : List Char) : String := String.ofList (location.takeWhile (· ≠ ':'))

/-- The suffix stands at the end of the argument, with no port or dot behind it. -/
def BareHost (host : String) : Prop := IsDarknet host → endsDarknet host = true

/-- What stands before the first colon of the network location shows the suffix, where the URL or that part of it is a
darknet name. -/
def BareUrl (env : DnsEnv) (url : String) : Prop :=
  ∀ location, env.urls.netloc url.toList = some location →
    UrlIsDarknet env url ∨ IsDarknet (cleanHost location) → endsDarknet (cleanHost location) = true

/-- The URL hands no darknet name on. -/
def SilentUrl (env : DnsEnv) (url : String) : Prop :=
  (UrlIsDarknet env url → DnsCache.prefetchHost env url = none) ∧
  ∀ name, DnsCache.prefetchHost env url = some name → ¬ IsDarknet name

/-- What an event asks for is spelled bare. -/
def BareEvent (env : DnsEnv) (cfg : DnsConfig) (e : DnsEvent) : Prop :=
  match e.action with
  | .resolve host => BareHost host
  | .prefetch urls => ∀ url ∈ urls.take cfg.prefetchMaxUrls, BareUrl env url
  | _ => True

/-- The names of a query. -/
def DnsQuery.names : DnsQuery → List String
  | .rust name => [name]
  | .getaddrinfo name _ => [name]
  | .prefetch names => names

/-- Two lists of URLs that differ in darknet URLs only. -/
def SameUrls (env : DnsEnv) : List String → List String → Prop :=
  List.Forall₂ fun url url' => url = url' ∨ UrlIsDarknet env url ∧ UrlIsDarknet env url'

/-- Two events that differ in darknet hosts only. -/
inductive SameEvent (env : DnsEnv) : DnsEvent → DnsEvent → Prop
  | same (e : DnsEvent) : SameEvent env e e
  | resolve (now : ℚ) (host host' : String) (h : IsDarknet host) (h' : IsDarknet host') :
      SameEvent env ⟨now, .resolve host⟩ ⟨now, .resolve host'⟩
  | prefetch (now : ℚ) (urls urls' : List String) (h : SameUrls env urls urls') :
      SameEvent env ⟨now, .prefetch urls⟩ ⟨now, .prefetch urls'⟩

section Names

variable {env : DnsEnv} {cfg : DnsConfig} {host url : String}

theorem prefetchHost_eq_some_iff {name : String} : DnsCache.prefetchHost env url = some name ↔
    ∃ location, env.urls.netloc url.toList = some location ∧ location ≠ [] ∧
      endsDarknet (cleanHost location) = false ∧ cleanHost location = name := by
  rw [DnsCache.prefetchHost]
  cases env.urls.netloc url.toList with
  | none => exact ⟨nofun, fun ⟨_, h, _⟩ => nomatch h⟩
  | some location =>
    cases location with
    | nil => exact ⟨nofun, fun ⟨_, h, hne, _⟩ => absurd (Option.some_inj.1 h).symm hne⟩
    | cons ch rest =>
      constructor
      · intro h
        simp only at h
        split at h
        · cases h
        · next hguard => exact ⟨_, rfl, nofun, Bool.not_eq_true _ ▸ hguard, Option.some_inj.1 h⟩
      · intro h
        obtain ⟨location, hlocation, _, hguard, rfl⟩ := h
        obtain rfl := Option.some_inj.1 hlocation
        exact if_neg (by rw [← cleanHost, hguard]; exact Bool.false_ne_true)

theorem location_ne_nil {location : List Char} (hlocation : env.urls.netloc url.toList = some location)
    (hdark : UrlIsDarknet env url ∨ IsDarknet (cleanHost location)) : location ≠ [] := by
  rintro rfl
  cases hdark with
  | inl hurl =>
    obtain ⟨location, hlocation', hends⟩ := hurl
    obtain rfl := Option.some_inj.1 (hlocation.symm.trans hlocation')
    revert hends
    decide
  | inr hclean =>
    revert hclean
    decide

theorem silentUrl_iff (url : String) : SilentUrl env url ↔ BareUrl env url := by
  constructor
  · intro h location hlocation hdark
    by_contra hguard
    rw [Bool.not_eq_true] at hguard
    have hne := location_ne_nil hlocation hdark
    have hname := prefetchHost_eq_some_iff.2 ⟨location, hlocation, hne, hguard, rfl⟩
    cases hdark with
    | inl hurl => cases (h.1 hurl).symm.trans hname
    | inr hclean => exact h.2 _ hname hclean
  · intro h
    constructor
    · intro hurl
      rw [Option.eq_none_iff_forall_ne_some]
      intro name hname
      obtain ⟨location, hlocation, _, hguard, _⟩ := prefetchHost_eq_some_iff.1 hname
      rw [h location hlocation (.inl hurl)] at hguard
      cases hguard
    · intro name hname hdark
      obtain ⟨location, hlocation, _, hguard, rfl⟩ := prefetchHost_eq_some_iff.1 hname
      rw [h location hlocation (.inr hdark)] at hguard
      cases hguard

theorem takeWhile_append_colon (before after : List Char) :
    (before ++ ':' :: after).takeWhile (· ≠ ':') = before.takeWhile (· ≠ ':') := by
  induction before with
  | nil => rfl
  | cons ch before ih =>
    rw [List.cons_append, List.takeWhile_cons, List.takeWhile_cons, ih]

theorem rsplitColon_eq {host : List Char} (h : ':' ∈ host) :
    host = (rsplitColon host).1 ++ ':' :: (rsplitColon host).2 := by
  obtain ⟨before, after, heq, hdrop, htake⟩ := UrlParser.exists_append_dropWhile ':' (List.mem_reverse.2 h)
  rw [rsplitColon, hdrop, htake, List.drop_succ_cons, List.drop_zero]
  have hhost : host = (before ++ ':' :: after).reverse := by
    rw [← heq, List.reverse_reverse]
  rw [hhost]
  simp

theorem hostName_splitPort (host : String) : hostName (splitPort host).1 = hostName host := by
  rw [splitPort]
  split
  · next hcolon =>
    simp only
    split
    · have hparts := rsplitColon_eq hcolon
      rw [hostName, hostName, String.toList_ofList]
      conv_rhs => rw [hparts]
      rw [takeWhile_append_colon]
    · rfl
  · rfl

theorem isDarknet_splitPort (host : String) : IsDarknet (splitPort host).1 ↔ IsDarknet host := by
  rw [IsDarknet, IsDarknet, hostName_splitPort]

end Names

/-! ### The calls and the rest -/

namespace DnsCache

variable {env : DnsEnv} {cfg : DnsConfig} {s : DnsCache} {c : Nat} {host : String} {now : ℚ}

/-- The same cache with other calls. -/
def withCalls (s : DnsCache) (calls : List DnsCall) : DnsCache := { s with calls := calls }

theorem start_withCalls (cfg : DnsConfig) (s : DnsCache) (c : Nat) (host : String) (prefetched : Bool) (now : ℚ) :
    ∃ p, ∀ calls, (s.withCalls calls).start cfg c host prefetched now =
      (s.start cfg c host prefetched now).withCalls (withPhase calls c p) := by
  have hjoin : ∀ s : DnsCache, ∃ p, ∀ calls, (s.withCalls calls).join cfg c host now =
      (s.join cfg c host now).withCalls (withPhase calls c p) := by
    intro s
    simp only [join]
    cases hget : s.inflight.get? host with
    | some fut =>
      refine ⟨.waiting fut, fun calls => ?_⟩
      simp only [withCalls, hget]
      rfl
    | none =>
      simp only [withCalls, hget, ask]
      by_cases hrust : cfg.hasRustDns = true
      · refine ⟨.askingRust c now, fun calls => ?_⟩
        simp only [if_pos hrust]
        rfl
      · refine ⟨.askingSystem c now, fun calls => ?_⟩
        simp only [if_neg hrust]
        rfl
  simp only [start]
  by_cases hguard : endsDarknet host = true
  · refine ⟨.ended none (.ok none), fun calls => ?_⟩
    simp only [if_pos hguard]
    rfl
  · simp only [if_neg hguard]
    cases hget : s.cache.get? host with
    | none =>
      obtain ⟨p, hp⟩ := hjoin s
      refine ⟨p, fun calls => ?_⟩
      have hget' : (s.withCalls calls).cache.get? host = none := hget
      rw [hget']
      exact hp calls
    | some entry =>
      by_cases hfresh : now - entry.2 < cfg.ttl
      · refine ⟨.ended none (.ok (some entry.1)), fun calls => ?_⟩
        have hget' : (s.withCalls calls).cache.get? host = some entry := hget
        rw [hget']
        simp only [if_pos hfresh]
        rfl
      · obtain ⟨p, hp⟩ := hjoin { s with cache := s.cache.erase host, order := (s.order.pop host none).2 }
        refine ⟨p, fun calls => ?_⟩
        have hget' : (s.withCalls calls).cache.get? host = some entry := hget
        rw [hget']
        simp only [if_neg hfresh]
        exact hp calls

theorem abandon_withCalls (s : DnsCache) (calls : List DnsCall) (c : Nat) (prefetched : Bool) (e : DnsError) :
    (s.withCalls calls).abandon c prefetched e =
      (s.abandon c prefetched e).withCalls (withPhase calls c (.ended (some c) (.error e))) := rfl

/-- The tasks for a prefetch that a future ends. -/
def endsWith (fut : Nat) (call : DnsCall) : Bool :=
  call.prefetched && decide (call.phase.Asks fut ∨ call.phase.Waits fut)

theorem conclude_withCalls (s : DnsCache) {calls : List DnsCall} {fut : Nat}
    (hslots : calls.countP (endsWith fut) = s.calls.countP (endsWith fut)) (own others : DnsResult) :
    (s.withCalls calls).conclude fut own others =
      (s.conclude fut own others).withCalls (concluded calls fut own others) := by
  have hrelease : ∀ n, n = s.calls.countP (endsWith fut) →
      (s.withCalls (concluded calls fut own others)).releaseSlots n =
        (s.conclude fut own others).withCalls (concluded calls fut own others) := by
    rintro n rfl
    rfl
  exact hrelease _ hslots

theorem store_withCalls (cfg : DnsConfig) (s : DnsCache) (calls : List DnsCall) (host : String) (ips : List String)
    (started : ℚ) : (s.withCalls calls).store cfg host ips started =
      ((s.store cfg host ips started).1, (s.store cfg host ips started).2.withCalls calls) := by
  simp only [store, withCalls]
  rcases evict cfg _ s.cache (s.order.pop host none).2 with ⟨result, cache, order⟩
  cases result with
  | error e => rfl
  | ok _ =>
    simp only
    rcases order.setItem host () with ⟨result, order⟩
    cases result with
    | error e => rfl
    | ok _ => rfl

theorem storeBatched_withCalls (s : DnsCache) (calls : List DnsCall) (now : ℚ) (e : String × List String) :
    (s.withCalls calls).storeBatched now e =
      ((s.storeBatched now e).1.map (withCalls · calls), (s.storeBatched now e).2.withCalls calls) := by
  simp only [storeBatched, withCalls]
  split
  · rfl
  · rcases s.order.setItem e.1 () with ⟨result, order⟩
    cases result with
    | error e => rfl
    | ok _ => rfl

theorem storeAll_withCalls (s : DnsCache) (calls : List DnsCall) (now : ℚ) (entries : List (String × List String)) :
    (s.withCalls calls).storeAll now entries =
      ((s.storeAll now entries).1, (s.storeAll now entries).2.withCalls calls) := by
  induction entries generalizing s with
  | nil => rfl
  | cons e rest ih =>
    rw [storeAll, storeAll, storeBatched_withCalls]
    rcases s.storeBatched now e with ⟨result, s'⟩
    cases result with
    | error e => rfl
    | ok s'' => exact ih s''

end DnsCache

/-! ### Calls that differ in darknet hosts -/

/-- A call that was refused at once, and so is out of every step. -/
def DnsCall.Silent (call : DnsCall) : Prop := call.phase = .ended none (.ok none) ∧ call.prefetched = false

/-- Call by call the same, but for calls that were refused at once. -/
def AlikeCalls (calls calls' : List DnsCall) : Prop :=
  ∀ i : Nat, calls[i]? = calls'[i]? ∨
    ∃ call call' : DnsCall, calls[i]? = some call ∧ calls'[i]? = some call' ∧ call.Silent ∧ call'.Silent

section Alike

variable {calls calls' more : List DnsCall} {c : Nat} {call : DnsCall}

theorem alikeCalls_refl (calls : List DnsCall) : AlikeCalls calls calls := fun _ => .inl rfl

theorem AlikeCalls.length_eq (h : AlikeCalls calls calls') : calls.length = calls'.length := by
  have hnone : ∀ i : Nat, calls[i]? = none ↔ calls'[i]? = none := by
    intro i
    rcases h i with heq | ⟨a, b, ha, hb, _, _⟩
    · rw [heq]
    · rw [ha, hb]
      simp
  apply Nat.le_antisymm
  · rw [← List.getElem?_eq_none_iff, hnone, List.getElem?_eq_none_iff]
  · rw [← List.getElem?_eq_none_iff, ← hnone, List.getElem?_eq_none_iff]

theorem AlikeCalls.map {α : Type} (h : AlikeCalls calls calls') {f : DnsCall → α} {a : α}
    (hsilent : ∀ call : DnsCall, call.Silent → f call = a) : calls.map f = calls'.map f := by
  apply List.ext_getElem?
  intro i
  rw [List.getElem?_map, List.getElem?_map]
  rcases h i with heq | ⟨x, y, hx, hy, hsx, hsy⟩
  · rw [heq]
  · rw [hx, hy, Option.map_some, Option.map_some, hsilent x hsx, hsilent y hsy]

theorem DnsCall.Silent.not_endsWith (h : call.Silent) (fut : Nat) : DnsCache.endsWith fut call = false := by
  rw [DnsCache.endsWith, h.2, Bool.false_and]

theorem AlikeCalls.countP_eq (h : AlikeCalls calls calls') (fut : Nat) :
    calls'.countP (DnsCache.endsWith fut) = calls.countP (DnsCache.endsWith fut) := by
  have hmap := h.map (f := DnsCache.endsWith fut) fun call hs => hs.not_endsWith fut
  have hcount : ∀ l : List DnsCall, l.countP (DnsCache.endsWith fut) =
      (l.map (DnsCache.endsWith fut)).countP id := by
    intro l
    rw [List.countP_map]
    rfl
  rw [hcount, hcount, hmap]

theorem AlikeCalls.append (h : AlikeCalls calls calls') (more : List DnsCall) :
    AlikeCalls (calls ++ more) (calls' ++ more) := by
  intro i
  rw [List.getElem?_append, List.getElem?_append, h.length_eq]
  split
  · exact h i
  · exact .inl rfl

theorem AlikeCalls.append_silent (h : AlikeCalls calls calls') {call' : DnsCall} (hs : call.Silent)
    (hs' : call'.Silent) : AlikeCalls (calls ++ [call]) (calls' ++ [call']) := by
  intro i
  rw [List.getElem?_append, List.getElem?_append, h.length_eq]
  split
  · exact h i
  · cases hi : i - calls'.length with
    | zero => exact .inr ⟨call, call', rfl, rfl, hs, hs'⟩
    | succ n => exact .inl rfl

theorem AlikeCalls.withPhase (h : AlikeCalls calls calls') (hsame : calls[c]? = calls'[c]?) (p : DnsPhase) :
    AlikeCalls (withPhase calls c p) (withPhase calls' c p) := by
  intro i
  by_cases hi : c = i
  · subst hi
    rw [getElem?_withPhase, getElem?_withPhase, hsame]
    exact .inl rfl
  · rw [getElem?_withPhase_of_ne hi, getElem?_withPhase_of_ne hi]
    exact h i

theorem AlikeCalls.concluded (h : AlikeCalls calls calls') (fut : Nat) (own others : DnsResult) :
    AlikeCalls (concluded calls fut own others) (concluded calls' fut own others) := by
  have hkeep : ∀ call : DnsCall, call.Silent →
      DnsCall.Silent { call with phase := call.phase.conclude fut own others } := by
    intro call hs
    refine ⟨?_, hs.2⟩
    simp only [hs.1]
    rfl
  intro i
  simp only [Hledac.Transport.concluded, List.getElem?_map]
  rcases h i with heq | ⟨a, b, ha, hb, hsa, hsb⟩
  · exact .inl (by rw [heq])
  · exact .inr ⟨_, _, by rw [ha]; rfl, by rw [hb]; rfl, hkeep a hsa, hkeep b hsb⟩

end Alike

/-- The same state, but for calls that were refused at once. -/
def Alike (s s' : DnsCache) : Prop := ∃ calls, AlikeCalls s.calls calls ∧ s' = s.withCalls calls

section Steps

variable {env : DnsEnv} {cfg : DnsConfig} {s s' : DnsCache} {c : Nat} {call : DnsCall} {host : String} {now : ℚ}

theorem alike_refl (s : DnsCache) : Alike s s := ⟨s.calls, alikeCalls_refl _, rfl⟩

theorem Alike.queries_eq (h : Alike s s') : s'.queries = s.queries := by
  obtain ⟨calls, _, rfl⟩ := h
  rfl

theorem alike_start {calls : List DnsCall} (h : AlikeCalls s.calls calls) (hsame : s.calls[c]? = calls[c]?)
    (host : String) (prefetched : Bool) :
    Alike (s.start cfg c host prefetched now) ((s.withCalls calls).start cfg c host prefetched now) := by
  obtain ⟨p, hp⟩ := DnsCache.start_withCalls cfg s c host prefetched now
  have hself := hp s.calls
  refine ⟨withPhase calls c p, ?_, ?_⟩
  · have hcalls : (s.start cfg c host prefetched now).calls = withPhase s.calls c p :=
      congrArg DnsCache.calls hself
    rw [hcalls]
    exact h.withPhase hsame p
  · exact hp calls

theorem alike_abandon {calls : List DnsCall} (h : AlikeCalls s.calls calls) (hsame : s.calls[c]? = calls[c]?)
    (prefetched : Bool) (e : DnsError) :
    Alike (s.abandon c prefetched e) ((s.withCalls calls).abandon c prefetched e) :=
  ⟨_, h.withPhase hsame _, DnsCache.abandon_withCalls s calls c prefetched e⟩

theorem alike_conclude {calls : List DnsCall} (h : AlikeCalls s.calls calls) (fut : Nat) (own others : DnsResult)
    (inflight : Dict String Nat) :
    Alike { s.conclude fut own others with inflight := inflight }
      { (s.withCalls calls).conclude fut own others with inflight := inflight } := by
  refine ⟨concluded calls fut own others, h.concluded fut own others, ?_⟩
  rw [DnsCache.conclude_withCalls s (h.countP_eq fut)]
  rfl

theorem alike_finish {calls : List DnsCall} (h : AlikeCalls s.calls calls) (hsame : s.calls[c]? = calls[c]?)
    (call : DnsCall) (ips : Option (List String)) (started : ℚ) :
    Alike (s.finish cfg c call ips started) ((s.withCalls calls).finish cfg c call ips started) := by
  cases ips with
  | none => exact alike_conclude h c _ _ _
  | some ips =>
    cases ips with
    | nil => exact alike_conclude h c _ _ _
    | cons ip ips =>
      rw [DnsCache.finish, DnsCache.finish, DnsCache.store_withCalls]
      · have hcalls : (s.store cfg call.host (ip :: ips) started).2.calls = s.calls :=
          congrArg (fun r => r.2.calls) (DnsCache.store_withCalls cfg s s.calls call.host (ip :: ips) started)
        rcases hstore : s.store cfg call.host (ip :: ips) started with ⟨result, s'⟩
        rw [hstore] at hcalls
        have h' : AlikeCalls s'.calls calls := hcalls.symm ▸ h
        cases result with
        | error e => exact alike_abandon h' (hcalls ▸ hsame) call.prefetched e
        | ok _ => exact alike_conclude h' c _ _ _
      · simp
      · simp

theorem alike_answer {calls : List DnsCall} (h : AlikeCalls s.calls calls) (c : Nat) (lookup : Lookup) :
    Alike (s.answer cfg c lookup) ((s.withCalls calls).answer cfg c lookup) := by
  have hstay : Alike s (s.withCalls calls) := ⟨calls, h, rfl⟩
  rw [DnsCache.answer, DnsCache.answer]
  rcases h c with hsame | ⟨a, b, ha, hb, hsa, hsb⟩
  · rw [show (s.withCalls calls).calls[c]? = s.calls[c]? from hsame.symm]
    have hnext : ∀ (call : DnsCall) (started : ℚ),
        Alike { s.setPhase c (.askingSystem c started) with
            queries := s.queries ++ [.getaddrinfo (splitPort call.host).1 (splitPort call.host).2] }
          { (s.withCalls calls).setPhase c (.askingSystem c started) with
            queries := s.queries ++ [.getaddrinfo (splitPort call.host).1 (splitPort call.host).2] } :=
      fun call started => ⟨_, h.withPhase hsame _, rfl⟩
    cases s.calls[c]? with
    | none => exact hstay
    | some call =>
      simp only
      cases call.phase with
      | askingRust fut started =>
        cases lookup with
        | addresses ips =>
          cases ips with
          | nil => exact hnext call started
          | cons ip ips => exact alike_finish h hsame call (some (ip :: ips)) started
        | cancelled => exact alike_abandon h hsame _ _
        | _ => exact hnext call started
      | askingSystem fut started =>
        cases lookup with
        | addresses ips => exact alike_finish h hsame call (some ips) started
        | nothing => exact alike_conclude h c _ _ _
        | osError => exact alike_conclude h c _ _ _
        | valueError => exact alike_conclude h c _ _ _
        | other => exact alike_abandon h hsame _ _
        | cancelled => exact alike_abandon h hsame _ _
      | _ => exact hstay
  · rw [ha, show (s.withCalls calls).calls[c]? = some b from hb]
    simp only [hsa.1, hsb.1]
    exact hstay

theorem alike_spawn {calls : List DnsCall} (h : AlikeCalls s.calls calls) (hosts : List String) :
    Alike (s.spawn hosts) ((s.withCalls calls).spawn hosts) := by
  rw [DnsCache.spawn, DnsCache.spawn]
  by_cases hlocked : s.semaphore.locked = true
  · rw [if_pos hlocked, if_pos (show (s.withCalls calls).semaphore.locked = true from hlocked)]
    exact ⟨calls, h, rfl⟩
  · rw [if_neg hlocked, if_neg (show ¬ (s.withCalls calls).semaphore.locked = true from hlocked)]
    exact ⟨_, h.append _, rfl⟩

theorem alike_batchAnswer {calls : List DnsCall} (h : AlikeCalls s.calls calls) (b : Nat)
    (answer : Option (Dict String (List String))) :
    Alike (s.batchAnswer b answer now) ((s.withCalls calls).batchAnswer b answer now) := by
  rw [DnsCache.batchAnswer, DnsCache.batchAnswer, show (s.withCalls calls).batches = s.batches from rfl]
  cases s.batches[b]? with
  | none => exact ⟨calls, h, rfl⟩
  | some batch =>
    cases batch with
    | none => exact ⟨calls, h, rfl⟩
    | some hosts =>
      cases answer with
      | none => exact alike_spawn (s := { s with batches := s.batches.set b none }) h hosts
      | some results =>
        have hall := DnsCache.storeAll_withCalls { s with batches := s.batches.set b none } calls now results.entries
        have hcalls : ({ s with batches := s.batches.set b none } : DnsCache).calls =
            (DnsCache.storeAll now { s with batches := s.batches.set b none } results.entries).2.calls :=
          (congrArg (fun r => r.2.calls)
            (DnsCache.storeAll_withCalls { s with batches := s.batches.set b none } s.calls now results.entries)).symm
        simp only
        rw [show ({ s.withCalls calls with batches := s.batches.set b none } : DnsCache) =
          DnsCache.withCalls { s with batches := s.batches.set b none } calls from rfl, hall]
        rcases hstored : DnsCache.storeAll now { s with batches := s.batches.set b none } results.entries with
          ⟨done, s'⟩
        rw [hstored] at hcalls
        have h' : AlikeCalls s'.calls calls := hcalls ▸ h
        cases done with
        | true => exact ⟨calls, h', rfl⟩
        | false => exact alike_spawn h' hosts

theorem alike_beginPrefetch {calls : List DnsCall} (h : AlikeCalls s.calls calls) (c : Nat) :
    Alike (s.beginPrefetch cfg c now) ((s.withCalls calls).beginPrefetch cfg c now) := by
  have hstay : Alike s (s.withCalls calls) := ⟨calls, h, rfl⟩
  rw [DnsCache.beginPrefetch, DnsCache.beginPrefetch]
  rcases h c with hsame | ⟨⟨_, _, _⟩, ⟨_, _, _⟩, ha, hb, ⟨hphase, hdirect⟩, ⟨hphase', hdirect'⟩⟩
  · rw [show (s.withCalls calls).calls[c]? = s.calls[c]? from hsame.symm]
    split
    · next host hcall =>
      by_cases hlocked : s.semaphore.locked = true
      · rw [if_pos hlocked, if_pos (show (s.withCalls calls).semaphore.locked = true from hlocked)]
        exact ⟨_, h.withPhase hsame _, rfl⟩
      · rw [if_neg hlocked, if_neg (show ¬ (s.withCalls calls).semaphore.locked = true from hlocked)]
        exact alike_start (s := { s with semaphore := s.semaphore.take }) h hsame host true
    · exact hstay
  · rw [ha, show (s.withCalls calls).calls[c]? = _ from hb]
    obtain rfl := hdirect
    obtain rfl := hdirect'
    exact hstay

theorem alike_enterPrefetch {calls : List DnsCall} (h : AlikeCalls s.calls calls) (c : Nat) :
    Alike (s.enterPrefetch cfg c now) ((s.withCalls calls).enterPrefetch cfg c now) := by
  have hstay : Alike s (s.withCalls calls) := ⟨calls, h, rfl⟩
  rw [DnsCache.enterPrefetch, DnsCache.enterPrefetch]
  rcases h c with hsame | ⟨⟨_, _, _⟩, ⟨_, _, _⟩, ha, hb, ⟨hphase, hdirect⟩, ⟨hphase', hdirect'⟩⟩
  · rw [show (s.withCalls calls).calls[c]? = s.calls[c]? from hsame.symm]
    split
    · next host hcall =>
      by_cases hgranted : s.semaphore.stateOf c = some .granted
      · rw [if_pos hgranted, if_pos (show (s.withCalls calls).semaphore.stateOf c = some .granted from hgranted)]
        exact alike_start (s := { s with semaphore := s.semaphore.leave c }) h hsame host true
      · rw [if_neg hgranted, if_neg (show ¬ (s.withCalls calls).semaphore.stateOf c = some .granted from hgranted)]
        exact hstay
    · exact hstay
  · rw [ha, show (s.withCalls calls).calls[c]? = _ from hb]
    obtain rfl := hdirect
    obtain rfl := hdirect'
    exact hstay

theorem prefetchHosts_eq {urls urls' : List String} (h : SameUrls env urls urls')
    (hbare : ∀ url ∈ urls.take cfg.prefetchMaxUrls, BareUrl env url)
    (hbare' : ∀ url ∈ urls'.take cfg.prefetchMaxUrls, BareUrl env url) :
    DnsCache.prefetchHosts env cfg urls = DnsCache.prefetchHosts env cfg urls' := by
  have hfilter : (urls.take cfg.prefetchMaxUrls).filterMap (DnsCache.prefetchHost env) =
      (urls'.take cfg.prefetchMaxUrls).filterMap (DnsCache.prefetchHost env) := by
    generalize cfg.prefetchMaxUrls = n at hbare hbare' ⊢
    induction h generalizing n with
    | nil => rfl
    | @cons url url' urls urls' hurl _ ih =>
      cases n with
      | zero => rfl
      | succ n =>
        rw [List.take_succ_cons] at hbare hbare' ⊢
        rw [List.take_succ_cons]
        rw [List.forall_mem_cons] at hbare hbare'
        have hhost : DnsCache.prefetchHost env url = DnsCache.prefetchHost env url' := by
          rcases hurl with rfl | ⟨hdark, hdark'⟩
          · rfl
          · rw [((silentUrl_iff url).2 hbare.1).1 hdark, ((silentUrl_iff url').2 hbare'.1).1 hdark']
        rw [List.filterMap_cons, List.filterMap_cons, hhost, ih n hbare.2 hbare'.2]
  rw [DnsCache.prefetchHosts, DnsCache.prefetchHosts, hfilter]

theorem resolve_refused (hguard : endsDarknet host = true) :
    dnsStep env cfg s ⟨now, .resolve host⟩ = s.withCalls (s.calls ++ [⟨host, false, .ended none (.ok none)⟩]) := by
  have hcalls : withPhase (s.calls ++ [⟨host, false, .scheduled⟩]) s.calls.length (.ended none (.ok none)) =
      s.calls ++ [⟨host, false, .ended none (.ok none)⟩] := by
    rw [withPhase, List.modify_eq_take_cons_drop (by simp)]
    simp
  rw [← hcalls]
  show DnsCache.start _ _ _ _ _ _ = _
  rw [DnsCache.start, if_pos hguard]
  rfl

theorem alike_resolve {calls : List DnsCall} (h : AlikeCalls s.calls calls) (host : String) :
    Alike (dnsStep env cfg s ⟨now, .resolve host⟩) (dnsStep env cfg (s.withCalls calls) ⟨now, .resolve host⟩) := by
  let call : DnsCall := ⟨host, false, .scheduled⟩
  have hlast : (s.calls ++ [call])[s.calls.length]? = (calls ++ [call])[s.calls.length]? := by
    rw [List.getElem?_concat_length, h.length_eq, List.getElem?_concat_length]
  have hstart : Alike ((s.withCalls (s.calls ++ [call])).start cfg s.calls.length host false now)
      ((s.withCalls (calls ++ [call])).start cfg s.calls.length host false now) :=
    alike_start (s := s.withCalls (s.calls ++ [call])) (h.append [call]) hlast host false
  have hright : dnsStep env cfg (s.withCalls calls) ⟨now, .resolve host⟩ =
      (s.withCalls (calls ++ [call])).start cfg s.calls.length host false now := by
    rw [h.length_eq]
    rfl
  rw [hright]
  exact hstart

theorem alike_prefetch {calls : List DnsCall} (h : AlikeCalls s.calls calls) {urls urls' : List String}
    (hhosts : DnsCache.prefetchHosts env cfg urls = DnsCache.prefetchHosts env cfg urls') :
    Alike (dnsStep env cfg s ⟨now, .prefetch urls⟩) (dnsStep env cfg (s.withCalls calls) ⟨now, .prefetch urls'⟩) := by
  rw [dnsStep, dnsStep]
  simp only [DnsCache.prefetch, ← hhosts]
  by_cases hnone : DnsCache.prefetchHosts env cfg urls = []
  · rw [if_pos hnone, if_pos hnone]
    exact ⟨calls, h, rfl⟩
  · rw [if_neg hnone, if_neg hnone]
    by_cases hbatch : cfg.hasRustDnsAsync = true
    · rw [if_pos hbatch, if_pos hbatch]
      exact ⟨calls, h, rfl⟩
    · rw [if_neg hbatch, if_neg hbatch]
      exact alike_spawn h _

theorem alike_step {e e' : DnsEvent} (h : Alike s s') (hsame : SameEvent env e e') (hbare : BareEvent env cfg e)
    (hbare' : BareEvent env cfg e') : Alike (dnsStep env cfg s e) (dnsStep env cfg s' e') := by
  obtain ⟨calls, hcalls, rfl⟩ := h
  cases hsame with
  | same =>
    obtain ⟨now, action⟩ := e
    cases action with
    | resolve host => exact alike_resolve hcalls host
    | prefetch urls => exact alike_prefetch hcalls rfl
    | begin c => exact alike_beginPrefetch hcalls c
    | enter c => exact alike_enterPrefetch hcalls c
    | answer c lookup => exact alike_answer hcalls c lookup
    | batch b answer => exact alike_batchAnswer hcalls b answer
  | resolve now host host' hdark hdark' =>
    rw [resolve_refused (hbare hdark), resolve_refused (hbare' hdark')]
    exact ⟨_, hcalls.append_silent ⟨rfl, rfl⟩ ⟨rfl, rfl⟩, rfl⟩
  | prefetch now urls urls' hurls => exact alike_prefetch hcalls (prefetchHosts_eq hurls hbare hbare')

end Steps

/-! ### What is asked for -/

/-- No darknet name is asked for: calls of one were refused, and neither a batch nor a query holds one. -/
structure Hidden (s : DnsCache) : Prop where
  calls : ∀ call ∈ s.calls, IsDarknet call.host → call.phase = .ended none (.ok none)
  batches : ∀ hosts, some hosts ∈ s.batches → ∀ name ∈ hosts, ¬ IsDarknet name
  queries : ∀ q ∈ s.queries, ∀ name ∈ q.names, ¬ IsDarknet name

theorem hidden_init (cfg : DnsConfig) : Hidden (.init cfg) where
  calls _ h := nomatch h
  batches _ h := nomatch h
  queries _ h := nomatch h

section Hidden

variable {env : DnsEnv} {cfg : DnsConfig} {s : DnsCache} {c : Nat} {call : DnsCall} {host : String} {now : ℚ}

theorem Hidden.withPhase (h : Hidden s) (hcall : s.calls[c]? = some call) (hclear : ¬ IsDarknet call.host)
    (p : DnsPhase) : ∀ call' ∈ withPhase s.calls c p, IsDarknet call'.host → call'.phase = .ended none (.ok none) := by
  intro call' hmem hdark
  obtain ⟨i, hi⟩ := List.mem_iff_getElem?.1 hmem
  rcases withPhase_cases hi with ⟨rfl, old, hold, rfl⟩ | ⟨_, hold⟩
  · cases hcall.symm.trans hold
    exact absurd hdark hclear
  · exact h.calls call' (List.mem_of_getElem? hold) hdark

theorem Hidden.join (h : Hidden s) (hcall : s.calls[c]? = some call) (hclear : ¬ IsDarknet call.host) :
    Hidden (s.join cfg c call.host now) := by
  have hname : ∀ name ∈ [(splitPort call.host).1], ¬ IsDarknet name := by
    intro name hname
    rw [List.mem_singleton.1 hname, isDarknet_splitPort]
    exact hclear
  rw [DnsCache.join]
  split
  · exact ⟨h.withPhase hcall hclear _, h.batches, h.queries⟩
  · rw [DnsCache.ask]
    split
    · refine ⟨h.withPhase hcall hclear _, h.batches, fun q hq => ?_⟩
      cases List.mem_append.1 hq with
      | inl hold => exact h.queries q hold
      | inr hnew =>
        rw [List.mem_singleton.1 hnew]
        exact hname
    · refine ⟨h.withPhase hcall hclear _, h.batches, fun q hq => ?_⟩
      cases List.mem_append.1 hq with
      | inl hold => exact h.queries q hold
      | inr hnew =>
        rw [List.mem_singleton.1 hnew]
        exact hname

theorem Hidden.start (h : Hidden s) (hcall : s.calls[c]? = some call) (hclear : ¬ IsDarknet call.host)
    (prefetched : Bool) : Hidden (s.start cfg c call.host prefetched now) := by
  rw [DnsCache.start]
  split
  · exact ⟨h.withPhase hcall hclear _, h.batches, h.queries⟩
  · split
    · split
      · exact ⟨h.withPhase hcall hclear _, h.batches, h.queries⟩
      · exact Hidden.join (s := { s with
            cache := s.cache.erase call.host, order := (s.order.pop call.host none).2 })
          ⟨h.calls, h.batches, h.queries⟩ hcall hclear
    · exact h.join hcall hclear

theorem Hidden.conclude (h : Hidden s) (fut : Nat) (own others : DnsResult) (inflight : Dict String Nat) :
    Hidden { s.conclude fut own others with inflight := inflight } := by
  refine ⟨fun call hmem hdark => ?_, h.batches, h.queries⟩
  obtain ⟨old, hold, rfl⟩ := List.mem_map.1 hmem
  have hphase := h.calls old hold hdark
  simp only [hphase]
  rfl

theorem Hidden.finish (h : Hidden s) (hcall : s.calls[c]? = some call) (hclear : ¬ IsDarknet call.host)
    (ips : Option (List String)) (started : ℚ) : Hidden (s.finish cfg c call ips started) := by
  cases ips with
  | none => exact h.conclude _ _ _ _
  | some ips =>
    cases ips with
    | nil => exact h.conclude _ _ _ _
    | cons ip ips =>
      have hstored : (s.store cfg call.host (ip :: ips) started).2.calls = s.calls ∧
          (s.store cfg call.host (ip :: ips) started).2.batches = s.batches ∧
          (s.store cfg call.host (ip :: ips) started).2.queries = s.queries := by
        simp only [DnsCache.store]
        split
        · exact ⟨rfl, rfl, rfl⟩
        · split
          · exact ⟨rfl, rfl, rfl⟩
          · exact ⟨rfl, rfl, rfl⟩
      rw [DnsCache.finish]
      · rcases hstore : s.store cfg call.host (ip :: ips) started with ⟨result, s'⟩
        rw [hstore] at hstored
        obtain ⟨hcalls, hbatches, hqueries⟩ := hstored
        have h' : Hidden s' := ⟨hcalls ▸ h.calls, hbatches ▸ h.batches, hqueries ▸ h.queries⟩
        cases result with
        | error e => exact ⟨h'.withPhase (hcalls ▸ hcall) hclear _, h'.batches, h'.queries⟩
        | ok _ => exact h'.conclude _ _ _ _
      · simp

theorem Hidden.answer (h : Hidden s) (c : Nat) (lookup : Lookup) : Hidden (s.answer cfg c lookup) := by
  rw [DnsCache.answer]
  cases hcall : s.calls[c]? with
  | none => exact h
  | some call =>
    have hclear : call.phase ≠ .ended none (.ok none) → ¬ IsDarknet call.host :=
      fun hbusy hdark => hbusy (h.calls call (List.mem_of_getElem? hcall) hdark)
    simp only
    cases hphase : call.phase with
    | askingRust fut started =>
      have hother : ¬ IsDarknet call.host := hclear (by rw [hphase]; simp)
      have hnext : Hidden { s.setPhase c (.askingSystem c started) with
          queries := s.queries ++ [.getaddrinfo (splitPort call.host).1 (splitPort call.host).2] } := by
        refine ⟨h.withPhase hcall hother _, h.batches, fun q hq => ?_⟩
        cases List.mem_append.1 hq with
        | inl hold => exact h.queries q hold
        | inr hnew =>
          rw [List.mem_singleton.1 hnew]
          intro name hname
          rw [List.mem_singleton.1 hname, isDarknet_splitPort]
          exact hother
      cases lookup with
      | addresses ips =>
        cases ips with
        | nil => exact hnext
        | cons ip ips => exact h.finish hcall hother (some (ip :: ips)) started
      | cancelled => exact ⟨h.withPhase hcall hother _, h.batches, h.queries⟩
      | _ => exact hnext
    | askingSystem fut started =>
      have hother : ¬ IsDarknet call.host := hclear (by rw [hphase]; simp)
      cases lookup with
      | addresses ips => exact h.finish hcall hother (some ips) started
      | nothing => exact h.conclude _ _ _ _
      | osError => exact h.conclude _ _ _ _
      | valueError => exact h.conclude _ _ _ _
      | other => exact ⟨h.withPhase hcall hother _, h.batches, h.queries⟩
      | cancelled => exact ⟨h.withPhase hcall hother _, h.batches, h.queries⟩
    | _ => exact h

theorem Hidden.spawn (h : Hidden s) {hosts : List String} (hclear : ∀ name ∈ hosts, ¬ IsDarknet name) :
    Hidden (s.spawn hosts) := by
  rw [DnsCache.spawn]
  split
  · exact h
  · refine ⟨fun call hmem hdark => ?_, h.batches, h.queries⟩
    cases List.mem_append.1 hmem with
    | inl hold => exact h.calls call hold hdark
    | inr hnew =>
      obtain ⟨host, hhost, rfl⟩ := List.mem_map.1 hnew
      exact absurd hdark (hclear host hhost)

theorem storeAll_same (now : ℚ) (entries : List (String × List String)) (s : DnsCache) :
    (s.storeAll now entries).2.calls = s.calls ∧ (s.storeAll now entries).2.batches = s.batches ∧
      (s.storeAll now entries).2.queries = s.queries := by
  induction entries generalizing s with
  | nil => exact ⟨rfl, rfl, rfl⟩
  | cons e rest ih =>
    rw [DnsCache.storeAll, DnsCache.storeBatched]
    by_cases hnone : e.2 = []
    · rw [if_pos hnone]
      exact ih s
    · rw [if_neg hnone]
      simp only
      rcases s.order.setItem e.1 () with ⟨result, order⟩
      cases result with
      | error e => exact ⟨rfl, rfl, rfl⟩
      | ok _ => exact ih _

theorem Hidden.batchAnswer (h : Hidden s) (b : Nat) (answer : Option (Dict String (List String))) :
    Hidden (s.batchAnswer b answer now) := by
  rw [DnsCache.batchAnswer]
  split
  · next hosts hbatch =>
    have hclear := h.batches hosts (List.mem_of_getElem? hbatch)
    have hbatches : ∀ hosts, some hosts ∈ s.batches.set b none → ∀ name ∈ hosts, ¬ IsDarknet name := by
      intro hosts hmem
      cases List.mem_or_eq_of_mem_set hmem with
      | inl hold => exact h.batches hosts hold
      | inr hnew => cases hnew
    have htaken : Hidden { s with batches := s.batches.set b none } := ⟨h.calls, hbatches, h.queries⟩
    cases answer with
    | none => exact htaken.spawn hclear
    | some results =>
      have hsame := storeAll_same now results.entries { s with batches := s.batches.set b none }
      simp only
      rcases hstored : DnsCache.storeAll now { s with batches := s.batches.set b none } results.entries with ⟨done, s'⟩
      rw [hstored] at hsame
      obtain ⟨hcalls, hbatches', hqueries⟩ := hsame
      have h' : Hidden s' := ⟨hcalls ▸ h.calls, hbatches' ▸ hbatches, hqueries ▸ h.queries⟩
      cases done with
      | true => exact h'
      | false => exact h'.spawn hclear
  · exact h

theorem Hidden.beginPrefetch (h : Hidden s) (c : Nat) : Hidden (s.beginPrefetch cfg c now) := by
  rw [DnsCache.beginPrefetch]
  split
  · next host hcall =>
    have hclear : ¬ IsDarknet host := fun hdark => by
      cases h.calls _ (List.mem_of_getElem? hcall) hdark
    split
    · exact ⟨h.withPhase hcall hclear _, h.batches, h.queries⟩
    · exact Hidden.start (s := { s with semaphore := s.semaphore.take }) ⟨h.calls, h.batches, h.queries⟩ hcall hclear
        true
  · exact h

theorem Hidden.enterPrefetch (h : Hidden s) (c : Nat) : Hidden (s.enterPrefetch cfg c now) := by
  rw [DnsCache.enterPrefetch]
  split
  · next host hcall =>
    have hclear : ¬ IsDarknet host := fun hdark => by
      cases h.calls _ (List.mem_of_getElem? hcall) hdark
    split
    · exact Hidden.start (s := { s with semaphore := s.semaphore.leave c }) ⟨h.calls, h.batches, h.queries⟩ hcall
        hclear true
    · exact h
  · exact h

theorem not_isDarknet_of_mem_prefetchHosts {urls : List String}
    (hbare : ∀ url ∈ urls.take cfg.prefetchMaxUrls, BareUrl env url) {name : String}
    (hname : name ∈ DnsCache.prefetchHosts env cfg urls) : ¬ IsDarknet name := by
  rw [DnsCache.prefetchHosts, (env.perm _).mem_iff, List.mem_dedup, List.mem_filterMap] at hname
  obtain ⟨url, hurl, hhost⟩ := hname
  exact ((silentUrl_iff url).2 (hbare url hurl)).2 name hhost

theorem Hidden.prefetch (h : Hidden s) {urls : List String}
    (hbare : ∀ url ∈ urls.take cfg.prefetchMaxUrls, BareUrl env url) : Hidden (s.prefetch env cfg urls) := by
  have hclear : ∀ name ∈ DnsCache.prefetchHosts env cfg urls, ¬ IsDarknet name :=
    fun _ hname => not_isDarknet_of_mem_prefetchHosts hbare hname
  rw [DnsCache.prefetch]
  split
  · exact h
  · split
    · refine ⟨h.calls, fun hosts hmem => ?_, fun q hq => ?_⟩
      · cases List.mem_append.1 hmem with
        | inl hold => exact h.batches hosts hold
        | inr hnew =>
          cases List.mem_singleton.1 hnew
          exact hclear
      · cases List.mem_append.1 hq with
        | inl hold => exact h.queries q hold
        | inr hnew =>
          rw [List.mem_singleton.1 hnew]
          exact hclear
    · exact h.spawn hclear

theorem hidden_step {e : DnsEvent} (h : Hidden s) (hbare : BareEvent env cfg e) : Hidden (dnsStep env cfg s e) := by
  obtain ⟨now, action⟩ := e
  cases action with
  | resolve host =>
    by_cases hdark : IsDarknet host
    · rw [resolve_refused (hbare hdark)]
      refine ⟨fun call hmem hdark' => ?_, h.batches, h.queries⟩
      cases List.mem_append.1 hmem with
      | inl hold => exact h.calls call hold hdark'
      | inr hnew => rw [List.mem_singleton.1 hnew]
    · let call : DnsCall := ⟨host, false, .scheduled⟩
      have hcalls : ∀ call' ∈ s.calls ++ [call], IsDarknet call'.host → call'.phase = .ended none (.ok none) := by
        intro call' hmem hdark'
        cases List.mem_append.1 hmem with
        | inl hold => exact h.calls call' hold hdark'
        | inr hnew =>
          rw [List.mem_singleton.1 hnew] at hdark'
          exact absurd hdark' hdark
      have hadded : Hidden (s.withCalls (s.calls ++ [call])) := ⟨hcalls, h.batches, h.queries⟩
      have hnew : (s.withCalls (s.calls ++ [call])).calls[s.calls.length]? = some call := List.getElem?_concat_length
      exact hadded.start hnew hdark false
  | prefetch urls => exact h.prefetch hbare
  | begin c => exact h.beginPrefetch c
  | enter c => exact h.enterPrefetch c
  | answer c lookup => exact h.answer c lookup
  | batch b answer => exact h.batchAnswer b answer

end Hidden

/-! ### Whole runs -/

section Runs

variable {env : DnsEnv} {cfg : DnsConfig} {events events' : List DnsEvent} {s s' : DnsCache}

theorem hidden_foldl (h : Hidden s) (hbare : ∀ e ∈ events, BareEvent env cfg e) :
    Hidden (events.foldl (dnsStep env cfg) s) := by
  induction events generalizing s with
  | nil => exact h
  | cons e rest ih =>
    obtain ⟨he, hrest⟩ := List.forall_mem_cons.1 hbare
    exact ih (hidden_step h he) hrest

theorem alike_foldl (h : Alike s s') (hsame : List.Forall₂ (SameEvent env) events events')
    (hbare : ∀ e ∈ events, BareEvent env cfg e) (hbare' : ∀ e ∈ events', BareEvent env cfg e) :
    Alike (events.foldl (dnsStep env cfg) s) (events'.foldl (dnsStep env cfg) s') := by
  induction hsame generalizing s s' with
  | nil => exact h
  | cons hfirst _ ih =>
    obtain ⟨he, hrest⟩ := List.forall_mem_cons.1 hbare
    obtain ⟨he', hrest'⟩ := List.forall_mem_cons.1 hbare'
    exact ih (alike_step h hfirst he he') hrest hrest'

theorem start_eq_ask {c : Nat} {host : String} {now : ℚ} (hguard : ¬ endsDarknet host = true)
    (hcache : s.cache.get? host = none) (hinflight : s.inflight.get? host = none) (prefetched : Bool) :
    s.start cfg c host prefetched now = s.ask cfg c host now := by
  rw [DnsCache.start, if_neg hguard, hcache]
  simp only
  rw [DnsCache.join, hinflight]

theorem queries_ask_ne_nil (s : DnsCache) (c : Nat) (host : String) (now : ℚ) :
    (s.ask cfg c host now).queries ≠ [] := by
  rw [DnsCache.ask]
  split
  · exact List.append_ne_nil_of_right_ne_nil _ (by simp)
  · exact List.append_ne_nil_of_right_ne_nil _ (by simp)

theorem queries_resolve_eq_nil_iff (host : String) (now : ℚ) :
    (dnsRun env cfg [⟨now, .resolve host⟩]).queries = [] ↔ endsDarknet host = true := by
  constructor
  · intro h
    by_contra hguard
    rw [dnsRun, List.foldl_cons, List.foldl_nil, dnsStep] at h
    simp only at h
    rw [start_eq_ask hguard rfl rfl] at h
    exact queries_ask_ne_nil _ _ _ _ h
  · intro hguard
    show (dnsStep env cfg (.init cfg) ⟨now, .resolve host⟩).queries = []
    rw [resolve_refused hguard]
    rfl

end Runs

end Hledac.Transport
