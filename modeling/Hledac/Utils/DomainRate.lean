import Mathlib.Data.Rat.Floor
import Hledac.Lib.TokenBucket
import Hledac.Utils.HostGate

/-!
# The per-domain rate limiter

`DomainRateLimiter` keeps a token bucket for each host in an LRU cache;
`utils/asyncx/_rate_limit.py:130-246`. Both sections under its lock run through without a pause, so the
lock is free whenever a task gets to one of them. Times and tokens are rational numbers.
-/

namespace Hledac.Utils

open Hledac.Lib

/-- `max(1, int(rate))`. -/
def bucketCapacity (rate : ℚ) : ℚ := max 1 ⌊rate⌋

/-- `DomainRateLimiter`; lines 148-177. -/
structure DomainRateLimiter where
  rate : ℚ := 1 / 2
  maxHosts : Nat := 512
  buckets : LRUCache String (TokenBucket ℚ) := { maxSize := maxHosts }
  evicted : Nat := 0
  hits : Nat := 0
  misses : Nat := 0
  waited : Nat := 0

namespace DomainRateLimiter

def capacity (l : DomainRateLimiter) : ℚ := bucketCapacity l.rate

/-- The bucket of the host, which is a full one where there is none yet; lines 199-208. -/
def findBucket (l : DomainRateLimiter) (host : String) (now : ℚ) :
    Except (CacheError String) (TokenBucket ℚ) × DomainRateLimiter :=
  match l.buckets.get host none with
  | (some bucket, buckets) =>
    (.ok bucket, { l with buckets := buckets.moveToEnd host, hits := l.hits + 1 })
  | (none, buckets) =>
    match evictIdle buckets l.maxHosts with
    | (.error e, buckets) => (.error e, { l with buckets := buckets })
    | (.ok evictCount, buckets) =>
      let l := { l with buckets := buckets, evicted := l.evicted + evictCount }
      match l.buckets.setItem host ⟨l.capacity, now⟩ with
      | (.error e, buckets) => (.error e, { l with buckets := buckets })
      | (.ok _, buckets) =>
        (.ok ⟨l.capacity, now⟩, { l with buckets := buckets, misses := l.misses + 1 })

/-- The bucket object that the cache holds for the host has changed. -/
def store (l : DomainRateLimiter) (host : String) (bucket : TokenBucket ℚ) : DomainRateLimiter :=
  { l with buckets := { l.buckets with data := l.buckets.data.insert host bucket } }

/-- The first section: the time to wait, where the bucket has no token; lines 197-223. -/
def enter (l : DomainRateLimiter) (host : String) (now : ℚ) :
    Except (CacheError String) (Option ℚ) × DomainRateLimiter :=
  match l.findBucket host now with
  | (.error e, l) => (.error e, l)
  | (.ok bucket, l) =>
    let bucket := bucket.refill l.rate l.capacity now
    if 1 ≤ bucket.tokens then (.ok none, l.store host bucket.take)
    else (.ok (some ((1 - bucket.tokens) / l.rate)),
      { l with waited := l.waited + 1 }.store host bucket.drain)

/-- The second section, after the sleep; lines 227-236. -/
def wake (l : DomainRateLimiter) (host : String) (now : ℚ) : DomainRateLimiter :=
  match l.buckets.getItem host with
  | (.ok bucket, buckets) =>
    let bucket := bucket.refill l.rate l.capacity now
    { l with buckets := buckets }.store host (if 1 ≤ bucket.tokens then bucket.take else bucket)
  | (.error _, _) => l

end DomainRateLimiter

/-- A call of `acquire` that has left the first section, with the wait that it returns. -/
structure RateCall where
  host : String
  entered : ℚ
  wait : ℚ
  returned : Option ℚ
  deriving DecidableEq

/-- The limiter with the time of the last step and the calls of `acquire`. -/
structure RateRun where
  limiter : DomainRateLimiter
  clock : ℚ
  calls : List RateCall := []

/-- What a task does when it gets its turn: it calls `acquire`, or goes on after its sleep. -/
inductive RateAction where
  | acquire (host : String)
  | resume (call : Nat)
  deriving DecidableEq

/-- An action and its time. -/
structure RateStep where
  now : ℚ
  action : RateAction
  deriving DecidableEq

namespace RateRun

/-- `acquire` up to its sleep; lines 188-225. -/
def acquire (s : RateRun) (host : String) (now : ℚ) : RateRun :=
  match s.limiter.enter host now with
  | (.error _, l) => { s with limiter := l, clock := now }
  | (.ok none, l) => ⟨l, now, s.calls ++ [⟨host, now, 0, some now⟩]⟩
  | (.ok (some wait), l) => ⟨l, now, s.calls ++ [⟨host, now, wait, none⟩]⟩

/-- `acquire` after its sleep; lines 226-237. -/
def resume (s : RateRun) (i : Nat) (now : ℚ) : RateRun :=
  match s.calls[i]? with
  | none => { s with clock := now }
  | some c =>
    if c.returned = none then
      ⟨s.limiter.wake c.host now, now, s.calls.set i { c with returned := some now }⟩
    else { s with clock := now }

def step (s : RateRun) (e : RateStep) : RateRun :=
  match e.action with
  | .acquire host => s.acquire host e.now
  | .resume i => s.resume i e.now

/-- A new limiter at the time. -/
def init (rate : ℚ) (maxHosts : Nat) (clock : ℚ) : RateRun :=
  { limiter := { rate := rate, maxHosts := maxHosts }, clock := clock }

def run (rate : ℚ) (maxHosts : Nat) (clock : ℚ) (steps : List RateStep) : RateRun :=
  steps.foldl step (init rate maxHosts clock)

/-! ### What it is for -/

/-- The clock does not go back, and a call goes on when it sleeps and its time is over. -/
def Possible (s : RateRun) (e : RateStep) : Prop :=
  s.clock ≤ e.now ∧ match e.action with
    | .acquire _ => True
    | .resume i => ∃ c ∈ s.calls[i]?, c.returned = none ∧ c.entered + c.wait ≤ e.now

/-- The host stays in the cache. -/
def KeepsHost (host : String) (s : RateRun) (e : RateStep) : Prop :=
  host ∈ s.limiter.buckets.data.keys → host ∈ (s.step e).limiter.buckets.data.keys

/-- The calls for the host that return in the window of the length from `start` on. -/
def returns (s : RateRun) (host : String) (start length : ℚ) : Nat :=
  s.calls.countP fun c => decide (c.host = host ∧ ∃ t ∈ c.returned, TokenBucket.InWindow start length t)

/-- A call for the host that goes on after its sleep finds a token. -/
def FindsToken (host : String) (s : RateRun) (e : RateStep) : Prop :=
  match e.action with
  | .acquire _ => True
  | .resume i => ∀ c ∈ s.calls[i]?, c.host = host → ∃ b ∈ s.limiter.buckets.data.get? host,
      1 ≤ (b.refill s.limiter.rate s.limiter.capacity e.now).tokens

instance (s : RateRun) : ∀ e, Decidable (s.Possible e)
  | ⟨_, .acquire _⟩ => inferInstanceAs (Decidable (_ ∧ True))
  | ⟨_, .resume _⟩ => inferInstanceAs (Decidable (_ ∧ _))

instance (host : String) (s : RateRun) (e : RateStep) : Decidable (s.KeepsHost host e) :=
  inferInstanceAs (Decidable (_ → _))

instance (host : String) (s : RateRun) : ∀ e, Decidable (s.FindsToken host e)
  | ⟨_, .acquire _⟩ => inferInstanceAs (Decidable True)
  | ⟨_, .resume i⟩ => inferInstanceAs (Decidable (∀ c ∈ s.calls[i]?, _))

/-! ### The sections -/

section Sections

variable (l : DomainRateLimiter) (host : String) (now : ℚ)

/-- The first section takes the bucket of the host, or a full one where there is none, or raises. -/
theorem findBucket_cases :
    (∃ b l', l.findBucket host now = (.ok b, l') ∧ l'.rate = l.rate ∧
      (l.buckets.data.get? host).getD ⟨l.capacity, now⟩ = b ∧
      ∀ k v, host ≠ k → l'.buckets.data.get? k = some v → l.buckets.data.get? k = some v) ∨
    ∃ e l', l.findBucket host now = (.error e, l') ∧ l'.rate = l.rate ∧
      ∀ k v, l'.buckets.data.get? k = some v → l.buckets.data.get? k = some v := by
  obtain ⟨hfound, hsame⟩ := LRUCache.data_get l.buckets host none
  rw [Option.or_none] at hfound
  rw [DomainRateLimiter.findBucket]
  cases hget : l.buckets.get host none with
  | mk found buckets =>
    rw [hget] at hfound hsame
    simp only at hsame hfound
    cases found with
    | some b =>
      refine .inl ⟨b, _, rfl, rfl, by rw [← hfound]; rfl, ?_⟩
      intro k v _ hk
      exact hsame ▸ hk
    | none =>
      simp only
      have hevict (k : String) (v : TokenBucket ℚ) :
          (evictIdle buckets l.maxHosts).2.data.get? k = some v → buckets.data.get? k = some v :=
        get?_evictIdle
      rw [hsame] at hevict
      cases hev : evictIdle buckets l.maxHosts with
      | mk result buckets' =>
        rw [hev] at hevict
        cases result with
        | error e => exact .inr ⟨e, _, rfl, rfl, hevict⟩
        | ok n =>
          simp only
          cases hset : buckets'.setItem host
              ⟨DomainRateLimiter.capacity { l with buckets := buckets', evicted := l.evicted + n }, now⟩ with
          | mk done buckets'' =>
            cases done with
            | error e =>
              refine .inr ⟨e, _, rfl, rfl, ?_⟩
              intro k v hk
              exact hevict k v (LRUCache.get?_of_setItem_error hset hk)
            | ok _ =>
              refine .inl ⟨_, _, rfl, rfl, by rw [← hfound]; rfl, ?_⟩
              intro k v hne hk
              apply hevict
              have hnew := LRUCache.get?_setItem buckets' (by rw [hset]; exact hk)
              exact hnew.resolve_left fun hc => hne hc.1

theorem get?_store (b : TokenBucket ℚ) (k : String) :
    (l.store host b).buckets.data.get? k = if host = k then some b else l.buckets.data.get? k :=
  Dict.get?_insert

theorem enter_cases :
    (∃ l', l.enter host now = (.ok none, l') ∧ l'.rate = l.rate ∧
      (let b := ((l.buckets.data.get? host).getD ⟨l.capacity, now⟩).refill l.rate l.capacity now
       1 ≤ b.tokens ∧ l'.buckets.data.get? host = some b.take) ∧
      ∀ k v, host ≠ k → l'.buckets.data.get? k = some v → l.buckets.data.get? k = some v) ∨
    (∃ wait l', l.enter host now = (.ok (some wait), l') ∧ l'.rate = l.rate ∧
      (let b := ((l.buckets.data.get? host).getD ⟨l.capacity, now⟩).refill l.rate l.capacity now
       l'.buckets.data.get? host = some b.drain) ∧
      ∀ k v, host ≠ k → l'.buckets.data.get? k = some v → l.buckets.data.get? k = some v) ∨
    ∃ e l', l.enter host now = (.error e, l') ∧ l'.rate = l.rate ∧
      ∀ k v, l'.buckets.data.get? k = some v → l.buckets.data.get? k = some v := by
  rw [DomainRateLimiter.enter]
  rcases findBucket_cases l host now with ⟨b, l', hfind, hrate, hbucket, hothers⟩ |
    ⟨e, l', hfind, hrate, hsub⟩
  · have hcapacity : l'.capacity = l.capacity := by
      rw [DomainRateLimiter.capacity, DomainRateLimiter.capacity, hrate]
    rw [hfind]
    simp only
    rw [hbucket, hrate, hcapacity]
    split
    · next htoken =>
      refine .inl ⟨_, rfl, hrate, ⟨htoken, ?_⟩, ?_⟩
      · rw [get?_store, if_pos rfl]
      · intro k v hne hk
        rw [get?_store, if_neg hne] at hk
        exact hothers k v hne hk
    · refine .inr (.inl ⟨_, _, rfl, rfl, ?_, ?_⟩)
      · rw [get?_store, if_pos rfl]
      · intro k v hne hk
        rw [get?_store, if_neg hne] at hk
        exact hothers k v hne hk
  · rw [hfind]
    exact .inr (.inr ⟨e, l', rfl, hrate, hsub⟩)

theorem wake_spec :
    (l.wake host now).rate = l.rate ∧ ∀ k, (l.wake host now).buckets.data.get? k =
      if host = k then (l.buckets.data.get? host).map fun b =>
        if 1 ≤ (b.refill l.rate l.capacity now).tokens then (b.refill l.rate l.capacity now).take
        else b.refill l.rate l.capacity now
      else l.buckets.data.get? k := by
  rw [DomainRateLimiter.wake, LRUCache.getItem]
  cases hget : l.buckets.data.get? host with
  | none =>
    refine ⟨rfl, ?_⟩
    intro k
    show l.buckets.data.get? k = _
    by_cases hk : host = k
    · rw [if_pos hk, ← hk, hget]
      rfl
    · rw [if_neg hk]
  | some b =>
    refine ⟨rfl, ?_⟩
    intro k
    exact get?_store _ _ _ _

end Sections

/-! ### The count -/

section Count

variable {s : RateRun} {host : String} {start length : ℚ}

/-- The call returns in the window. -/
def CountsIn (host : String) (start length : ℚ) (c : RateCall) : Prop :=
  c.host = host ∧ ∃ t ∈ c.returned, TokenBucket.InWindow start length t

instance (c : RateCall) : Decidable (CountsIn host start length c) := inferInstanceAs (Decidable (_ ∧ _))

theorem returns_concat (l : DomainRateLimiter) (clock : ℚ) (c : RateCall) :
    (⟨l, clock, s.calls ++ [c]⟩ : RateRun).returns host start length =
      s.returns host start length + if CountsIn host start length c then 1 else 0 := by
  rw [returns, List.countP_append, List.countP_singleton, returns]
  simp only [decide_eq_true_eq]
  rfl

theorem returns_set (host : String) (start length : ℚ) {i : Nat} {c : RateCall}
    (h : s.calls[i]? = some c) (hsleeps : c.returned = none) (l : DomainRateLimiter) (now : ℚ) :
    (⟨l, now, s.calls.set i { c with returned := some now }⟩ : RateRun).returns host start length =
      s.returns host start length +
        if c.host = host ∧ TokenBucket.InWindow start length now then 1 else 0 := by
  obtain ⟨hlt, hget⟩ := List.getElem?_eq_some_iff.1 h
  rw [returns, List.countP_set hlt, hget, hsleeps, returns]
  simp

end Count

/-! ### The bound -/

/-- The returns so far fit the bucket of the host, and there are none while it has no bucket. -/
structure Bounded (rate : ℚ) (host : String) (start length : ℚ) (s : RateRun) : Prop where
  rate_eq : s.limiter.rate = rate
  fits : ∀ b, s.limiter.buckets.data.get? host = some b → b.lastRefill ≤ s.clock ∧
    b.Fits rate (bucketCapacity rate) start length (s.returns host start length)
  absent : s.limiter.buckets.data.get? host = none → s.returns host start length = 0

section Bounded

variable {rate start length : ℚ} {host : String} {s : RateRun}

theorem Bounded.capacity_eq (h : s.Bounded rate host start length) :
    s.limiter.capacity = bucketCapacity rate := by
  rw [DomainRateLimiter.capacity, h.rate_eq]

theorem Bounded.other (h : s.Bounded rate host start length) {l : DomainRateLimiter} {now : ℚ}
    {calls : List RateCall} (hrate : l.rate = s.limiter.rate)
    (hsub : ∀ b, l.buckets.data.get? host = some b → s.limiter.buckets.data.get? host = some b)
    (hkeeps : host ∈ s.limiter.buckets.data.keys → host ∈ l.buckets.data.keys) (hclock : s.clock ≤ now)
    (hcount : (⟨l, now, calls⟩ : RateRun).returns host start length = s.returns host start length) :
    (⟨l, now, calls⟩ : RateRun).Bounded rate host start length := by
  constructor
  · exact hrate.trans h.rate_eq
  · intro b hb
    obtain ⟨hlast, hfits⟩ := h.fits b (hsub b hb)
    rw [hcount]
    exact ⟨hlast.trans hclock, hfits⟩
  · intro hnone
    rw [hcount]
    apply h.absent
    rw [← Dict.notMem_keys_iff] at hnone ⊢
    exact fun hc => hnone (hkeeps hc)

theorem Bounded.found (h : s.Bounded rate host start length) (hrate : 0 ≤ rate) (hlength : 0 ≤ length)
    {now : ℚ} (hclock : s.clock ≤ now) :
    (((s.limiter.buckets.data.get? host).getD ⟨s.limiter.capacity, now⟩).refill s.limiter.rate
      s.limiter.capacity now).Fits rate (bucketCapacity rate) start length (s.returns host start length) := by
  rw [h.capacity_eq, h.rate_eq]
  cases hget : s.limiter.buckets.data.get? host with
  | none =>
    rw [h.absent hget]
    have hcapacity : 0 ≤ bucketCapacity rate := zero_le_one.trans (le_max_left _ _)
    exact (TokenBucket.fits_full hrate hcapacity hlength now).refill hrate (le_refl _)
  | some b =>
    obtain ⟨hlast, hfits⟩ := h.fits b hget
    exact hfits.refill hrate (hlast.trans hclock)

theorem Bounded.acquire (h : s.Bounded rate host start length) (hrate : 0 ≤ rate) (hlength : 0 ≤ length)
    {now : ℚ} (hclock : s.clock ≤ now) {host' : String} (hkeeps : s.KeepsHost host ⟨now, .acquire host'⟩) :
    (s.acquire host' now).Bounded rate host start length := by
  have hkeeps' : host ∈ s.limiter.buckets.data.keys →
      host ∈ (s.acquire host' now).limiter.buckets.data.keys := hkeeps
  rw [RateRun.acquire] at hkeeps' ⊢
  rcases enter_cases s.limiter host' now with ⟨l, henter, hl, ⟨htoken, hget⟩, hothers⟩ |
    ⟨wait, l, henter, hl, hget, hothers⟩ | ⟨e, l, henter, hl, hsub⟩
  · rw [henter] at hkeeps' ⊢
    by_cases hhost : host' = host
    · subst hhost
      have hfits := (h.found hrate hlength hclock).take hrate htoken
      constructor
      · exact hl.trans h.rate_eq
      · intro b hb
        obtain rfl := Option.some_inj.1 (hget.symm.trans hb)
        refine ⟨le_refl _, ?_⟩
        rw [returns_concat]
        have hcounts : CountsIn host' start length ⟨host', now, 0, some now⟩ ↔
            TokenBucket.InWindow start length now := by simp [CountsIn]
        simp only [hcounts]
        exact hfits
      · intro hnone
        cases hget.symm.trans hnone
    · apply h.other hl (fun b hb => hothers host b hhost hb) hkeeps' hclock
      rw [returns_concat, if_neg fun hc => hhost hc.1, Nat.add_zero]
  · rw [henter] at hkeeps' ⊢
    have hcount : (⟨l, now, s.calls ++ [⟨host', now, wait, none⟩]⟩ : RateRun).returns host start length =
        s.returns host start length := by
      rw [returns_concat, if_neg (by simp [CountsIn]), Nat.add_zero]
    by_cases hhost : host' = host
    · subst hhost
      constructor
      · exact hl.trans h.rate_eq
      · intro b hb
        obtain rfl := Option.some_inj.1 (hget.symm.trans hb)
        rw [hcount]
        exact ⟨le_refl _, (h.found hrate hlength hclock).drain⟩
      · intro hnone
        cases hget.symm.trans hnone
    · exact h.other hl (fun b hb => hothers host b hhost hb) hkeeps' hclock hcount
  · rw [henter] at hkeeps' ⊢
    exact h.other hl (hsub host) hkeeps' hclock rfl

theorem Bounded.resume (h : s.Bounded rate host start length) (hrate : 0 ≤ rate) {now : ℚ}
    (hclock : s.clock ≤ now) {i : Nat} (htoken : s.FindsToken host ⟨now, .resume i⟩) :
    (s.resume i now).Bounded rate host start length := by
  have htoken' : ∀ c ∈ s.calls[i]?, c.host = host → ∃ b ∈ s.limiter.buckets.data.get? host,
      1 ≤ (b.refill s.limiter.rate s.limiter.capacity now).tokens := htoken
  rw [RateRun.resume]
  cases hc : s.calls[i]? with
  | none => exact h.other rfl (fun _ hb => hb) id hclock rfl
  | some c =>
    simp only
    split
    · next hsleeps =>
      obtain ⟨hwakeRate, hwake⟩ := wake_spec s.limiter c.host now
      have hcount := returns_set host start length hc hsleeps (s.limiter.wake c.host now) now
      by_cases hhost : c.host = host
      · obtain ⟨b, hb, hone⟩ := htoken' c hc hhost
        obtain ⟨hlast, hfits⟩ := h.fits b hb
        have htaken := (hfits.refill hrate (hlast.trans hclock)).take hrate (by
          rw [h.rate_eq, h.capacity_eq] at hone
          exact hone)
        have hget := hwake host
        rw [hhost, if_pos rfl, Option.mem_def.1 hb, Option.map_some, if_pos hone, h.rate_eq,
          h.capacity_eq] at hget
        constructor
        · exact hwakeRate.trans h.rate_eq
        · intro b' hb'
          rw [hhost] at hb'
          obtain rfl := Option.some_inj.1 (hget.symm.trans hb')
          refine ⟨le_refl _, ?_⟩
          rw [hcount]
          simp only [hhost, true_and]
          exact htaken
        · intro hnone
          rw [hhost] at hnone
          cases hget.symm.trans hnone
      · have hget := hwake host
        rw [if_neg hhost] at hget
        apply h.other hwakeRate (fun b hb => hget ▸ hb) _ hclock
        · rw [hcount, if_neg fun hc => hhost hc.1, Nat.add_zero]
        · rw [Dict.mem_keys_iff, Dict.mem_keys_iff, hget]
          exact id
    · exact h.other rfl (fun _ hb => hb) id hclock rfl

theorem Bounded.step (h : s.Bounded rate host start length) (hrate : 0 ≤ rate) (hlength : 0 ≤ length)
    {e : RateStep} (hpossible : s.Possible e) (hkeeps : s.KeepsHost host e)
    (htoken : s.FindsToken host e) : (s.step e).Bounded rate host start length := by
  obtain ⟨now, action⟩ := e
  cases action with
  | acquire host' => exact h.acquire hrate hlength hpossible.1 hkeeps
  | resume i => exact h.resume hrate hpossible.1 htoken

theorem bounded_init (rate : ℚ) (maxHosts : Nat) (clock : ℚ) (host : String) (start length : ℚ) :
    (init rate maxHosts clock).Bounded rate host start length where
  rate_eq := rfl
  fits _ hb := by cases hb
  absent _ := rfl

theorem Bounded.returns_le (h : s.Bounded rate host start length) (hrate : 0 ≤ rate)
    (hlength : 0 ≤ length) : (s.returns host start length : ℚ) ≤ bucketCapacity rate + rate * length := by
  cases hget : s.limiter.buckets.data.get? host with
  | none =>
    have hcapacity : 0 ≤ bucketCapacity rate := zero_le_one.trans (le_max_left _ _)
    rw [h.absent hget, Nat.cast_zero]
    exact add_nonneg hcapacity (mul_nonneg hrate hlength)
  | some b => exact (h.fits b hget).2.total

end Bounded

/-- Where every call that goes on after its sleep finds a token, no window has more returns than the
capacity and what comes in meanwhile. -/
theorem returns_le_of_findsToken {rate : ℚ} {maxHosts : Nat} {clock : ℚ} {host : String}
    {steps : List RateStep} (hrate : 0 < rate)
    (h : StepsMeet step (fun s e => s.Possible e ∧ s.KeepsHost host e ∧ s.FindsToken host e)
      (init rate maxHosts clock) steps) {start length : ℚ} (hlength : 0 ≤ length) :
    ((run rate maxHosts clock steps).returns host start length : ℚ) ≤
      (init rate maxHosts clock).limiter.capacity + rate * length := by
  have hbounded : (run rate maxHosts clock steps).Bounded rate host start length :=
    h.invariant (fun _ _ hs hc => hs.step hrate.le hlength hc.1 hc.2.1 hc.2.2)
      (bounded_init rate maxHosts clock host start length)
  exact hbounded.returns_le hrate.le hlength

/-- Two calls, the second of which waits for its token. -/
theorem returns_le_one_waiter :
    ((run 1 1 0 [⟨0, .acquire "a"⟩, ⟨0, .acquire "a"⟩, ⟨1, .resume 1⟩]).returns "a" 0 1 : ℚ) ≤
      (init 1 1 0).limiter.capacity + 1 * 1 :=
  returns_le_of_findsToken (by decide) (by decide +kernel) (by decide)

/-- Two calls wait for the one token that comes. -/
theorem not_returns_le_two_waiters :
    ¬ ∀ (rate : ℚ) (maxHosts : Nat) (clock : ℚ) (host : String) (steps : List RateStep), 0 < rate →
      StepsMeet step (fun s e => s.Possible e ∧ s.KeepsHost host e) (init rate maxHosts clock) steps →
      ∀ start length : ℚ, 0 ≤ length → ((run rate maxHosts clock steps).returns host start length : ℚ) ≤
        (init rate maxHosts clock).limiter.capacity + rate * length := by
  intro h
  have hle := h 1 1 0 "a" [⟨0, .acquire "a"⟩, ⟨0, .acquire "a"⟩, ⟨0, .acquire "a"⟩, ⟨1, .resume 1⟩,
    ⟨1, .resume 2⟩] (by decide) (by decide +kernel) 1 0 (by decide)
  revert hle
  decide +kernel

end RateRun

end Hledac.Utils
