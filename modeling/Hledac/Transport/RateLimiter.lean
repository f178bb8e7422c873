import Mathlib.Data.Rat.Floor
import Hledac.Lib.Dict
import Hledac.Lib.Machine
import Hledac.Lib.TokenBucket

/-!
# The rate limiter of the transport layer

`src/transport/rate_limiter.py` without the Rust extension. `check_rate_limit` and every `RateLimiter` of a host share
one token bucket, which whoever comes first creates. A task that waits in `acquire` keeps the lock of the bucket while
it sleeps; the other two functions never ask for the lock. Times and tokens are rational numbers.
-/

namespace Hledac.Transport

open Hledac.Lib

/-! ### Buckets -/

/-- `TokenBucket`, line 60, with the call of `acquire` that holds its lock. -/
structure HostBucket where
  rate : ℚ
  capacity : ℚ
  level : TokenBucket ℚ
  holder : Option Nat := none

namespace HostBucket

/-- A new bucket is full. -/
def create (rate capacity now : ℚ) : HostBucket := { rate := rate, capacity := capacity, level := ⟨capacity, now⟩ }

/-- `_refill`, line 77. -/
def refill (b : HostBucket) (now : ℚ) : HostBucket := { b with level := b.level.refill b.rate b.capacity now }

/-- `try_acquire`, line 83. -/
def tryAcquire (b : HostBucket) (now : ℚ) : Bool × HostBucket :=
  let b := b.refill now
  if 1 ≤ b.level.tokens then (true, { b with level := b.level.take }) else (false, b)

end HostBucket

/-! ### Limiters and calls -/

/-- `RateLimiter`, line 205, as it is constructed. -/
structure RateLimiter where
  host : String
  rate : ℚ := 1
  capacity : ℚ := 5
  rate_pos : 0 < rate

/-- Where a call of `acquire` stands: it waits for the lock, sleeps with the lock, or has returned. -/
inductive Phase where
  | queued
  | sleeping (wakeAt : ℚ)
  | returned (took : Bool)
  deriving DecidableEq

/-- A call of `acquire` that has its bucket. -/
structure AcquireCall where
  host : String
  deadline : Option ℚ
  phase : Phase
  deriving DecidableEq

/-- A call that has returned `True`: the tokens it asked for and those it took. -/
structure Grant where
  host : String
  time : ℚ
  asked : Nat
  consumed : Nat
  deriving DecidableEq

/-- `_HOST_BUCKETS`, the limiters that have got their bucket, and what the calls have come to so far. -/
structure LimiterState where
  buckets : Dict String HostBucket
  bound : List Nat
  calls : List AcquireCall
  grants : List Grant
  clock : ℚ

/-- What a task does when it gets its turn. -/
inductive LimiterAction where
  | check (host : String) (tokens : Nat)
  | tryAcquire (limiter : Nat)
  | acquire (limiter : Nat) (timeout : Option ℚ)
  | enter (call : Nat)
  | resume (call : Nat)
  deriving DecidableEq

/-- An action and its time. -/
structure LimiterStep where
  now : ℚ
  action : LimiterAction
  deriving DecidableEq

namespace LimiterState

/-- What a call that returns `True` adds. -/
def grant (s : LimiterState) (host : String) (now : ℚ) (asked consumed : Nat) : LimiterState :=
  { s with grants := s.grants ++ [⟨host, now, asked, consumed⟩] }

/-- The bucket of the host has changed. -/
def store (s : LimiterState) (host : String) (b : HostBucket) : LimiterState :=
  { s with buckets := s.buckets.insert host b }

def setPhase (s : LimiterState) (c : Nat) (call : AcquireCall) (phase : Phase) : LimiterState :=
  { s with calls := s.calls.set c { call with phase := phase } }

/-- `bucket.try_acquire()` for a call that asks for some tokens. -/
def take (s : LimiterState) (host : String) (b : HostBucket) (now : ℚ) (asked : Nat) : LimiterState :=
  match b.tryAcquire now with
  | (true, b) => (s.store host b).grant host now asked 1
  | (false, b) => s.store host b

/-- `check_rate_limit`, line 121; a host without a bucket gets one and the call its tokens. -/
def check (s : LimiterState) (host : String) (tokens : Nat) (now : ℚ) : LimiterState :=
  match s.buckets.get? host with
  | none => (s.store host (.create 10 10 now)).grant host now tokens 0
  | some b => s.take host b now tokens

/-- A round of the loop of `TokenBucket.acquire` with the lock, line 93: it refills and takes as
`try_acquire` does, returns without a token past its deadline, or sleeps on with the lock. -/
def attempt (s : LimiterState) (c : Nat) (call : AcquireCall) (b : HostBucket) (now : ℚ) : LimiterState :=
  match b.tryAcquire now with
  | (true, b) =>
    ((s.store call.host { b with holder := none }).setPhase c call (.returned true)).grant call.host now 1 1
  | (false, b) =>
    let wait := (1 - b.level.tokens) / b.rate
    match call.deadline with
    | none => (s.store call.host { b with holder := some c }).setPhase c call (.sleeping (now + wait))
    | some deadline =>
      if deadline - now ≤ 0 then (s.store call.host { b with holder := none }).setPhase c call (.returned false)
      else
        (s.store call.host { b with holder := some c }).setPhase c call
          (.sleeping (now + min (deadline - now) wait))

/-- Some call waits for the lock of the bucket. -/
def hasQueue (s : LimiterState) (host : String) : Bool :=
  s.calls.any fun call => decide (call.host = host ∧ call.phase = .queued)

/-- A call of `acquire` on a bucket: it runs on where the lock is free and queues up where it is not. -/
def acquireFrom (s : LimiterState) (host : String) (b : HostBucket) (timeout : Option ℚ) (now : ℚ) : LimiterState :=
  let call : AcquireCall := ⟨host, timeout.map (now + ·), .queued⟩
  let s' := { s with calls := s.calls ++ [call] }
  if b.holder.isNone && !s.hasQueue host then s'.attempt s.calls.length call b now else s'.store host b

/-- `RateLimiter.acquire`, line 232; both locks on the way to the bucket are free, since nothing waits
while it holds them. -/
def acquire (s : LimiterState) (limiter : RateLimiter) (i : Nat) (timeout : Option ℚ) (now : ℚ) : LimiterState :=
  let s' := { s with bound := i :: s.bound }
  match s.buckets.get? limiter.host with
  | some b => s'.acquireFrom limiter.host b timeout now
  | none => s'.acquireFrom limiter.host (.create limiter.rate limiter.capacity now) timeout now

/-- `RateLimiter.try_acquire`, line 220; a limiter that has no bucket yet lets the call through. -/
def tryAcquire (s : LimiterState) (limiter : RateLimiter) (i : Nat) (now : ℚ) : LimiterState :=
  if i ∈ s.bound then
    match s.buckets.get? limiter.host with
    | some b => s.take limiter.host b now 1
    | none => s
  else s.grant limiter.host now 1 0

/-- A call that waits gets the lock, where it is free. -/
def enter (s : LimiterState) (c : Nat) (now : ℚ) : LimiterState :=
  match s.calls[c]? with
  | some call =>
    match s.buckets.get? call.host with
    | some b => if call.phase = .queued ∧ b.holder = none then s.attempt c call b now else s
    | none => s
  | none => s

/-- A call goes on after its sleep. -/
def resume (s : LimiterState) (c : Nat) (now : ℚ) : LimiterState :=
  match s.calls[c]? with
  | some call =>
    match call.phase, s.buckets.get? call.host with
    | .sleeping wakeAt, some b => if wakeAt ≤ now then s.attempt c call b now else s
    | _, _ => s
  | none => s

end LimiterState

section Clock

variable (s : LimiterState) (host : String) (b : HostBucket) (now : ℚ)

@[simp] theorem clock_take (asked : Nat) : (s.take host b now asked).clock = s.clock := by
  rw [LimiterState.take]
  split
  · rfl
  · rfl

@[simp] theorem clock_attempt (c : Nat) (call : AcquireCall) : (s.attempt c call b now).clock = s.clock := by
  rw [LimiterState.attempt]
  split
  · rfl
  · simp only
    split
    · rfl
    · split
      · rfl
      · rfl

@[simp] theorem clock_acquireFrom (timeout : Option ℚ) : (s.acquireFrom host b timeout now).clock = s.clock := by
  rw [LimiterState.acquireFrom]
  split
  · exact clock_attempt _ _ _ _ _
  · rfl

end Clock

section Runs

variable (limiters : List RateLimiter)

/-- One turn of a task; what cannot happen changes nothing. -/
def limiterStep (s : LimiterState) (e : LimiterStep) : LimiterState :=
  let s := { s with clock := e.now }
  match e.action with
  | .check host tokens => s.check host tokens e.now
  | .tryAcquire i =>
    match limiters[i]? with
    | some limiter => s.tryAcquire limiter i e.now
    | none => s
  | .acquire i timeout =>
    match limiters[i]? with
    | some limiter => s.acquire limiter i timeout e.now
    | none => s
  | .enter c => s.enter c e.now
  | .resume c => s.resume c e.now

@[simp] theorem clock_limiterStep (s : LimiterState) (e : LimiterStep) : (limiterStep limiters s e).clock = e.now := by
  rw [limiterStep]
  cases e.action with
  | check host tokens =>
    simp only [LimiterState.check]
    split
    · rfl
    · exact clock_take _ _ _ _ _
  | tryAcquire i =>
    simp only [LimiterState.tryAcquire]
    split
    · split
      · split
        · exact clock_take _ _ _ _ _
        · rfl
      · rfl
    · rfl
  | acquire i timeout =>
    simp only [LimiterState.acquire]
    split
    · split
      · exact clock_acquireFrom _ _ _ _ _
      · exact clock_acquireFrom _ _ _ _ _
    · rfl
  | enter c =>
    simp only [LimiterState.enter]
    split
    · split
      · split
        · exact clock_attempt _ _ _ _ _
        · rfl
      · rfl
    · rfl
  | resume c =>
    simp only [LimiterState.resume]
    split
    · split
      · split
        · exact clock_attempt _ _ _ _ _
        · rfl
      · rfl
    · rfl

/-- Before the first call. -/
def limiterInit (clock : ℚ) : LimiterState := ⟨.empty, [], [], [], clock⟩

def limiterRun (clock : ℚ) (steps : List LimiterStep) : LimiterState :=
  steps.foldl (limiterStep limiters) (limiterInit clock)

/-- The clock does not go back. -/
def Forward (s : LimiterState) (e : LimiterStep) : Prop := s.clock ≤ e.now

instance (s : LimiterState) (e : LimiterStep) : Decidable (Forward s e) := inferInstanceAs (Decidable (_ ≤ _))

/-- No call is let through without a bucket, none that asks for other than one token gets any, and the limiter that
creates the bucket of a host is the narrowest of the host. -/
def Metered (s : LimiterState) (e : LimiterStep) : Prop :=
  match e.action with
  | .check host tokens =>
    ∃ b, s.buckets.get? host = some b ∧ (1 ≤ (b.refill e.now).level.tokens → tokens = 1)
  | .tryAcquire i => i < limiters.length → i ∈ s.bound
  | .acquire i _ => ∀ limiter, limiters[i]? = some limiter → s.buckets.get? limiter.host = none →
      ∀ other ∈ limiters, other.host = limiter.host → limiter.rate ≤ other.rate ∧ limiter.capacity ≤ other.capacity
  | .enter _ => True
  | .resume _ => True

/-- The tokens granted for the host in the window of the length from `start` on. -/
def granted (s : LimiterState) (host : String) (start length : ℚ) : Nat :=
  ((s.grants.filter fun g => decide (g.host = host ∧ TokenBucket.InWindow start length g.time)).map Grant.asked).sum

end Runs

/-! ### What a turn does -/

section Turns

variable {limiters : List RateLimiter} {s s' : LimiterState} {now : ℚ} {host : String} {b : HostBucket}

/-- The bucket of the host, or the one that the narrowest limiter of the host creates. -/
inductive Offered (limiters : List RateLimiter) (s : LimiterState) (now : ℚ) (host : String) : HostBucket → Prop
  | found {b : HostBucket} (hget : s.buckets.get? host = some b) : Offered limiters s now host b
  | created {limiter : RateLimiter} (hmem : limiter ∈ limiters) (hhost : limiter.host = host)
      (hget : s.buckets.get? host = none)
      (hnarrow : ∀ other ∈ limiters, other.host = host →
        limiter.rate ≤ other.rate ∧ limiter.capacity ≤ other.capacity) :
      Offered limiters s now host (.create limiter.rate limiter.capacity now)

/-- What a metered turn does to a bucket and to the grants: nothing, or it keeps the bucket as it is, or refills it, or
takes a token that is there. -/
inductive Turn (limiters : List RateLimiter) (now : ℚ) (s s' : LimiterState) : Prop
  | idle (hbuckets : s'.buckets = s.buckets) (hgrants : s'.grants = s.grants)
  | kept (host : String) (b : HostBucket) (hb : Offered limiters s now host b)
      (hbuckets : s'.buckets = s.buckets.insert host b) (hgrants : s'.grants = s.grants)
  | refilled (host : String) (b : HostBucket) (holder : Option Nat) (hb : Offered limiters s now host b)
      (hbuckets : s'.buckets = s.buckets.insert host { b.refill now with holder := holder })
      (hgrants : s'.grants = s.grants)
  | took (host : String) (b : HostBucket) (holder : Option Nat) (hb : Offered limiters s now host b)
      (htoken : 1 ≤ (b.refill now).level.tokens)
      (hbuckets : s'.buckets =
        s.buckets.insert host { b.refill now with level := (b.refill now).level.take, holder := holder })
      (hgrants : s'.grants = s.grants ++ [⟨host, now, 1, 1⟩])

theorem tryAcquire_cases (b : HostBucket) (now : ℚ) :
    (1 ≤ (b.refill now).level.tokens ∧
      b.tryAcquire now = (true, { b.refill now with level := (b.refill now).level.take })) ∨
    (¬ 1 ≤ (b.refill now).level.tokens ∧ b.tryAcquire now = (false, b.refill now)) := by
  by_cases htoken : 1 ≤ (b.refill now).level.tokens
  · exact .inl ⟨htoken, if_pos htoken⟩
  · exact .inr ⟨htoken, if_neg htoken⟩

theorem turn_take (hb : Offered limiters s now host b) {asked : Nat}
    (hasked : 1 ≤ (b.refill now).level.tokens → asked = 1) : Turn limiters now s (s.take host b now asked) := by
  rw [LimiterState.take]
  cases tryAcquire_cases b now with
  | inl h =>
    rw [h.2, hasked h.1]
    exact .took host b _ hb h.1 rfl rfl
  | inr h =>
    rw [h.2]
    exact .refilled host b _ hb rfl rfl

theorem turn_attempt {c : Nat} {call : AcquireCall} (hb : Offered limiters s now call.host b)
    (hbuckets : s'.buckets = s.buckets) (hgrants : s'.grants = s.grants) :
    Turn limiters now s (s'.attempt c call b now) := by
  rw [LimiterState.attempt]
  cases tryAcquire_cases b now with
  | inl h =>
    rw [h.2]
    apply Turn.took call.host b none hb h.1
    · exact congrArg (Dict.insert · _ _) hbuckets
    · exact congrArg (· ++ _) hgrants
  | inr h =>
    rw [h.2]
    simp only
    cases call.deadline with
    | none => exact .refilled call.host b (some c) hb (congrArg (Dict.insert · _ _) hbuckets) hgrants
    | some deadline =>
      simp only
      split
      · exact .refilled call.host b none hb (congrArg (Dict.insert · _ _) hbuckets) hgrants
      · exact .refilled call.host b (some c) hb (congrArg (Dict.insert · _ _) hbuckets) hgrants

theorem turn_acquireFrom {timeout : Option ℚ} (hb : Offered limiters s now host b)
    (hbuckets : s'.buckets = s.buckets) (hgrants : s'.grants = s.grants) :
    Turn limiters now s (s'.acquireFrom host b timeout now) := by
  rw [LimiterState.acquireFrom]
  split
  · exact turn_attempt hb hbuckets hgrants
  · exact .kept host b hb (congrArg (Dict.insert · _ _) hbuckets) hgrants

theorem turn_acquire {limiter : RateLimiter} {i : Nat} {timeout : Option ℚ} (hmem : limiter ∈ limiters)
    (hnarrow : s.buckets.get? limiter.host = none → ∀ other ∈ limiters, other.host = limiter.host →
      limiter.rate ≤ other.rate ∧ limiter.capacity ≤ other.capacity) :
    Turn limiters now s (s.acquire limiter i timeout now) := by
  rw [LimiterState.acquire]
  cases hget : s.buckets.get? limiter.host with
  | some b => exact turn_acquireFrom (.found hget) rfl rfl
  | none => exact turn_acquireFrom (.created hmem rfl hget (hnarrow hget)) rfl rfl

theorem turn_enter (c : Nat) : Turn limiters now s (s.enter c now) := by
  rw [LimiterState.enter]
  cases s.calls[c]? with
  | none => exact .idle rfl rfl
  | some call =>
    cases hget : s.buckets.get? call.host with
    | none => simpa only [hget] using Turn.idle rfl rfl
    | some b =>
      simp only [hget]
      split
      · exact turn_attempt (.found hget) rfl rfl
      · exact .idle rfl rfl

theorem turn_resume (c : Nat) : Turn limiters now s (s.resume c now) := by
  rw [LimiterState.resume]
  cases s.calls[c]? with
  | none => exact .idle rfl rfl
  | some call =>
    simp only
    split
    · next hget =>
      split
      · exact turn_attempt (.found hget) rfl rfl
      · exact .idle rfl rfl
    · exact .idle rfl rfl

theorem turn_check {tokens : Nat} (hget : s.buckets.get? host = some b)
    (htokens : 1 ≤ (b.refill now).level.tokens → tokens = 1) : Turn limiters now s (s.check host tokens now) := by
  rw [LimiterState.check, hget]
  exact turn_take (.found hget) htokens

theorem turn_tryAcquire {limiter : RateLimiter} {i : Nat} (hbound : i ∈ s.bound) :
    Turn limiters now s (s.tryAcquire limiter i now) := by
  rw [LimiterState.tryAcquire, if_pos hbound]
  cases hget : s.buckets.get? limiter.host with
  | some b => exact turn_take (.found hget) fun _ => rfl
  | none => exact .idle rfl rfl

theorem turn_limiterStep {e : LimiterStep} (hmetered : Metered limiters s e) :
    Turn limiters e.now { s with clock := e.now } (limiterStep limiters s e) := by
  obtain ⟨now, action⟩ := e
  rw [limiterStep]
  cases action with
  | check host tokens =>
    obtain ⟨b, hget, htokens⟩ := hmetered
    exact turn_check hget htokens
  | tryAcquire i =>
    simp only
    split
    · next hlimiter =>
      have hlt : i < limiters.length := (List.getElem?_eq_some_iff.1 hlimiter).1
      exact turn_tryAcquire (hmetered hlt)
    · exact .idle rfl rfl
  | acquire i timeout =>
    simp only
    split
    · next limiter hlimiter => exact turn_acquire (List.mem_of_getElem? hlimiter) (hmetered limiter hlimiter)
    · exact .idle rfl rfl
  | enter c => exact turn_enter c
  | resume c => exact turn_resume c

end Turns

/-! ### The bound -/

section Bound

variable {limiters : List RateLimiter} {s s' : LimiterState} {now start length : ℚ} {host : String}

/-- The bucket keeps within its own rate, which is at most that of each limiter of the host. -/
structure HostBucket.Within (limiters : List RateLimiter) (host : String) (start length : ℚ) (n : Nat) (clock : ℚ)
    (b : HostBucket) : Prop where
  rate_nonneg : 0 ≤ b.rate
  past : b.level.lastRefill ≤ clock
  fits : b.level.Fits b.rate b.capacity start length n
  narrow : ∀ limiter ∈ limiters, limiter.host = host → b.rate ≤ limiter.rate ∧ b.capacity ≤ limiter.capacity

/-- What has been granted for the host came from its bucket. -/
structure Within (limiters : List RateLimiter) (host : String) (start length : ℚ) (s : LimiterState) : Prop where
  bucket : ∀ b, s.buckets.get? host = some b →
    b.Within limiters host start length (granted s host start length) s.clock
  absent : s.buckets.get? host = none → granted s host start length = 0
  exact : ∀ g ∈ s.grants, g.consumed = g.asked

theorem granted_concat (start length : ℚ) (hgrants : s'.grants = s.grants ++ [⟨host, now, 1, 1⟩]) (other : String) :
    granted s' other start length = granted s other start length +
      if host = other ∧ TokenBucket.InWindow start length now then 1 else 0 := by
  rw [granted, granted, hgrants, List.filter_append, List.map_append, List.sum_append]
  congr 1
  split
  · next h => simp [h]
  · next h => simp [h]

theorem granted_congr (hgrants : s'.grants = s.grants) :
    granted s' host start length = granted s host start length := by
  rw [granted, granted, hgrants]

theorem Within.offered (h : Within limiters host start length s)
    (hcapacity : ∀ limiter ∈ limiters, 0 ≤ limiter.capacity)
    (hlength : 0 ≤ length) (hclock : s.clock = now) {b : HostBucket} (hb : Offered limiters s now host b) :
    b.Within limiters host start length (granted s host start length) now := by
  subst hclock
  cases hb with
  | found hget => exact h.bucket b hget
  | @created limiter hmem hhost hget hnarrow =>
    have hrate : 0 ≤ limiter.rate := le_of_lt limiter.rate_pos
    rw [h.absent hget]
    exact ⟨hrate, le_refl _, TokenBucket.fits_full hrate (hcapacity limiter hmem) hlength _, hnarrow⟩

theorem Within.other (h : Within limiters host start length s) (hget : s'.buckets.get? host = s.buckets.get? host)
    (hgranted : granted s' host start length = granted s host start length) (hclock : s.clock ≤ s'.clock)
    (hexact : ∀ g ∈ s'.grants, g.consumed = g.asked) : Within limiters host start length s' := by
  constructor
  · intro b hb
    have hbucket := h.bucket b (hget.symm.trans hb)
    rw [hgranted]
    exact ⟨hbucket.rate_nonneg, hbucket.past.trans hclock, hbucket.fits, hbucket.narrow⟩
  · intro hnone
    rw [hgranted]
    exact h.absent (hget.symm.trans hnone)
  · exact hexact

theorem within_of_insert {b : HostBucket} (hbuckets : s'.buckets = s.buckets.insert host b)
    (hb : b.Within limiters host start length (granted s' host start length) s'.clock)
    (hexact : ∀ g ∈ s'.grants, g.consumed = g.asked) : Within limiters host start length s' := by
  have hget : s'.buckets.get? host = some b := by rw [hbuckets, Dict.get?_insert_self]
  constructor
  · intro b' hb'
    obtain rfl : b = b' := Option.some_inj.1 (hget.symm.trans hb')
    exact hb
  · intro hnone
    cases hget.symm.trans hnone
  · exact hexact

theorem HostBucket.Within.refill {n : Nat} {b : HostBucket} (h : b.Within limiters host start length n now)
    (holder : Option Nat) :
    ({ b.refill now with holder := holder } : HostBucket).Within limiters host start length n now :=
  ⟨h.rate_nonneg, le_refl _, h.fits.refill h.rate_nonneg h.past, h.narrow⟩

theorem HostBucket.Within.take {n : Nat} {b : HostBucket} (h : b.Within limiters host start length n now)
    (htoken : 1 ≤ (b.refill now).level.tokens) (holder : Option Nat) :
    ({ b.refill now with level := (b.refill now).level.take, holder := holder } : HostBucket).Within limiters host start
      length (n + if TokenBucket.InWindow start length now then 1 else 0) now :=
  ⟨h.rate_nonneg, le_refl _, (h.fits.refill h.rate_nonneg h.past).take h.rate_nonneg htoken, h.narrow⟩

theorem within_of_turn (hcapacity : ∀ limiter ∈ limiters, 0 ≤ limiter.capacity) (hlength : 0 ≤ length)
    (h : Within limiters host start length s) (hnow : s.clock = now) (hnow' : s'.clock = now)
    (hturn : Turn limiters now s s') : Within limiters host start length s' := by
  have hclock : s.clock ≤ s'.clock := le_of_eq (hnow.trans hnow'.symm)
  cases hturn with
  | idle hbuckets hgrants =>
    exact h.other (congrArg (Dict.get? · host) hbuckets) (granted_congr hgrants) hclock (hgrants ▸ h.exact)
  | kept k b hb hbuckets hgrants =>
    by_cases hk : k = host
    · subst hk
      apply within_of_insert hbuckets _ (hgrants ▸ h.exact)
      rw [granted_congr hgrants, hnow']
      exact h.offered hcapacity hlength hnow hb
    · apply h.other _ (granted_congr hgrants) hclock (hgrants ▸ h.exact)
      rw [hbuckets, Dict.get?_insert_of_ne hk]
  | refilled k b holder hb hbuckets hgrants =>
    by_cases hk : k = host
    · subst hk
      apply within_of_insert hbuckets _ (hgrants ▸ h.exact)
      rw [granted_congr hgrants, hnow']
      exact (h.offered hcapacity hlength hnow hb).refill holder
    · apply h.other _ (granted_congr hgrants) hclock (hgrants ▸ h.exact)
      rw [hbuckets, Dict.get?_insert_of_ne hk]
  | took k b holder hb htoken hbuckets hgrants =>
    have hexact : ∀ g ∈ s'.grants, g.consumed = g.asked := by
      intro g hg
      rw [hgrants, List.mem_append, List.mem_singleton] at hg
      cases hg with
      | inl hg => exact h.exact g hg
      | inr hg => rw [hg]
    by_cases hk : k = host
    · subst hk
      apply within_of_insert hbuckets _ hexact
      rw [granted_concat start length hgrants, hnow']
      simp only [true_and]
      exact (h.offered hcapacity hlength hnow hb).take htoken holder
    · have hgranted := granted_concat start length hgrants host
      rw [if_neg fun hc => hk hc.1, Nat.add_zero] at hgranted
      apply h.other _ hgranted hclock hexact
      rw [hbuckets, Dict.get?_insert_of_ne hk]

theorem within_init (clock : ℚ) : Within limiters host start length (limiterInit clock) where
  bucket _ hb := nomatch hb
  absent _ := rfl
  exact _ hg := nomatch hg

theorem within_step (hcapacity : ∀ limiter ∈ limiters, 0 ≤ limiter.capacity) (hlength : 0 ≤ length) {e : LimiterStep}
    (h : Within limiters host start length s) (hforward : Forward s e) (hmetered : Metered limiters s e) :
    Within limiters host start length (limiterStep limiters s e) := by
  have hlater : Within limiters host start length { s with clock := e.now } := h.other rfl rfl hforward h.exact
  exact within_of_turn hcapacity hlength hlater rfl (clock_limiterStep limiters s e) (turn_limiterStep hmetered)

theorem Within.granted_le (h : Within limiters host start length s) (hlength : 0 ≤ length) {limiter : RateLimiter}
    (hmem : limiter ∈ limiters) (hcapacity : 0 ≤ limiter.capacity) (hhost : limiter.host = host) :
    (granted s host start length : ℚ) ≤ limiter.capacity + limiter.rate * length := by
  cases hget : s.buckets.get? host with
  | none =>
    rw [h.absent hget, Nat.cast_zero]
    exact add_nonneg hcapacity (mul_nonneg limiter.rate_pos.le hlength)
  | some b =>
    have hb := h.bucket b hget
    obtain ⟨hrate, hcap⟩ := hb.narrow limiter hmem hhost
    calc (granted s host start length : ℚ)
      _ ≤ b.capacity + b.rate * length := hb.fits.total
      _ ≤ limiter.capacity + limiter.rate * length :=
        add_le_add hcap (mul_le_mul_of_nonneg_right hrate hlength)

end Bound

/-- Where every turn is metered, no window of a host has more than each limiter of the host allows, and every call that
has returned `True` took what it asked for. -/
theorem granted_le_of_metered {limiters : List RateLimiter} (hcapacity : ∀ limiter ∈ limiters, 0 ≤ limiter.capacity)
    {clock : ℚ} {steps : List LimiterStep}
    (h : StepsMeet (limiterStep limiters) (fun s e => Forward s e ∧ Metered limiters s e) (limiterInit clock) steps) :
    (∀ limiter ∈ limiters, ∀ start length : ℚ, 0 ≤ length →
      (granted (limiterRun limiters clock steps) limiter.host start length : ℚ) ≤
        limiter.capacity + limiter.rate * length) ∧
    ∀ g ∈ (limiterRun limiters clock steps).grants, g.consumed = g.asked := by
  have hwithin : ∀ (host : String) (start length : ℚ), 0 ≤ length →
      Within limiters host start length (limiterRun limiters clock steps) := by
    intro host start length hlength
    exact h.invariant (fun _ _ hs hc => within_step hcapacity hlength hs hc.1 hc.2) (within_init clock)
  constructor
  · intro limiter hmem start length hlength
    exact (hwithin limiter.host start length hlength).granted_le hlength hmem (hcapacity limiter hmem) rfl
  · exact (hwithin "" 0 0 le_rfl).exact

/-- A limiter that has made its bucket serves two tokens at once and one that waits. -/
theorem granted_le_of_metered_waiter :
    (∀ limiter ∈ [(⟨"h", 1, 2, by decide⟩ : RateLimiter)], ∀ start length : ℚ, 0 ≤ length →
      (granted (limiterRun [⟨"h", 1, 2, by decide⟩] 0 [⟨0, .acquire 0 none⟩, ⟨0, .tryAcquire 0⟩,
        ⟨0, .acquire 0 (some 5)⟩, ⟨1, .resume 1⟩]) limiter.host start length : ℚ) ≤
        limiter.capacity + limiter.rate * length) ∧
    ∀ g ∈ (limiterRun [⟨"h", 1, 2, by decide⟩] 0 [⟨0, .acquire 0 none⟩, ⟨0, .tryAcquire 0⟩,
      ⟨0, .acquire 0 (some 5)⟩, ⟨1, .resume 1⟩]).grants, g.consumed = g.asked := by
  apply granted_le_of_metered
  · decide
  · refine ⟨⟨by decide +kernel, ?_⟩, ⟨by decide +kernel, fun _ => by decide +kernel⟩,
      ⟨by decide +kernel, ?_⟩, ⟨by decide +kernel, trivial⟩, trivial⟩
    · intro limiter hget _ other hmem _
      cases hget
      cases List.mem_singleton.1 hmem
      exact ⟨le_rfl, le_rfl⟩
    · -- the bucket is there
      intro limiter hget hnone
      cases hget
      revert hnone
      decide +kernel

/-- Six calls at once of a limiter for five that has no bucket yet. -/
theorem not_granted_le :
    ¬ ∀ (limiters : List RateLimiter) (clock : ℚ) (steps : List LimiterStep),
      (∀ limiter ∈ limiters, 0 ≤ limiter.capacity) →
      StepsMeet (limiterStep limiters) Forward (limiterInit clock) steps →
      (∀ limiter ∈ limiters, ∀ start length : ℚ, 0 ≤ length →
        (granted (limiterRun limiters clock steps) limiter.host start length : ℚ) ≤
          limiter.capacity + limiter.rate * length) ∧
      ∀ g ∈ (limiterRun limiters clock steps).grants, g.consumed = g.asked := by
  intro h
  have hrun := h [⟨"h", 1, 5, by decide⟩] 0 (List.replicate 6 ⟨0, .tryAcquire 0⟩) (by decide)
    (by simp [StepsMeet, Forward, limiterInit, List.replicate])
  have hle := hrun.1 ⟨"h", 1, 5, by decide⟩ (List.mem_singleton_self _) 0 0 le_rfl
  revert hle
  decide +kernel

end Hledac.Transport
