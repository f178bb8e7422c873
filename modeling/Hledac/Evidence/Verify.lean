import Hledac.Evidence.ChainState

/-!
# Verifying the log

`verify_all` of `evidence/_log.py` over an arbitrary ring buffer: what its two verdicts say about
the events, and what it says about the logs that the operations build.
-/

namespace Hledac.Evidence

open Hledac.Lib Hledac.Py Raising

variable {c : Codecs} {cfg : LogConfig}

/-! ### The verifier -/

/-- An entry of `invalid_details`; `_log.py:4575-4582`. -/
structure InvalidDetail where
  index : Nat
  eventId : String
  storedHash : String
  calculatedHash : String
  deriving DecidableEq

/-- The two kinds of entries of `chain_invalid`; `_log.py:4589-4610`. -/
inductive ChainIssueReason where
  | chainHashMismatch
  | linkageBroken
  deriving DecidableEq

/-- The text stored under `reason`. -/
def ChainIssueReason.text : ChainIssueReason → String
  | .chainHashMismatch => "chain_hash_mismatch"
  | .linkageBroken => "linkage_broken"

/-- An entry of `chain_invalid`. For a mismatch `expected` and `stored` are chain hashes, for a
broken linkage previous hashes. -/
structure ChainIssue where
  index : Nat
  eventId : String
  reason : ChainIssueReason
  expected : String
  stored : Option String
  deriving DecidableEq

/-- The local variables of `verify_all`; `_log.py:4566-4571`. -/
structure VerifyState where
  valid : Nat := 0
  invalid : List InvalidDetail := []
  chainValid : Bool := true
  chainInvalid : List ChainIssue := []
  prevExpectedHash : String
  deriving DecidableEq

/-- The events the chain check looks at: a chain hash that is set, and a positive number. -/
def ChainChecked (event : EvidenceEvent) : Prop :=
  truthy event.chainHash = true ∧ 0 < event.seqNo

instance : DecidablePred ChainChecked := fun _ => inferInstanceAs (Decidable (_ ∧ _))

/-- `event.prev_chain_hash or self._genesis_hash`. -/
def prevOr (genesis : String) (event : EvidenceEvent) : String :=
  if truthy event.prevChainHash then event.prevChainHash.getD genesis else genesis

/-- The chain hash that `verify_all` expects of an event; `_log.py:4584-4585`. -/
def expectedChainHash (genesis : String) (event : EvidenceEvent) : String :=
  computeChainHash (prevOr genesis event) event.contentHash event.eventId

/-- Record an issue; the list of details stops at a hundred. -/
def VerifyState.addIssue (acc : VerifyState) (issue : ChainIssue) : VerifyState :=
  { acc with
    chainValid := false
    chainInvalid := if acc.chainInvalid.length < 100 then acc.chainInvalid ++ [issue]
      else acc.chainInvalid }

/-- The first half of the chain check; `_log.py:4584-4598`. -/
def checkChainHash (genesis : String) (index : Nat) (event : EvidenceEvent) (acc : VerifyState) :
    VerifyState :=
  if event.chainHash ≠ some (expectedChainHash genesis event) then
    acc.addIssue ⟨index, event.eventId, .chainHashMismatch, expectedChainHash genesis event,
      event.chainHash⟩
  else acc

/-- The second half of the chain check; `_log.py:4599-4610`. -/
def checkLinkage (index : Nat) (event : EvidenceEvent) (acc : VerifyState) : VerifyState :=
  if truthy event.prevChainHash ∧ event.prevChainHash ≠ some acc.prevExpectedHash then
    acc.addIssue ⟨index, event.eventId, .linkageBroken, acc.prevExpectedHash,
      event.prevChainHash⟩
  else acc

/-- The chain check of one event; `_log.py:4583-4611`. -/
def checkChain (genesis : String) (index : Nat) (event : EvidenceEvent) (acc : VerifyState) :
    VerifyState :=
  if ChainChecked event then
    { checkLinkage index event (checkChainHash genesis index event acc) with
      prevExpectedHash := event.chainHash.getD "" }
  else acc

/-- The integrity check of one event; `_log.py:4573-4582`. -/
def checkIntegrity (c : Codecs) (index : Nat) (event : EvidenceEvent) (acc : VerifyState) :
    Except PyError VerifyState := do
  if ← event.verifyIntegrity c then return { acc with valid := acc.valid + 1 }
  else
    let calculated ← event.calculateHash c
    return { acc with
      invalid := acc.invalid ++ [⟨index, event.eventId, event.contentHash, calculated⟩] }

/-- The loop of `verify_all`; `_log.py:4572-4611`. -/
def verifyLoop (c : Codecs) (genesis : String) :
    Nat → List EvidenceEvent → VerifyState → Except PyError VerifyState
  | _, [], acc => .ok acc
  | index, event :: rest, acc => do
    let acc ← checkIntegrity c index event acc
    verifyLoop c genesis (index + 1) rest (checkChain genesis index event acc)

/-- The dictionary that `verify_all` returns. -/
structure VerifyReport where
  totalEvents : Nat
  validEvents : Nat
  invalidEvents : Nat
  integrityPercentage : ℚ
  invalidDetails : List InvalidDetail
  allValid : Bool
  chainValid : Bool
  chainInvalidReason : Option String
  chainInvalid : List ChainIssue
  chainHead : String
  lastSeqNo : Nat
  deriving DecidableEq

/-- `chain_invalid_reason`; `_log.py:4612-4618`. -/
def chainInvalidReason (out : VerifyState) : Option String :=
  if out.chainValid then none
  else
    match out.chainInvalid with
    | issue :: _ => some (issue.reason.text ++ "_at_index_" ++ toString issue.index)
    | [] => some "legacy_events_missing_chain_fields"

/-- `verify_all`; `_log.py:4558-4630`. -/
def verifyAll (c : Codecs) (cfg : LogConfig) (s : EvidenceLog) : Except PyError VerifyReport := do
  let total := s.log.length
  let out ← verifyLoop c (genesisHash cfg.runId) 0 s.log.toList
    { prevExpectedHash := genesisHash cfg.runId }
  return {
    totalEvents := total
    validEvents := out.valid
    invalidEvents := out.invalid.length
    integrityPercentage := if total > 0 then (out.valid : ℚ) / total * 100 else 100
    invalidDetails := out.invalid.take 10
    allValid := out.invalid.isEmpty
    chainValid := out.chainValid
    chainInvalidReason := chainInvalidReason out
    chainInvalid := out.chainInvalid
    chainHead := s.chainHead
    lastSeqNo := s.seq }

/-! ### What the verdicts say -/

/-- The chain check of one event passes, when the last checked event has this chain hash. -/
def LinkHolds (genesis expected : String) (event : EvidenceEvent) : Prop :=
  event.chainHash = some (expectedChainHash genesis event) ∧
    (truthy event.prevChainHash = true → event.prevChainHash = some expected)

/-- The chain check of every event passes. -/
def LinksHold (genesis : String) : String → List EvidenceEvent → Prop
  | _, [] => True
  | expected, event :: rest =>
    if ChainChecked event then
      LinkHolds genesis expected event ∧ LinksHold genesis (event.chainHash.getD "") rest
    else LinksHold genesis expected rest

private theorem checkChainHash_spec (genesis : String) (index : Nat) (event : EvidenceEvent)
    (acc : VerifyState) :
    (checkChainHash genesis index event acc).invalid = acc.invalid ∧
      (checkChainHash genesis index event acc).prevExpectedHash = acc.prevExpectedHash ∧
      ((checkChainHash genesis index event acc).chainValid = true ↔
        acc.chainValid = true ∧ event.chainHash = some (expectedChainHash genesis event)) := by
  unfold checkChainHash
  by_cases h : event.chainHash = some (expectedChainHash genesis event)
  · rw [if_neg (not_not_intro h)]
    simp [h]
  · rw [if_pos h]
    exact ⟨rfl, rfl, by simp [VerifyState.addIssue, h]⟩

private theorem checkLinkage_spec (index : Nat) (event : EvidenceEvent) (acc : VerifyState) :
    (checkLinkage index event acc).invalid = acc.invalid ∧
      ((checkLinkage index event acc).chainValid = true ↔ acc.chainValid = true ∧
        (truthy event.prevChainHash = true →
          event.prevChainHash = some acc.prevExpectedHash)) := by
  unfold checkLinkage
  by_cases h : truthy event.prevChainHash = true ∧
      event.prevChainHash ≠ some acc.prevExpectedHash
  · rw [if_pos h]
    exact ⟨rfl, by simp [VerifyState.addIssue, h]⟩
  · rw [if_neg h]
    refine ⟨rfl, ⟨fun hc => ⟨hc, fun ht => ?_⟩, And.left⟩⟩
    by_contra hne
    exact h ⟨ht, hne⟩

@[simp] theorem invalid_checkChain (genesis : String) (index : Nat) (event : EvidenceEvent)
    (acc : VerifyState) : (checkChain genesis index event acc).invalid = acc.invalid := by
  unfold checkChain
  by_cases h : ChainChecked event
  · rw [if_pos h]
    exact (checkLinkage_spec _ _ _).1.trans (checkChainHash_spec _ _ _ _).1
  · rw [if_neg h]

theorem checkChain_of_checked (genesis : String) (index : Nat) {event : EvidenceEvent}
    (acc : VerifyState) (h : ChainChecked event) :
    (checkChain genesis index event acc).prevExpectedHash = event.chainHash.getD "" ∧
      ((checkChain genesis index event acc).chainValid = true ↔
        acc.chainValid = true ∧ LinkHolds genesis acc.prevExpectedHash event) := by
  unfold checkChain
  rw [if_pos h]
  obtain ⟨_, hp, hv⟩ := checkChainHash_spec genesis index event acc
  refine ⟨rfl, ?_⟩
  show (checkLinkage index event (checkChainHash genesis index event acc)).chainValid = true ↔ _
  rw [(checkLinkage_spec index event _).2, hp, hv, LinkHolds, and_assoc]

theorem checkChain_of_not_checked {genesis : String} {index : Nat} {event : EvidenceEvent}
    {acc : VerifyState} (h : ¬ ChainChecked event) :
    checkChain genesis index event acc = acc := by
  unfold checkChain
  rw [if_neg h]

theorem checkIntegrity_ok {index : Nat} {event : EvidenceEvent} {acc out : VerifyState}
    (h : checkIntegrity c index event acc = .ok out) :
    out.chainValid = acc.chainValid ∧ out.prevExpectedHash = acc.prevExpectedHash ∧
      (out.invalid = [] ↔ acc.invalid = [] ∧ event.calculateHash c = .ok event.contentHash) := by
  unfold checkIntegrity EvidenceEvent.verifyIntegrity at h
  cases hc : event.calculateHash c with
  | error err => simp [hc, bind, Except.bind] at h
  | ok hash =>
    by_cases he : hash = event.contentHash
    · simp [hc, bind, Except.bind, pure, Except.pure, he] at h
      simp [← h, he]
    · simp [hc, bind, Except.bind, pure, Except.pure, he] at h
      simp [← h, he]

theorem verifyLoop_ok {genesis : String} {index : Nat} {events : List EvidenceEvent}
    {acc out : VerifyState} (h : verifyLoop c genesis index events acc = .ok out) :
    (out.invalid = [] ↔ acc.invalid = [] ∧ ∀ e ∈ events, e.calculateHash c = .ok e.contentHash) ∧
      (out.chainValid = true ↔
        acc.chainValid = true ∧ LinksHold genesis acc.prevExpectedHash events) := by
  induction events generalizing index acc with
  | nil =>
    cases h
    simp [LinksHold]
  | cons event rest ih =>
    cases hi : checkIntegrity c index event acc with
    | error err => simp [verifyLoop, hi, bind, Except.bind] at h
    | ok mid =>
      have hrest : verifyLoop c genesis (index + 1) rest (checkChain genesis index event mid) =
          .ok out := by
        simpa [verifyLoop, hi, bind, Except.bind] using h
      obtain ⟨hinv, hchain⟩ := ih hrest
      obtain ⟨hcv, hprev, hnew⟩ := checkIntegrity_ok hi
      constructor
      · rw [hinv, invalid_checkChain, hnew, List.forall_mem_cons, and_assoc]
      · rw [hchain, LinksHold]
        by_cases hck : ChainChecked event
        · obtain ⟨hp, hv⟩ := checkChain_of_checked genesis index mid hck
          rw [if_pos hck, hp, hv, hcv, hprev, and_assoc]
        · rw [if_neg hck, checkChain_of_not_checked hck, hcv, hprev]

theorem verifyAll_ok {s : EvidenceLog} {r : VerifyReport} (h : verifyAll c cfg s = .ok r) :
    (r.allValid = true ↔ ∀ e ∈ s.log.toList, e.calculateHash c = .ok e.contentHash) ∧
      (r.chainValid = true ↔
        LinksHold (genesisHash cfg.runId) (genesisHash cfg.runId) s.log.toList) := by
  unfold verifyAll at h
  cases hl : verifyLoop c (genesisHash cfg.runId) 0 s.log.toList
      { prevExpectedHash := genesisHash cfg.runId } with
  | error err => simp [hl, bind, Except.bind] at h
  | ok out =>
    simp only [hl, bind, Except.bind, pure, Except.pure, Except.ok.injEq] at h
    obtain ⟨hi, hc⟩ := verifyLoop_ok hl
    rw [← h]
    constructor
    · simpa using hi
    · simpa using hc

/-- The chain hash of the last checked event, if any. -/
def lastChainHash (expected : String) (events : List EvidenceEvent) : String :=
  ((events.filter (ChainChecked ·)).getLast?.map (·.chainHash.getD "")).getD expected

private theorem lastChainHash_cons (expected : String) (event : EvidenceEvent)
    (events : List EvidenceEvent) : lastChainHash expected (event :: events) =
      lastChainHash (if ChainChecked event then event.chainHash.getD "" else expected)
        events := by
  unfold lastChainHash
  by_cases h : ChainChecked event
  · rw [if_pos h, List.filter_cons_of_pos (by simpa using h), List.getLast?_cons]
    cases (events.filter (ChainChecked ·)).getLast? <;> rfl
  · rw [if_neg h, List.filter_cons_of_neg (by simpa using h)]

theorem linksHold_iff {genesis expected : String} {events : List EvidenceEvent} :
    LinksHold genesis expected events ↔
      ∀ before event after, events = before ++ event :: after → ChainChecked event →
        LinkHolds genesis (lastChainHash expected before) event := by
  induction events generalizing expected with
  | nil => simp [LinksHold]
  | cons first rest ih =>
    have htail : (∀ before event after, rest = before ++ event :: after → ChainChecked event →
          LinkHolds genesis (lastChainHash expected (first :: before)) event) ↔
        LinksHold genesis (if ChainChecked first then first.chainHash.getD "" else expected)
          rest := by
      rw [ih]
      simp only [lastChainHash_cons]
    have hsplit : LinksHold genesis expected (first :: rest) ↔
        (ChainChecked first → LinkHolds genesis expected first) ∧
          LinksHold genesis (if ChainChecked first then first.chainHash.getD "" else expected)
            rest := by
      by_cases h : ChainChecked first <;> simp [LinksHold, h]
    rw [hsplit, ← htail]
    constructor
    · rintro ⟨hfirst, hrest⟩ before event after heq hck
      cases before with
      | nil =>
        obtain ⟨rfl, rfl⟩ := List.cons.inj heq
        exact hfirst hck
      | cons b before =>
        obtain ⟨rfl, hr⟩ := List.cons.inj heq
        exact hrest before event after hr hck
    · intro h
      refine ⟨h [] first rest rfl, fun before event after heq => ?_⟩
      exact h (first :: before) event after (by rw [heq]; rfl)

/-- Soundness and completeness of `verify_all` over any ring buffer: both verdicts are positive
exactly when every stored content hash is the recomputed one and, for the events with a chain
hash and a positive number, the chain hash is right and a previous hash, where set, is the chain
hash of the nearest such event before, or genesis. -/
theorem verifyAll_valid_iff (c : Codecs) (cfg : LogConfig) (s : EvidenceLog) (r : VerifyReport)
    (h : verifyAll c cfg s = .ok r) :
    r.allValid = true ∧ r.chainValid = true ↔
      (∀ e ∈ s.log.toList, e.calculateHash c = .ok e.contentHash) ∧
      ∀ before e after, s.log.toList = before ++ e :: after → ChainChecked e →
        e.chainHash = some (computeChainHash (prevOr (genesisHash cfg.runId) e) e.contentHash
          e.eventId) ∧
        (truthy e.prevChainHash = true →
          e.prevChainHash = some (lastChainHash (genesisHash cfg.runId) before)) := by
  obtain ⟨ha, hc⟩ := verifyAll_ok h
  rw [ha, hc, linksHold_iff]
  rfl

/-- An event that is linked to genesis and carries number one. -/
def genesisEvent : EvidenceEvent :=
  EvidenceEvent.link (genesisHash "r")
    { eventId := "r_0123456789ab"
      eventType := "tool_call"
      timestamp := 1700000000
      payload := encode "\x7b\x7d"
      sourceIds := []
      confidence := 1
      contentHash := "a2d9992b2f21a135105fb131c7ea14b64e3707843a3e5f28d2a8f11b3c7ee2f9"
      runId := "r"
      seqNo := 1 }

theorem verifyAll_valid_iff_one :
    let cfg : LogConfig := { runId := "r" }
    let s := { EvidenceLog.fresh cfg with log := Deque.empty.append genesisEvent }
    ∃ r, verifyAll plainCodecs cfg s = .ok r ∧
      (r.allValid = true ∧ r.chainValid = true ↔
        (∀ e ∈ s.log.toList, e.calculateHash plainCodecs = .ok e.contentHash) ∧
        ∀ before e after, s.log.toList = before ++ e :: after → ChainChecked e →
          e.chainHash = some (computeChainHash (prevOr (genesisHash cfg.runId) e) e.contentHash
            e.eventId) ∧
          (truthy e.prevChainHash = true →
            e.prevChainHash = some (lastChainHash (genesisHash cfg.runId) before))) := by
  intro cfg s
  have hok : (verifyAll plainCodecs cfg s).isOk = true := by decide +kernel
  cases h : verifyAll plainCodecs cfg s with
  | error err =>
    rw [h] at hok
    cases hok
  | ok r => exact ⟨r, rfl, verifyAll_valid_iff plainCodecs cfg s r h⟩

/-- A legacy event, without chain fields and number, passes: the chain check does not look at
it. -/
theorem verifyAll_legacy_event :
    let cfg : LogConfig := { runId := "r" }
    let e := { genesisEvent with prevChainHash := none, chainHash := none, seqNo := 0 }
    let s := { EvidenceLog.fresh cfg with log := Deque.empty.append e }
    (∃ r, verifyAll plainCodecs cfg s = .ok r ∧ r.allValid = true ∧ r.chainValid = true) ∧
      e ∈ s.log.toList ∧ ∀ text, e.chainHash ≠ some (sha256Text text) := by
  intro cfg e s
  have hok : (verifyAll plainCodecs cfg s).toOption.map (fun r => (r.allValid, r.chainValid)) =
      some (true, true) := by decide +kernel
  refine ⟨?_, List.mem_singleton.2 rfl, by simp [e]⟩
  cases h : verifyAll plainCodecs cfg s with
  | error err =>
    rw [h] at hok
    cases hok
  | ok r =>
    rw [h] at hok
    cases hr : r.allValid <;> cases hv : r.chainValid <;> simp_all [Except.toOption]

end Hledac.Evidence
