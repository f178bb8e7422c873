import Hledac.Lib.HashChain
import Hledac.Lib.Machine
import Hledac.Evidence.Split

/-!
# Verifying what the split writer creates

The created events seen as the links that visits to a hash chain publish: a call that raises after
it has moved the chain head publishes nothing. The query starts at the empty hash, whatever part of
the events it has kept.
-/

namespace Hledac.Evidence.Split

open Hledac.Lib Hledac.Lib.HashChain Hledac.Py Raising

variable {c : Codecs} {cfg : WriterConfig}

/-! ### What one call does -/

/-- The call gets an event built, and so moves the chain head. -/
def builds (c : Codecs) (cfg : WriterConfig) (p : EvidenceWriter × Call) : Bool :=
  (buildEvent c cfg p.1 p.2).isOk

/-- The call builds an event that can be serialised for the pool and, with a file open, written
to it. -/
def creates (c : Codecs) (cfg : WriterConfig) (p : EvidenceWriter × Call) : Bool :=
  match buildEvent c cfg p.1 p.2 with
  | .ok event => (handOver c cfg p.2 event).isOk
  | .error _ => false

/-- The writer once an event has moved its chain head. -/
def EvidenceWriter.wrote (w : EvidenceWriter) (event : EvidenceEvent) : EvidenceWriter :=
  { w with seq := w.seq + 1, totalCount := w.totalCount + 1, chainHead := some event.chainHash }

theorem createEvent_cases (c : Codecs) (cfg : WriterConfig) (w : EvidenceWriter) (call : Call) :
    (∃ err, buildEvent c cfg w call = .error err ∧ step c cfg w call = w ∧
      returned c cfg w call = none) ∨
    ∃ event, buildEvent c cfg w call = .ok event ∧ step c cfg w call = w.wrote event ∧
      ((∃ err, handOver c cfg call event = .error err ∧ returned c cfg w call = none) ∨
        handOver c cfg call event = .ok ⟨⟩ ∧ returned c cfg w call = some event) := by
  unfold step returned createEvent
  rw [exec_bind_ok (exec_get w), exec_bind, exec_ofExcept]
  cases hb : buildEvent c cfg w call with
  | error err => exact .inl ⟨err, rfl, rfl, rfl⟩
  | ok event =>
    right
    refine ⟨event, rfl, ?_⟩
    simp only [writeEvent]
    rw [exec_bind, exec_bind_ok (exec_modify _ w), exec_ofExcept]
    cases hh : handOver c cfg call event with
    | error err => exact ⟨rfl, .inl ⟨err, rfl, rfl⟩⟩
    | ok u => exact ⟨rfl, .inr ⟨rfl, rfl⟩⟩

/-- The text hashed for the link of an event. -/
def EvidenceEvent.linkText (e : EvidenceEvent) : String :=
  chainInput e.prevChainHash e.contentHash e.eventId

/-- The link of an event. -/
def EvidenceEvent.link (e : EvidenceEvent) : String × String := (e.prevChainHash, e.chainHash)

theorem buildEvent_spec {w : EvidenceWriter} {call : Call} {event : EvidenceEvent}
    (h : buildEvent c cfg w call = .ok event) :
    event.prevChainHash = orEmpty w.chainHead ∧ event.chainHash = shortHash event.linkText ∧
      event.calculateHash c = .ok event.contentHash := by
  unfold buildEvent EvidenceEvent.create at h
  simp only [bind, Except.bind, pure, Except.pure] at h
  split at h
  · cases h
  · next hash hh =>
    cases h
    exact ⟨rfl, rfl, hh⟩

/-- The visit that a call pays to the chain. -/
def move (c : Codecs) (cfg : WriterConfig) (p : EvidenceWriter × Call) : Move String :=
  match buildEvent c cfg p.1 p.2 with
  | .error _ => .idle
  | .ok event =>
    if creates c cfg p then .published event.linkText [] else .hidden event.linkText []

theorem advances_move (p : EvidenceWriter × Call) :
    (move c cfg p).Advances ↔ builds c cfg p = true := by
  unfold move builds
  cases buildEvent c cfg p.1 p.2 with
  | error err => simp [Move.Advances, Except.isOk, Except.toBool]
  | ok event =>
    simp only
    split <;> simp [Move.Advances, Except.isOk, Except.toBool]

theorem publishes_move (p : EvidenceWriter × Call) :
    (move c cfg p).Publishes ↔ creates c cfg p = true := by
  unfold move
  cases hb : buildEvent c cfg p.1 p.2 with
  | error err => simp [Move.Publishes, creates, hb]
  | ok event =>
    simp only
    split <;> simp [Move.Publishes, *]

theorem keeps_move (p : EvidenceWriter × Call) :
    (move c cfg p).Keeps ↔ creates c cfg p = true := by
  unfold move
  cases hb : buildEvent c cfg p.1 p.2 with
  | error err => simp [Move.Keeps, creates, hb]
  | ok event =>
    simp only
    split <;> simp [Move.Keeps, *]

/-- The text that a call hashes for the chain, if it gets an event built. -/
def hashedText (c : Codecs) (cfg : WriterConfig) (p : EvidenceWriter × Call) : Option String :=
  (buildEvent c cfg p.1 p.2).toOption.map (·.linkText)

theorem inputs_move (p : EvidenceWriter × Call) :
    (move c cfg p).inputs = (hashedText c cfg p).toList := by
  unfold move hashedText
  cases buildEvent c cfg p.1 p.2 with
  | error err => rfl
  | ok event =>
    simp only
    split <;> rfl

theorem step_spec (c : Codecs) (cfg : WriterConfig) (w : EvidenceWriter) (call : Call) :
    orEmpty (step c cfg w call).chainHead =
        last shortHash (orEmpty w.chainHead) (move c cfg (w, call)).inputs ∧
      (returned c cfg w call).toList.map (·.link) =
        links shortHash (orEmpty w.chainHead) [move c cfg (w, call)] := by
  rcases createEvent_cases c cfg w call with
    ⟨err, hb, hs, hr⟩ | ⟨event, hb, hs, ⟨err, hh, hr⟩ | ⟨hh, hr⟩⟩
  · have hm : move c cfg (w, call) = .idle := by simp [move, hb]
    rw [hs, hr, hm]
    exact ⟨rfl, rfl⟩
  · have hm : move c cfg (w, call) = .hidden event.linkText [] := by
      simp [move, creates, hb, hh, Except.isOk, Except.toBool]
    rw [hs, hr, hm]
    exact ⟨(buildEvent_spec hb).2.1, rfl⟩
  · have hm : move c cfg (w, call) = .published event.linkText [] := by
      simp [move, creates, hb, hh, Except.isOk, Except.toBool]
    obtain ⟨hp, hc, _⟩ := buildEvent_spec hb
    rw [hs, hr, hm]
    refine ⟨hc, ?_⟩
    simp [links, EvidenceEvent.link, hp, hc]

/-! ### What a sequence of calls does -/

/-- The calls as visits to the chain, each with the state it starts from. -/
def moves (c : Codecs) (cfg : WriterConfig) (w : EvidenceWriter) (calls : List Call) :
    List (Move String) :=
  (trace (step c cfg) w calls).map (move c cfg)

theorem map_link_created (c : Codecs) (cfg : WriterConfig) (w : EvidenceWriter) (calls : List Call) :
    (created c cfg w calls).map (·.link) =
      links shortHash (orEmpty w.chainHead) (moves c cfg w calls) := by
  induction calls generalizing w with
  | nil => rfl
  | cons call rest ih =>
    obtain ⟨hhead, hlinks⟩ := step_spec c cfg w call
    have hm : moves c cfg w (call :: rest) =
        move c cfg (w, call) :: moves c cfg (step c cfg w call) rest := rfl
    rw [created, List.map_append, hlinks, ih, hhead, hm,
      links_cons _ (move c cfg (w, call)) (moves c cfg (step c cfg w call) rest)]

theorem length_created (w : EvidenceWriter) (calls : List Call) :
    (created c cfg w calls).length =
      (trace (step c cfg) w calls).countP (creates c cfg) := by
  induction calls generalizing w with
  | nil => rfl
  | cons call rest ih =>
    rw [created, List.length_append, ih, trace, List.countP_cons, Nat.add_comm]
    congr 1
    rcases createEvent_cases c cfg w call with
      ⟨err, hb, _, hr⟩ | ⟨event, hb, _, ⟨err, hh, hr⟩ | ⟨hh, hr⟩⟩
    · simp [hr, creates, hb]
    · simp [hr, creates, hb, hh, Except.isOk, Except.toBool]
    · simp [hr, creates, hb, hh, Except.isOk, Except.toBool]

theorem forall_mem_created {w : EvidenceWriter} {calls : List Call} :
    ∀ e ∈ created c cfg w calls,
      e.chainHash = shortHash e.linkText ∧ e.calculateHash c = .ok e.contentHash := by
  induction calls generalizing w with
  | nil => simp [created]
  | cons call rest ih =>
    intro e he
    rw [created] at he
    rcases List.mem_append.1 he with he | he
    · rcases createEvent_cases c cfg w call with
        ⟨err, _, _, hr⟩ | ⟨event, hb, _, ⟨err, _, hr⟩ | ⟨_, hr⟩⟩
      · simp [hr] at he
      · simp [hr] at he
      · rw [hr] at he
        rw [List.mem_singleton.1 he]
        exact (buildEvent_spec hb).2
    · exact ih e he

/-- The texts that the calls hash for the chain, in order. -/
def hashedTexts (c : Codecs) (cfg : WriterConfig) (w : EvidenceWriter) (calls : List Call) :
    List String :=
  (trace (step c cfg) w calls).filterMap (hashedText c cfg)

theorem inputs_moves (w : EvidenceWriter) (calls : List Call) :
    inputs (moves c cfg w calls) = hashedTexts c cfg w calls := by
  unfold inputs moves hashedTexts
  induction trace (step c cfg) w calls with
  | nil => rfl
  | cons p ps ih =>
    rw [List.map_cons, List.flatMap_cons, ih, inputs_move]
    cases h : hashedText c cfg p <;> simp [h]

/-- The chain head a hashed text starts with. -/
def headOf (text : String) : String := String.ofList (text.toList.takeWhile (· ≠ '|'))

/-- The head has no separator in it. -/
def NoBar (head : String) : Prop := ∀ ch ∈ head.toList, ch ≠ '|'

theorem noBar_shortHash (text : String) : NoBar (shortHash text) := by
  intro ch hch
  have hmem : ch ∈ (sha256Text text).toList := by
    rw [shortHash, takeStr, String.toList_ofList] at hch
    exact List.mem_of_mem_take hch
  have hhex : Digest.IsHex ch := Digest.isHex_of_mem_sha256 _ ch hmem
  rintro rfl
  revert hhex
  decide

theorem NoBar.headOf_chainInput {head : String} (h : NoBar head) (contentHash eventId : String) :
    headOf (chainInput head contentHash eventId) = head := by
  have hl : (chainInput head contentHash eventId).toList =
      head.toList ++ '|' :: (contentHash.toList ++ '|' :: eventId.toList) := by
    simp [chainInput, String.toList_append]
  have htake : (head.toList ++ '|' :: (contentHash.toList ++ '|' :: eventId.toList)).takeWhile
      (· ≠ '|') = head.toList := by
    rw [List.takeWhile_append_of_pos fun ch hch => decide_eq_true (h ch hch)]
    simp
  rw [headOf, hl, htake, String.ofList_toList]

theorem isChain_hashedTexts {w : EvidenceWriter} (h : NoBar (orEmpty w.chainHead))
    (calls : List Call) :
    IsChain shortHash headOf (orEmpty w.chainHead) (hashedTexts c cfg w calls) := by
  induction calls generalizing w with
  | nil => trivial
  | cons call rest ih =>
    have hcons : hashedTexts c cfg w (call :: rest) =
        (hashedText c cfg (w, call)).toList ++ hashedTexts c cfg (step c cfg w call) rest := by
      rw [hashedTexts, trace, List.filterMap_cons]
      cases hashedText c cfg (w, call) <;> rfl
    rw [hcons]
    rcases createEvent_cases c cfg w call with ⟨err, hb, hs, _⟩ | ⟨event, hb, hs, _⟩
    · rw [hs]
      simpa [hashedText, hb, Except.toOption] using ih h
    · obtain ⟨hp, hc, _⟩ := buildEvent_spec hb
      have hhead : orEmpty (step c cfg w call).chainHead = shortHash event.linkText := by
        rw [hs]
        exact hc
      have hrest := ih (w := step c cfg w call) (by rw [hhead]; exact noBar_shortHash _)
      rw [hhead] at hrest
      have htext : (hashedText c cfg (w, call)).toList = [event.linkText] := by
        simp [hashedText, hb, Except.toOption]
      rw [htext]
      refine ⟨?_, hrest⟩
      rw [EvidenceEvent.linkText, hp, h.headOf_chainInput]

/-! ### The verdict -/

/-- The texts that `verify_all` hashes for the chain, from a previous hash on. -/
def checkedTexts : String → List EvidenceEvent → List String
  | _, [] => []
  | prevHash, event :: rest =>
    chainInput prevHash event.contentHash event.eventId :: checkedTexts event.chainHash rest

/-- Different texts of a list have different hashes. -/
def Separated (texts : List String) : Prop :=
  ∀ x ∈ texts, ∀ y ∈ texts, shortHash x = shortHash y → x = y

instance (texts : List String) : Decidable (Separated texts) :=
  inferInstanceAs (Decidable (∀ x ∈ _, ∀ y ∈ _, _ → _))

theorem Separated.mono {xs ys : List String} (hs : xs ⊆ ys) (h : Separated ys) :
    Separated xs := fun x hx y hy hxy => h x (hs hx) y (hs hy) hxy

theorem chainInput_left_inj {p q contentHash eventId : String} :
    chainInput p contentHash eventId = chainInput q contentHash eventId ↔ p = q := by
  refine ⟨fun h => ?_, fun h => by rw [h]⟩
  have hl := congrArg String.toList h
  simp only [chainInput, String.toList_append, List.append_assoc, List.append_cancel_right_eq]
    at hl
  exact String.toList_inj.1 hl

/-- On events whose own hashes are right, the loop finds no broken chain exactly when their links
follow on each other. -/
theorem verifyLoop_spec (events : List EvidenceEvent) (prevHash : Option String)
    (he : ∀ e ∈ events,
      e.chainHash = shortHash e.linkText ∧ e.calculateHash c = .ok e.contentHash)
    (hsep : Separated (events.map (·.linkText) ++ checkedTexts (orEmpty prevHash) events)) :
    ∃ broken, verifyLoop c prevHash events = .ok (events.length, 0, broken) ∧
      (broken = [] ↔ HashChain.Linked (orEmpty prevHash) (events.map (·.link))) := by
  induction events generalizing prevHash with
  | nil => exact ⟨[], rfl, by simp [HashChain.Linked]⟩
  | cons event rest ih =>
    obtain ⟨⟨hc, hh⟩, hrest⟩ := List.forall_mem_cons.1 he
    have hsub : rest.map (·.linkText) ++ checkedTexts event.chainHash rest ⊆
        (event :: rest).map (·.linkText) ++ checkedTexts (orEmpty prevHash) (event :: rest) := by
      intro x hx
      rcases List.mem_append.1 hx with hx | hx
      · exact List.mem_append_left _ (List.mem_cons_of_mem _ hx)
      · exact List.mem_append_right _ (List.mem_cons_of_mem _ hx)
    obtain ⟨broken, hb, hiff⟩ := ih (some event.chainHash) hrest (hsep.mono hsub)
    have hverify : event.verifyIntegrity c = .ok true := by
      simp [EvidenceEvent.verifyIntegrity, hh, bind, Except.bind, pure, Except.pure]
    -- the two texts hashed for this event differ at most in the previous hash
    have hcheck : computeChainHash prevHash event.contentHash event.eventId = event.chainHash ↔
        event.prevChainHash = orEmpty prevHash := by
      rw [hc, computeChainHash]
      constructor
      · intro h
        have htexts := hsep _ (List.mem_append_right _ List.mem_cons_self) _
          (List.mem_append_left _ List.mem_cons_self) h
        exact (chainInput_left_inj.1 htexts).symm
      · intro h
        rw [EvidenceEvent.linkText, h]
    refine ⟨(if computeChainHash prevHash event.contentHash event.eventId = event.chainHash
      then [] else [event.eventId]) ++ broken, ?_, ?_⟩
    · simp only [verifyLoop, hverify, hb, bind, Except.bind, pure, Except.pure]
      rfl
    · rw [List.append_eq_nil_iff, hiff, List.map_cons, EvidenceEvent.link, HashChain.Linked, ← hcheck]
      by_cases h : computeChainHash prevHash event.contentHash event.eventId = event.chainHash
      · simp [h, orEmpty]
      · simp [h]

theorem toList_ofEvents (events : List EvidenceEvent) :
    (EvidenceQuery.ofEvents events).events.toList = events.drop (events.length - maxEvents) := by
  simp only [EvidenceQuery.ofEvents, Deque.ofList]

/-- The first 32 hex digits of SHA-256 have no collision on the texts that the calls and the check
of their events hash. -/
def CollisionFree (c : Codecs) (cfg : WriterConfig) (calls : List Call) : Prop :=
  Separated (hashedTexts c cfg {} calls ++
    checkedTexts "" (EvidenceQuery.ofEvents (created c cfg {} calls)).events.toList)

instance (calls : List Call) : Decidable (CollisionFree c cfg calls) :=
  inferInstanceAs (Decidable (Separated _))

theorem shortHash_ne_empty (text : String) : shortHash text ≠ "" := by
  intro h
  have hlen : (shortHash text).length = 32 := by
    have h64 : (sha256Text text).toList.length = 64 := Digest.length_sha256 (encode text)
    rw [shortHash, takeStr, String.length_ofList, List.length_take, h64]
    rfl
  rw [h] at hlen
  exact absurd hlen (by decide)

theorem linkText_mem_hashedTexts {w : EvidenceWriter} {calls : List Call} {e : EvidenceEvent}
    (h : e ∈ created c cfg w calls) : e.linkText ∈ hashedTexts c cfg w calls := by
  induction calls generalizing w with
  | nil => simp [created] at h
  | cons call rest ih =>
    rw [created] at h
    rw [hashedTexts, trace, List.filterMap_cons]
    rcases List.mem_append.1 h with h | h
    · rcases createEvent_cases c cfg w call with
        ⟨err, _, _, hr⟩ | ⟨event, hb, _, ⟨err, _, hr⟩ | ⟨_, hr⟩⟩
      · simp [hr] at h
      · simp [hr] at h
      · rw [hr] at h
        rw [List.mem_singleton.1 h]
        simp [hashedText, hb, Except.toOption]
    · have hm : e.linkText ∈ (trace (step c cfg) (step c cfg w call) rest).filterMap
          (hashedText c cfg) := ih h
      cases hashedText c cfg (w, call) with
      | none => exact hm
      | some text => exact List.mem_cons_of_mem _ hm

/-- The events that a fresh writer's calls return are verified, with no broken chain, exactly when
they are no more than the query keeps, and no call that creates an event comes after one that has
moved the chain head without creating one. -/
theorem verified_iff (c : Codecs) (cfg : WriterConfig) (calls : List Call)
    (hf : CollisionFree c cfg calls) :
    ∃ r, verifyAll c (.ofEvents (created c cfg {} calls)) = .ok r ∧
      (r.verified = true ∧ r.brokenChains = [] ↔
        (trace (step c cfg) {} calls).countP (creates c cfg) ≤ maxEvents ∧
          (trace (step c cfg) {} calls).Pairwise fun p q =>
            builds c cfg p = true → creates c cfg q = true → creates c cfg p = true) := by
  have hnd : (heads shortHash "" (inputs (moves c cfg {} calls))).Nodup := by
    rw [inputs_moves]
    have hc : IsChain shortHash headOf "" (hashedTexts c cfg {} calls) :=
      isChain_hashedTexts (w := {}) (by simp [NoBar, orEmpty]) calls
    refine hc.nodup_heads (fun x hx y hy hxy => ?_) fun x _ => shortHash_ne_empty x
    exact hf x (List.mem_append_left _ hx) y (List.mem_append_left _ hy) hxy
  have hlinks := map_link_created c cfg {} calls
  rw [show orEmpty ({} : EvidenceWriter).chainHead = "" from rfl] at hlinks
  have hf' := hf
  rw [CollisionFree, toList_ofEvents] at hf'
  obtain ⟨broken, hloop, hbroken⟩ := verifyLoop_spec (c := c)
    ((created c cfg {} calls).drop ((created c cfg {} calls).length - maxEvents)) none
    (fun e he => forall_mem_created e (List.drop_subset _ _ he)) (by
      refine Separated.mono (fun x hx => ?_) hf'
      rcases List.mem_append.1 hx with hx | hx
      · obtain ⟨e, he, rfl⟩ := List.mem_map.1 hx
        exact List.mem_append_left _ (linkText_mem_hashedTexts (List.drop_subset _ _ he))
      · exact List.mem_append_right _ hx)
  rw [List.map_drop, hlinks, show orEmpty none = "" from rfl] at hbroken
  have hreport : ∃ r, verifyAll c (.ofEvents (created c cfg {} calls)) = .ok r ∧
      (r.verified = true ∧ r.brokenChains = [] ↔ broken = []) := by
    unfold verifyAll
    rw [toList_ofEvents, hloop]
    exact ⟨_, rfl, by simp⟩
  obtain ⟨r, hr, hverdict⟩ := hreport
  refine ⟨r, hr, ?_⟩
  rw [hverdict, hbroken, ← length_created]
  by_cases hlen : (created c cfg {} calls).length ≤ maxEvents
  · rw [Nat.sub_eq_zero_of_le hlen, List.drop_zero, linked_links_iff hnd, moves,
      List.pairwise_map]
    simp only [advances_move, publishes_move, keeps_move, hlen, true_and]
  · -- the oldest events are gone, and the first one kept is linked to one of them
    obtain ⟨k, hk⟩ := Nat.exists_eq_succ_of_ne_zero (Nat.sub_ne_zero_of_lt (Nat.lt_of_not_le hlen))
    have hpos : 0 < maxEvents := by decide
    rw [hk]
    refine iff_of_false (not_linked_drop_links hnd ?_) fun h => hlen h.1
    rw [← hlinks, Ne, List.drop_eq_nil_iff, List.length_map]
    omega

/-- Two calls on a fresh writer. -/
theorem verified_iff_two :
    let cfg : WriterConfig := ⟨"r", false, fun _ => .error ⟨.valueError, "Expected object"⟩⟩
    let calls : List Call :=
      [{ eventType := "tool_call", payload := .dict [], now := 1700000000 },
        { eventType := "decision", payload := .dict [], now := 1700000001 }]
    CollisionFree splitCodecs cfg calls ∧
      ∃ r, verifyAll splitCodecs (.ofEvents (created splitCodecs cfg {} calls)) = .ok r ∧
        (r.verified = true ∧ r.brokenChains = [] ↔
          (trace (step splitCodecs cfg) {} calls).countP (creates splitCodecs cfg) ≤ maxEvents ∧
            (trace (step splitCodecs cfg) {} calls).Pairwise fun p q =>
              builds splitCodecs cfg p = true → creates splitCodecs cfg q = true →
                creates splitCodecs cfg p = true) := by
  intro cfg calls
  have hf : CollisionFree splitCodecs cfg calls := by decide +kernel
  exact ⟨hf, verified_iff splitCodecs cfg calls hf⟩

theorem broken_ne_nil_of_verifyLoop {prevHash : Option String} {event : EvidenceEvent}
    {rest : List EvidenceEvent} {valid invalid : Nat} {broken : List String}
    (h : verifyLoop c prevHash (event :: rest) = .ok (valid, invalid, broken))
    (hne : computeChainHash prevHash event.contentHash event.eventId ≠ event.chainHash) :
    broken ≠ [] := by
  simp only [verifyLoop, bind, Except.bind, pure, Except.pure] at h
  split at h
  · cases h
  · split at h
    · cases h
    · cases h
      simp [hne]

theorem verifyLoop_of_verifyAll {q : EvidenceQuery} {r : VerifyReport}
    (h : verifyAll c q = .ok r) :
    ∃ valid invalid, verifyLoop c none q.events.toList = .ok (valid, invalid, r.brokenChains) := by
  unfold verifyAll at h
  cases hl : verifyLoop c none q.events.toList with
  | error err =>
    rw [hl] at h
    cases h
  | ok out =>
    obtain ⟨valid, invalid, broken⟩ := out
    rw [hl] at h
    cases h
    exact ⟨valid, invalid, rfl⟩

theorem isOk_handOver (h : cfg.persists = false) (call : Call) (event : EvidenceEvent) :
    (handOver c cfg call event).isOk = (event.toBytes c).isOk := by
  unfold handOver
  cases event.toBytes c with
  | error err => rfl
  | ok bytes => simp [h, bind, Except.bind, pure, Except.pure, Except.isOk, Except.toBool]

private theorem creates_splitCodecs (convert : EvidenceEvent → Except PyError PyVal)
    (w : EvidenceWriter) :
    creates splitCodecs ⟨"r", false, convert⟩
      (w, { eventType := "tool_call", payload := .dict [], now := 1700000000 }) = true := by
  have hdump : splitCodecs.dumps (.dict []) = .ok (encode "\x7b\x7d") := by decide +kernel
  obtain ⟨now, hnow⟩ : ∃ bits, float64Bits 1700000000 = some bits :=
    Option.isSome_iff_exists.1 (by decide +kernel)
  obtain ⟨one, hone⟩ : ∃ bits, float64Bits 1 = some bits :=
    Option.isSome_iff_exists.1 (by decide +kernel)
  have hbytes : ∀ e : EvidenceEvent, e.payload = .dict [] → e.timestamp = 1700000000 →
      e.confidence = 1 → e.sourceIds = [] → (e.toBytes splitCodecs).isOk = true := by
    intro e hp ht hc hs
    show (pack (.dict e.fields)).isOk = true
    simp [EvidenceEvent.fields, packItems, packValues, pack, hp, ht, hc, hs, hnow, hone, bind,
      Except.bind, pure, Except.pure, Except.isOk, Except.toBool]
  simp only [creates, buildEvent, EvidenceEvent.create, EvidenceEvent.calculateHashOf, hdump, bind,
    Except.bind, pure, Except.pure]
  rw [isOk_handOver rfl]
  exact hbytes _ rfl rfl rfl rfl

/-- After 10001 calls the query has dropped the first event, and finds the second one broken. -/
theorem not_verified_long :
    let cfg : WriterConfig := ⟨"r", false, fun _ => .error ⟨.valueError, "Expected object"⟩⟩
    let calls : List Call := List.replicate 10001
      { eventType := "tool_call", payload := .dict [], now := 1700000000 }
    ¬ ∃ r, verifyAll splitCodecs (.ofEvents (created splitCodecs cfg {} calls)) = .ok r ∧
      r.verified = true ∧ r.brokenChains = [] := by
  intro cfg calls
  let call : Call := { eventType := "tool_call", payload := .dict [], now := 1700000000 }
  have hlen : (created splitCodecs cfg {} calls).length = 10001 := by
    rw [length_created, List.countP_eq_length.2, length_trace, List.length_replicate]
    rintro ⟨w, call'⟩ hp
    have hcall : call' = call := List.eq_of_mem_replicate (snd_mem_of_mem_trace hp)
    rw [hcall]
    exact creates_splitCodecs _ w
  have hsecond : (returned splitCodecs cfg (step splitCodecs cfg {} call) call).map (fun e =>
      decide (computeChainHash none e.contentHash e.eventId = e.chainHash)) = some false := by
    decide +kernel
  have hfirst : (returned splitCodecs cfg {} call).isSome = true := by decide +kernel
  obtain ⟨first, hfirst⟩ := Option.isSome_iff_exists.1 hfirst
  obtain ⟨second, hsecond, hbroken⟩ := Option.map_eq_some_iff.1 hsecond
  have hcreated : created splitCodecs cfg {} calls = first :: second ::
      created splitCodecs cfg (step splitCodecs cfg (step splitCodecs cfg {} call) call)
        (List.replicate 9999 call) := by
    show (returned splitCodecs cfg {} call).toList ++
      ((returned splitCodecs cfg (step splitCodecs cfg {} call) call).toList ++ _) = _
    rw [hfirst, hsecond]
    rfl
  have hkept : (EvidenceQuery.ofEvents (created splitCodecs cfg {} calls)).events.toList =
      second :: created splitCodecs cfg (step splitCodecs cfg (step splitCodecs cfg {} call) call)
        (List.replicate 9999 call) := by
    rw [toList_ofEvents, hlen, show 10001 - maxEvents = 1 from rfl, hcreated]
    rfl
  rintro ⟨r, hr, _, hnil⟩
  obtain ⟨valid, invalid, hl⟩ := verifyLoop_of_verifyAll hr
  rw [hkept] at hl
  exact broken_ne_nil_of_verifyLoop hl (of_decide_eq_false hbroken) hnil

end Hledac.Evidence.Split
