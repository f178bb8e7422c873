import Hledac.Lib.Machine
import Hledac.Evidence.Log

/-!
# What one operation does to the evidence log

The inversion lemmas of the log's operations: which of the log's parts a step touches, where it
can stop, and what it has written by then. The later modules cite these and do not unfold the
operations.
-/

namespace Hledac.Evidence

open Hledac.Lib Hledac.Py Raising

variable {c : Codecs} {cfg : LogConfig}

/-! ### Indexing -/

/-- The log after one event has been indexed. -/
def EvidenceLog.indexed (s : EvidenceLog) (position : Nat) (event : EvidenceEvent) :
    EvidenceLog :=
  { s with
    indexByType := pushPosition s.indexByType event.eventType position
    indexBySource := event.sourceIds.foldl (indexSource · position) s.indexBySource }

theorem exec_indexEvent (position : Nat) (event : EvidenceEvent) (s : EvidenceLog) :
    exec (indexEvent position event) s =
      if s.HasIndex event.eventType then (.ok (), s.indexed position event)
      else (.error ⟨.keyError, event.eventType⟩, s) := by
  unfold indexEvent
  rw [exec_bind_ok (exec_get s)]
  by_cases h : s.HasIndex event.eventType
  · rw [if_pos h, if_pos h]
    rfl
  · rw [if_neg h, if_neg h]
    rfl

/-- Two logs that differ at most in their indexes. -/
def EvidenceLog.SameButIndexes (s t : EvidenceLog) : Prop :=
  t = { s with indexByType := t.indexByType, indexBySource := t.indexBySource }

theorem sameButIndexes_indexEvents (position : Nat) (events : List EvidenceEvent)
    (s : EvidenceLog) : s.SameButIndexes (exec (indexEvents position events) s).2 := by
  induction events generalizing position s with
  | nil => rfl
  | cons event rest ih =>
    rw [indexEvents]
    by_cases h : s.HasIndex event.eventType
    · have hx : exec (indexEvent position event) s = (.ok (), s.indexed position event) := by
        rw [exec_indexEvent, if_pos h]
      rw [exec_bind_ok hx]
      exact (ih (position + 1) (s.indexed position event)).trans rfl
    · have hx : exec (indexEvent position event) s =
          (.error ⟨.keyError, event.eventType⟩, s) := by
        rw [exec_indexEvent, if_neg h]
      rw [exec_bind_error hx]
      rfl

theorem exec_rebuildIndexes (s : EvidenceLog) :
    exec rebuildIndexes s =
      exec (indexEvents 0 s.log.toList) { s with indexByType := emptyIndex, indexBySource := [] } :=
  rfl

theorem sameButIndexes_rebuildIndexes (s : EvidenceLog) :
    s.SameButIndexes (exec rebuildIndexes s).2 := by
  rw [exec_rebuildIndexes]
  exact (sameButIndexes_indexEvents 0 s.log.toList _).trans rfl

theorem exec_updateIndexes_of_full {s : EvidenceLog} (event : EvidenceEvent)
    (h : s.log.length = maxRamEvents) :
    exec (updateIndexes event) s =
      (.ok (), (exec rebuildIndexes
        { s.store event with droppedCount := s.droppedCount + 1 }).2) := by
  unfold updateIndexes
  rw [exec_bind_ok (exec_get s), exec_bind_ok (exec_modify _ s), if_pos h,
    exec_bind_ok (exec_modify _ _), exec_swallow]
  rfl

theorem exec_updateIndexes_of_not_full {s : EvidenceLog} (event : EvidenceEvent)
    (h : s.log.length ≠ maxRamEvents) :
    exec (updateIndexes event) s =
      if s.HasIndex event.eventType then
        (.ok (), (s.store event).indexed ((s.store event).log.length - 1) event)
      else (.error ⟨.keyError, event.eventType⟩, s.store event) := by
  unfold updateIndexes
  rw [exec_bind_ok (exec_get s), exec_bind_ok (exec_modify _ s), if_neg h,
    exec_bind_ok (exec_get _), exec_indexEvent]
  rfl

theorem updateIndexes_frame (s : EvidenceLog) (event : EvidenceEvent) :
    ∃ d, { s.store event with droppedCount := d }.SameButIndexes
      (exec (updateIndexes event) s).2 := by
  by_cases h : s.log.length = maxRamEvents
  · rw [exec_updateIndexes_of_full event h]
    exact ⟨_, sameButIndexes_rebuildIndexes _⟩
  · rw [exec_updateIndexes_of_not_full event h]
    by_cases hi : s.HasIndex event.eventType
    · rw [if_pos hi]
      exact ⟨s.droppedCount, rfl⟩
    · rw [if_neg hi]
      exact ⟨s.droppedCount, rfl⟩

@[simp] theorem log_updateIndexes (s : EvidenceLog) (event : EvidenceEvent) :
    (exec (updateIndexes event) s).2.log = s.log.append event := by
  obtain ⟨d, h⟩ := updateIndexes_frame s event
  rw [h]
  rfl

@[simp] theorem totalCount_updateIndexes (s : EvidenceLog) (event : EvidenceEvent) :
    (exec (updateIndexes event) s).2.totalCount = s.totalCount + 1 := by
  obtain ⟨d, h⟩ := updateIndexes_frame s event
  rw [h]
  rfl

@[simp] theorem seq_updateIndexes (s : EvidenceLog) (event : EvidenceEvent) :
    (exec (updateIndexes event) s).2.seq = s.seq := by
  obtain ⟨d, h⟩ := updateIndexes_frame s event
  rw [h]
  rfl

@[simp] theorem chainHead_updateIndexes (s : EvidenceLog) (event : EvidenceEvent) :
    (exec (updateIndexes event) s).2.chainHead = s.chainHead := by
  obtain ⟨d, h⟩ := updateIndexes_frame s event
  rw [h]
  rfl

@[simp] theorem history_updateIndexes (s : EvidenceLog) (event : EvidenceEvent) :
    (exec (updateIndexes event) s).2.history =
      { s.history with stored := s.history.stored ++ [event] } := by
  obtain ⟨d, h⟩ := updateIndexes_frame s event
  rw [h]
  rfl

theorem updateIndexes_ok_iff (s : EvidenceLog) (event : EvidenceEvent) :
    (exec (updateIndexes event) s).1 = .ok () ↔
      s.log.length = maxRamEvents ∨ s.HasIndex event.eventType := by
  by_cases h : s.log.length = maxRamEvents
  · simp [exec_updateIndexes_of_full event h, h]
  · rw [exec_updateIndexes_of_not_full event h]
    by_cases hi : s.HasIndex event.eventType <;> simp [h, hi]

/-! ### Appending -/

/-- The event passes `_validate_event`. -/
def Accepted (cfg : LogConfig) (env : Env) (event : EvidenceEvent) : Prop :=
  validateEvent cfg env event = .ok ()

/-- The event as `append` hands it to the channels: numbered, and linked to the chain head. -/
def EvidenceLog.linkedEvent (s : EvidenceLog) (event : EvidenceEvent) : EvidenceEvent :=
  { event with seqNo := s.seq + 1 }.link s.chainHead

/-- The log once an accepted event has taken a number and the chain head. -/
def EvidenceLog.linked (s : EvidenceLog) (event : EvidenceEvent) : EvidenceLog :=
  { s with seq := s.seq + 1 }.advance event

/-- `append` gets past the channels with this event: it can be serialised for them, and the
persist channel does not raise. -/
def Handed (c : Codecs) (cfg : LogConfig) (env : Env) (event : EvidenceEvent) : Prop :=
  sendToMpsc c env event = .ok () ∧
    (cfg.enablePersist → (∃ line, event.toJsonlLine c = .ok line) ∧
      ∀ reason, env.delivery ≠ .failed reason)

/-- The log after the persist channel has seen the event. -/
def EvidenceLog.delivered (cfg : LogConfig) (env : Env) (s : EvidenceLog)
    (event : EvidenceEvent) : EvidenceLog :=
  if cfg.enablePersist ∧ env.delivery = .accepted then
    { s with history := { s.history with persisted := s.history.persisted ++ [event] } }
  else s

theorem delivered_eq (cfg : LogConfig) (env : Env) (s : EvidenceLog) (event : EvidenceEvent) :
    s.delivered cfg env event =
      { s with history := { s.history with
          persisted := s.history.persisted ++
            if cfg.enablePersist ∧ env.delivery = .accepted then [event] else [] } } := by
  unfold EvidenceLog.delivered
  split
  · rfl
  · simp

@[simp] theorem chainHead_delivered (cfg : LogConfig) (env : Env) (s : EvidenceLog)
    (event : EvidenceEvent) : (s.delivered cfg env event).chainHead = s.chainHead := by
  rw [delivered_eq]

/-- The content hash `append` computes of the trimmed event. -/
def rehash (c : Codecs) (event : EvidenceEvent) : Except PyError String :=
  { event with payload := trimPayloadFast c event.payload }.calculateHash c

/-- The event with its trimmed payload and the hash of that. -/
def trimmedEvent (c : Codecs) (event : EvidenceEvent) (contentHash : String) : EvidenceEvent :=
  { event with payload := trimPayloadFast c event.payload, contentHash := contentHash }

theorem rehash_linkedEvent (s : EvidenceLog) (event : EvidenceEvent) :
    rehash c (s.linkedEvent event) = rehash c event := rfl

private theorem exec_persistEvent_cases (env : Env) (event : EvidenceEvent) (s : EvidenceLog) :
    ((∃ line, event.toJsonlLine c = .ok line) ∧ (∀ reason, env.delivery ≠ .failed reason) ∧
      exec (persistEvent c env event) s = (.ok (),
        if env.delivery = .accepted then
          { s with history := { s.history with persisted := s.history.persisted ++ [event] } }
        else s)) ∨
    (¬ ((∃ line, event.toJsonlLine c = .ok line) ∧ ∀ reason, env.delivery ≠ .failed reason) ∧
      ∃ err, exec (persistEvent c env event) s = (.error err, s)) := by
  unfold persistEvent
  rw [exec_bind, exec_ofExcept]
  cases hl : event.toJsonlLine c with
  | error err => exact .inr ⟨by simp, err, rfl⟩
  | ok line =>
    cases hd : env.delivery with
    | accepted => exact .inl ⟨⟨line, rfl⟩, by simp, rfl⟩
    | lost => exact .inl ⟨⟨line, rfl⟩, by simp, rfl⟩
    | failed reason => exact .inr ⟨by simp, _, rfl⟩

private theorem exec_handToChannels_cases (c : Codecs) (cfg : LogConfig) (env : Env)
    (event : EvidenceEvent) (s : EvidenceLog) :
    (Handed c cfg env event ∧
      exec (handToChannels c cfg env event) s = (.ok (), s.delivered cfg env event)) ∨
    (¬ Handed c cfg env event ∧
      ∃ err, exec (handToChannels c cfg env event) s = (.error err, s)) := by
  unfold handToChannels
  rw [exec_bind, exec_ofExcept]
  cases hs : sendToMpsc c env event with
  | error err => exact .inr ⟨fun h => by simp [Handed, hs] at h, err, rfl⟩
  | ok u =>
    by_cases hp : cfg.enablePersist = true
    · rcases exec_persistEvent_cases (c := c) env event s with ⟨hl, hd, hx⟩ | ⟨hn, err, hx⟩
      · refine .inl ⟨⟨hs, fun _ => ⟨hl, hd⟩⟩, ?_⟩
        simp only [hp, ite_true, hx, EvidenceLog.delivered, true_and]
      · refine .inr ⟨fun h => hn (h.2 hp), err, ?_⟩
        simp only [hp, ite_true, hx]
    · refine .inl ⟨⟨hs, fun h => absurd h hp⟩, ?_⟩
      simp [hp, EvidenceLog.delivered]

/-- The log when `append` has linked the trimmed event: the chain head has moved a second
time. -/
def EvidenceLog.relinked (c : Codecs) (cfg : LogConfig) (env : Env) (s : EvidenceLog)
    (event : EvidenceEvent) (contentHash : String) : EvidenceLog :=
  ((s.linked event).delivered cfg env (s.linkedEvent event)).advance
    (trimmedEvent c event contentHash)

/-- The event that `append` stores. -/
def EvidenceLog.storedEvent (c : Codecs) (s : EvidenceLog) (event : EvidenceEvent)
    (contentHash : String) : EvidenceEvent :=
  (trimmedEvent c (s.linkedEvent event) contentHash).link (s.linked event).chainHead

/-- Everything `append` can do: refuse the event; stop after the first link, because a channel
raised or the trimmed event has no hash; or link it again and put it into the ring buffer. -/
theorem append_cases (c : Codecs) (cfg : LogConfig) (env : Env) (event : EvidenceEvent)
    (s : EvidenceLog) :
    (¬ Accepted cfg env event ∧ ∃ err, exec (append c cfg env event) s = (.error err, s)) ∨
    (Accepted cfg env event ∧ ¬ Handed c cfg env (s.linkedEvent event) ∧
      ∃ err, exec (append c cfg env event) s = (.error err, s.linked event)) ∨
    (Accepted cfg env event ∧ Handed c cfg env (s.linkedEvent event) ∧
      ∃ err, rehash c event = .error err ∧ exec (append c cfg env event) s =
        (.error err, (s.linked event).delivered cfg env (s.linkedEvent event))) ∨
    (Accepted cfg env event ∧ Handed c cfg env (s.linkedEvent event) ∧
      ∃ contentHash, rehash c event = .ok contentHash ∧
        (exec (append c cfg env event) s).2 =
          (exec (updateIndexes (s.storedEvent c event contentHash))
            (s.relinked c cfg env event contentHash)).2 ∧
        ((exec (append c cfg env event) s).1.isOk =
          (exec (updateIndexes (s.storedEvent c event contentHash))
            (s.relinked c cfg env event contentHash)).1.isOk)) := by
  unfold append
  rw [exec_bind, exec_ofExcept]
  cases hv : validateEvent cfg env event with
  | error err => exact .inl ⟨by simp [Accepted, hv], err, rfl⟩
  | ok u =>
    refine .inr ?_
    simp only
    have hlink : exec (updateChainState { event with seqNo := ((s.seq + 1 : Nat) : Int) })
        { s with seq := s.seq + 1 } = (.ok (s.linkedEvent event), s.linked event) := rfl
    rw [exec_bind_ok (exec_modify _ s), exec_bind_ok (exec_get _), exec_bind_ok hlink]
    rcases exec_handToChannels_cases c cfg env (s.linkedEvent event)
      (s.linked event) with ⟨hh, hx⟩ | ⟨hh, err, hx⟩
    · refine .inr ?_
      rw [exec_bind_ok hx, exec_bind, exec_ofExcept]
      rw [← rehash_linkedEvent s event]
      cases hr : rehash c (s.linkedEvent event) with
      | error err =>
        refine .inl ⟨hv, hh, err, rfl, ?_⟩
        simp only [rehash] at hr
        rw [hr]
      | ok contentHash =>
        refine .inr ⟨hv, hh, contentHash, rfl, ?_⟩
        simp only [rehash] at hr
        rw [hr]
        have hlink' : exec (updateChainState (trimmedEvent c (s.linkedEvent event) contentHash))
            ((s.linked event).delivered cfg env (s.linkedEvent event)) =
            (.ok (s.storedEvent c event contentHash), s.relinked c cfg env event contentHash) := by
          rw [EvidenceLog.storedEvent, ← chainHead_delivered cfg env _ (s.linkedEvent event)]
          rfl
        show (exec (updateChainState (trimmedEvent c _ _) >>= _) _).2 = _ ∧
          (exec (updateChainState (trimmedEvent c _ _) >>= _) _).1.isOk = _
        rw [exec_bind_ok hlink', exec_bind]
        rcases exec (updateIndexes (s.storedEvent c event contentHash))
          (s.relinked c cfg env event contentHash) with ⟨_ | _, u⟩
        · exact ⟨rfl, rfl⟩
        · exact ⟨rfl, rfl⟩
    · rw [exec_bind_error hx]
      exact .inl ⟨hv, hh, err, rfl⟩

/-! ### The parts of the log between the stages -/

@[simp] theorem history_linked (s : EvidenceLog) (event : EvidenceEvent) :
    (s.linked event).history = { s.history with
      digested := s.history.digested ++
        [chainInput s.chainHead event.contentHash event.eventId] } := rfl

@[simp] theorem chainHead_relinked (env : Env) (s : EvidenceLog) (event : EvidenceEvent)
    (contentHash : String) : (s.relinked c cfg env event contentHash).chainHead =
      computeChainHash (s.linked event).chainHead contentHash event.eventId := by
  simp only [EvidenceLog.relinked, EvidenceLog.advance, chainHead_delivered]
  rfl

@[simp] theorem history_relinked (env : Env) (s : EvidenceLog) (event : EvidenceEvent)
    (contentHash : String) : (s.relinked c cfg env event contentHash).history =
      { ((s.linked event).delivered cfg env (s.linkedEvent event)).history with
        digested := s.history.digested ++
          [chainInput s.chainHead event.contentHash event.eventId] ++
          [chainInput (s.linked event).chainHead contentHash event.eventId] } := by
  simp only [EvidenceLog.relinked, EvidenceLog.advance, delivered_eq]
  rfl

@[simp] theorem seq_relinked (env : Env) (s : EvidenceLog) (event : EvidenceEvent)
    (contentHash : String) : (s.relinked c cfg env event contentHash).seq = s.seq + 1 := by
  simp only [EvidenceLog.relinked, EvidenceLog.advance, delivered_eq]
  rfl

@[simp] theorem totalCount_relinked (env : Env) (s : EvidenceLog) (event : EvidenceEvent)
    (contentHash : String) :
    (s.relinked c cfg env event contentHash).totalCount = s.totalCount := by
  simp only [EvidenceLog.relinked, EvidenceLog.advance, delivered_eq]
  rfl

theorem state_createEvent (env : Env) (args : CreateArgs) (s : EvidenceLog) :
    (exec (createEvent c cfg env args) s).2 =
      match createHands c cfg env args with
      | some event => (exec (append c cfg env event) s).2
      | none => s := by
  unfold createEvent createHands
  by_cases hs : cfg.silentFailure = true
  · simp only [hs, Bool.true_or, ite_true]
    rfl
  by_cases hd : sampledOut cfg env.draw args.eventType = true
  · simp only [hs, hd, Bool.or_true, Bool.true_or, ite_true]
    rfl
  by_cases hc : env.closed = true
  · simp only [hs, hd, hc, Bool.or_true, ite_true]
    rfl
  simp only [hs, hd, hc, Bool.or_self]
  show (exec (Raising.ofExcept _ >>= _) s).2 = _
  rw [exec_bind, exec_ofExcept]
  cases buildEvent c cfg env args with
  | error err => rfl
  | ok event =>
    show (exec (append c cfg env event >>= _) s).2 = (exec (append c cfg env event) s).2
    rw [exec_bind]
    rcases exec (append c cfg env event) s with ⟨_ | _, t⟩ <;> rfl

theorem state_attachForensicAnalysis (env : Env) (attachedAt findingId : String)
    (result : PyVal) (sourceId : Option String) (confidence : Option ℚ) (s : EvidenceLog) :
    (exec (attachForensicAnalysis c cfg env attachedAt findingId result sourceId confidence)
        s).2 =
      match forensicArgs c attachedAt findingId result sourceId confidence with
      | some args => (exec (createEvent c cfg env args) s).2
      | none => s := by
  unfold attachForensicAnalysis
  cases forensicArgs c attachedAt findingId result sourceId confidence with
  | none => rfl
  | some args =>
    simp only
    rw [exec_tryCatch]
    rcases exec (createEvent c cfg env args) s with ⟨err | event, t⟩
    · simp only
      split <;> rfl
    · rfl

/-- The operation adds a batch. -/
def Op.IsBatch : Op → Prop
  | .createEventsBatch _ _ => True
  | _ => False

instance : DecidablePred Op.IsBatch
  | .createEventsBatch _ _ => inferInstanceAs (Decidable True)
  | .append _ _ => inferInstanceAs (Decidable False)
  | .createEvent _ _ => inferInstanceAs (Decidable False)
  | .createDecisionEvent _ _ _ _ _ _ => inferInstanceAs (Decidable False)
  | .createEvidencePacketEvent _ _ _ _ _ _ => inferInstanceAs (Decidable False)
  | .attachForensicAnalysis _ _ _ _ _ _ => inferInstanceAs (Decidable False)

theorem step_eq_append (op : Op) (hb : ¬ op.IsBatch) (s : EvidenceLog) :
    step c cfg s op =
      match op.appends c cfg with
      | some (env, event) => (exec (append c cfg env event) s).2
      | none => s := by
  cases op with
  | append env event => rfl
  | createEvent env args =>
    simp only [step, Op.appends, state_createEvent]
    cases createHands c cfg env args <;> rfl
  | createDecisionEvent env kind summary reasons refs confidence =>
    simp only [step, Op.appends, createDecisionEvent, state_createEvent]
    cases createHands c cfg env (decisionArgs c kind summary reasons refs confidence) <;> rfl
  | createEvidencePacketEvent env evidenceId packetPath summary sourceIds confidence =>
    simp only [step, Op.appends, createEvidencePacketEvent, state_createEvent]
    cases createHands c cfg env
      (packetArgs evidenceId packetPath summary sourceIds confidence) <;> rfl
  | attachForensicAnalysis env attachedAt findingId result sourceId confidence =>
    simp only [step, Op.appends, state_attachForensicAnalysis]
    cases forensicArgs c attachedAt findingId result sourceId confidence with
    | none => rfl
    | some args =>
      simp only [Option.bind_some, state_createEvent]
      cases createHands c cfg env args <;> rfl
  | createEventsBatch env events => exact absurd trivial hb

theorem step_append_cases (c : Codecs) (cfg : LogConfig) (op : Op) (hb : ¬ op.IsBatch)
    (s : EvidenceLog) :
    ((∀ env event, op.appends c cfg = some (env, event) → ¬ Accepted cfg env event) ∧
      step c cfg s op = s) ∨
    ∃ env event, op.appends c cfg = some (env, event) ∧ Accepted cfg env event ∧
      ((¬ Handed c cfg env (s.linkedEvent event) ∧ step c cfg s op = s.linked event) ∨
       (Handed c cfg env (s.linkedEvent event) ∧ (∃ err, rehash c event = .error err) ∧
          step c cfg s op = (s.linked event).delivered cfg env (s.linkedEvent event)) ∨
       (Handed c cfg env (s.linkedEvent event) ∧ ∃ contentHash,
          rehash c event = .ok contentHash ∧ step c cfg s op =
            (exec (updateIndexes (s.storedEvent c event contentHash))
              (s.relinked c cfg env event contentHash)).2)) := by
  rw [step_eq_append op hb]
  cases ha : op.appends c cfg with
  | none => exact .inl ⟨by simp, rfl⟩
  | some p =>
    obtain ⟨env, event⟩ := p
    rcases append_cases c cfg env event s with
      ⟨hn, err, hx⟩ | ⟨hv, hh, err, hx⟩ | ⟨hv, hh, err, hr, hx⟩ | ⟨hv, hh, h, hr, hx, _⟩
    · refine .inl ⟨?_, by simp only [hx]⟩
      rintro env' event' ⟨rfl, rfl⟩
      exact hn
    · exact .inr ⟨env, event, rfl, hv, .inl ⟨hh, by simp only [hx]⟩⟩
    · exact .inr ⟨env, event, rfl, hv, .inr (.inl ⟨hh, ⟨err, hr⟩, by simp only [hx]⟩)⟩
    · exact .inr ⟨env, event, rfl, hv, .inr (.inr ⟨hh, h, hr, hx⟩)⟩

theorem step_append_invariant {I : EvidenceLog → Prop} {op : Op} (hb : ¬ op.IsBatch) {s : EvidenceLog} (h : I s)
    (hlinked : ∀ event, I (s.linked event))
    (hdelivered : ∀ env event, I ((s.linked event).delivered cfg env (s.linkedEvent event)))
    (hstored : ∀ env event contentHash, rehash c event = .ok contentHash →
      I (exec (updateIndexes (s.storedEvent c event contentHash)) (s.relinked c cfg env event contentHash)).2) :
    I (step c cfg s op) := by
  rcases step_append_cases c cfg op hb s with
    ⟨_, hs⟩ | ⟨env, event, _, _, ⟨_, hs⟩ | ⟨_, _, hs⟩ | ⟨_, contentHash, hr, hs⟩⟩
  · rw [hs]
    exact h
  · rw [hs]
    exact hlinked event
  · rw [hs]
    exact hdelivered env event
  · rw [hs]
    exact hstored env event contentHash hr

/-! ### Batches -/

theorem buildBatchEvent_spec {item : BatchItem} {event : EvidenceEvent}
    (h : buildBatchEvent c cfg item = .ok event) :
    event.calculateHash c = .ok event.contentHash ∧ event.seqNo = 0 ∧
      event.eventType = item.eventType := by
  unfold buildBatchEvent at h
  simp only [bind, Except.bind, pure, Except.pure] at h
  split at h
  · cases h
  · split at h
    · cases h
    · split at h
      · cases h
      · next hash hh =>
        cases h
        exact ⟨hh, rfl, rfl⟩

/-- The log when the text of a batch event's link has been hashed. -/
def EvidenceLog.digest (s : EvidenceLog) (head : String) (event : EvidenceEvent) : EvidenceLog :=
  { s with history := { s.history with
      digested := s.history.digested ++ [chainInput head event.contentHash event.eventId] } }

theorem exec_batchLoop_skip {item : BatchItem} (h : sampledOut cfg item.draw item.eventType = true)
    (rest : List BatchItem) (head : String) (s : EvidenceLog) :
    exec (batchLoop c cfg (item :: rest) head) s = exec (batchLoop c cfg rest head) s := by
  have hs : exec (createSingleEventBatch c cfg item head) s = (.ok (none, head), s) := by
    rw [createSingleEventBatch, if_pos h]
    rfl
  rw [batchLoop, exec_bind_ok hs]

theorem exec_batchLoop_fail {item : BatchItem}
    (h : ¬ sampledOut cfg item.draw item.eventType = true) {err : PyError}
    (hb : buildBatchEvent c cfg item = .error err) (rest : List BatchItem) (head : String)
    (s : EvidenceLog) : exec (batchLoop c cfg (item :: rest) head) s = (.error err, s) := by
  have hs : exec (createSingleEventBatch c cfg item head) s = (.error err, s) := by
    rw [createSingleEventBatch, if_neg h, hb]
    rfl
  rw [batchLoop, exec_bind_error hs]

private theorem exec_createSingleEventBatch {item : BatchItem}
    (h : ¬ sampledOut cfg item.draw item.eventType = true) {event : EvidenceEvent}
    (hb : buildBatchEvent c cfg item = .ok event) (head : String) (s : EvidenceLog) :
    exec (createSingleEventBatch c cfg item head) s =
      (.ok (some (event.link head), computeChainHash head event.contentHash event.eventId),
        s.digest head event) := by
  rw [createSingleEventBatch, if_neg h, hb]
  rfl

theorem exec_batchLoop_raise {item : BatchItem}
    (h : ¬ sampledOut cfg item.draw item.eventType = true) {event : EvidenceEvent}
    (hb : buildBatchEvent c cfg item = .ok event) {head : String} {s t : EvidenceLog}
    {err : PyError}
    (hu : exec (updateIndexes (event.link head)) (s.digest head event) = (.error err, t))
    (rest : List BatchItem) :
    exec (batchLoop c cfg (item :: rest) head) s = (.error err, t) := by
  rw [batchLoop, exec_bind_ok (exec_createSingleEventBatch h hb head s)]
  exact exec_bind_error hu

theorem exec_batchLoop_cons {item : BatchItem}
    (h : ¬ sampledOut cfg item.draw item.eventType = true) {event : EvidenceEvent}
    (hb : buildBatchEvent c cfg item = .ok event) {head : String} {s t : EvidenceLog}
    (hu : exec (updateIndexes (event.link head)) (s.digest head event) = (.ok (), t))
    (rest : List BatchItem) :
    exec (batchLoop c cfg (item :: rest) head) s =
      let next := exec (batchLoop c cfg rest
        (computeChainHash head event.contentHash event.eventId)) t
      (next.1.map fun p => (event.link head :: p.1, p.2), next.2) := by
  rw [batchLoop, exec_bind_ok (exec_createSingleEventBatch h hb head s)]
  simp only
  rw [exec_bind_ok hu, exec_bind]
  rcases exec (batchLoop c cfg rest (computeChainHash head event.contentHash event.eventId)) t
    with ⟨_ | ⟨created, head'⟩, u⟩ <;> rfl

theorem batchLoop_invariant (c : Codecs) (cfg : LogConfig) {I : EvidenceLog → String → Prop}
    (items : List BatchItem)
    (hstep : ∀ s head, ∀ item ∈ items, ∀ event, I s head → buildBatchEvent c cfg item = .ok event →
      I (exec (updateIndexes (event.link head)) (s.digest head event)).2
        (computeChainHash head event.contentHash event.eventId))
    (s : EvidenceLog) (head : String) (h : I s head) :
    ∃ head', I (exec (batchLoop c cfg items head) s).2 head' ∧
      ∀ p, (exec (batchLoop c cfg items head) s).1 = .ok p → p.2 = head' := by
  induction items generalizing s head with
  | nil => exact ⟨head, h, by rintro p ⟨⟩; rfl⟩
  | cons item rest ih =>
    have ih' := ih fun s head it hit => hstep s head it (List.mem_cons_of_mem _ hit)
    by_cases hs : sampledOut cfg item.draw item.eventType = true
    · rw [exec_batchLoop_skip hs]
      exact ih' s head h
    · cases hb : buildBatchEvent c cfg item with
      | error err =>
        rw [exec_batchLoop_fail hs hb]
        exact ⟨head, h, by simp⟩
      | ok event =>
        have hI := hstep s head item List.mem_cons_self event h hb
        rcases hu : exec (updateIndexes (event.link head)) (s.digest head event) with ⟨err | _, t⟩
        · rw [exec_batchLoop_raise hs hb hu]
          rw [hu] at hI
          exact ⟨_, hI, by simp⟩
        · rw [exec_batchLoop_cons hs hb hu]
          rw [hu] at hI
          obtain ⟨head', hI', hh⟩ := ih' _ _ hI
          refine ⟨head', hI', fun p hp => ?_⟩
          cases hr : (exec (batchLoop c cfg rest
              (computeChainHash head event.contentHash event.eventId)) t).1 with
          | error err => simp [hr, Except.map] at hp
          | ok q =>
            simp only [hr, Except.map, Except.ok.injEq] at hp
            rw [← hp]
            exact hh q hr

theorem exec_sendToMpscChannels (env : BatchEnv) (created : List EvidenceEvent)
    (s : EvidenceLog) :
    exec (sendToMpscChannels c cfg env created) s =
      if env.flushing then
        match channelPayloads c cfg created with
        | .ok _ => (.ok (), s.channelsTake cfg env created)
        | .error err => (.error err, s)
      else (.ok (), s) := by
  unfold sendToMpscChannels
  by_cases hf : env.flushing = true
  · rw [if_pos hf, if_pos hf, exec_bind, exec_ofExcept]
    cases channelPayloads c cfg created <;> rfl
  · rw [if_neg hf, if_neg hf]
    rfl

theorem channelsTake_frame (cfg : LogConfig) (env : BatchEnv) (created : List EvidenceEvent) (s : EvidenceLog) :
    ∃ d p, s.channelsTake cfg env created =
      { s with droppedCount := d, history := { s.history with persisted := p } } := by
  unfold EvidenceLog.channelsTake
  split
  · exact ⟨_, _, rfl⟩
  · split
    · exact ⟨_, _, rfl⟩
    · exact ⟨_, _, rfl⟩

/-- The batch stops before its loop: it is empty, silenced, or refused because the log is closed. -/
def StopsEarly (cfg : LogConfig) (env : BatchEnv) (items : List BatchItem) : Prop :=
  (items.isEmpty || cfg.silentFailure) = true ∨ env.closed = true

theorem exec_of_stopsEarly {env : BatchEnv} {items : List BatchItem}
    (h : StopsEarly cfg env items) (s : EvidenceLog) :
    (exec (createEventsBatch c cfg env items) s).2 = s := by
  unfold createEventsBatch
  by_cases hne : (items.isEmpty || cfg.silentFailure) = true
  · rw [if_pos hne]
    rfl
  · rw [if_neg hne, if_pos (h.resolve_left hne)]
    rfl

theorem exec_createEventsBatch {env : BatchEnv} {items : List BatchItem} {s : EvidenceLog}
    (hne : ¬ (items.isEmpty || cfg.silentFailure) = true) (hc : ¬ env.closed = true) :
    exec (createEventsBatch c cfg env items) s =
      match exec (batchLoop c cfg items s.chainHead) s with
      | (.error err, t) => (.error err, t)
      | (.ok (created, head), t) =>
        if created.isEmpty then (.ok created, { t with chainHead := head })
        else
          match exec (sendToMpscChannels c cfg env created) { t with chainHead := head } with
          | (.error err, u) => (.error err, u)
          | (.ok _, u) => (.ok created, u) := by
  unfold createEventsBatch
  rw [if_neg hne, if_neg hc, exec_bind_ok (exec_get s), exec_bind]
  rcases exec (batchLoop c cfg items s.chainHead) s with ⟨err | ⟨created, head⟩, t⟩
  · rfl
  · simp only
    rw [exec_bind_ok (exec_modify _ t)]
    by_cases he : created.isEmpty = true
    · rw [if_pos he, if_pos he]
      rfl
    · rw [if_neg he, if_neg he, exec_bind]
      rcases exec (sendToMpscChannels c cfg env created) { t with chainHead := head } with
        ⟨err | _, u⟩ <;> rfl

theorem createEventsBatch_cases (c : Codecs) (cfg : LogConfig) (env : BatchEnv)
    (items : List BatchItem) (s : EvidenceLog) :
    (StopsEarly cfg env items ∧ (exec (createEventsBatch c cfg env items) s).2 = s) ∨
    (∃ err t, exec (batchLoop c cfg items s.chainHead) s = (.error err, t) ∧
      (exec (createEventsBatch c cfg env items) s).2 = t) ∨
    ∃ created head t d p, exec (batchLoop c cfg items s.chainHead) s = (.ok (created, head), t) ∧
      (exec (createEventsBatch c cfg env items) s).2 =
        { t with
          chainHead := head
          droppedCount := d
          history := { t.history with persisted := p } } := by
  by_cases hearly : StopsEarly cfg env items
  · exact .inl ⟨hearly, exec_of_stopsEarly hearly s⟩
  have hne : ¬ (items.isEmpty || cfg.silentFailure) = true := fun h => hearly (.inl h)
  have hc : ¬ env.closed = true := fun h => hearly (.inr h)
  rw [exec_createEventsBatch hne hc]
  rcases hl : exec (batchLoop c cfg items s.chainHead) s with ⟨err | ⟨created, head⟩, t⟩
  · exact .inr (.inl ⟨err, t, rfl, rfl⟩)
  · refine .inr (.inr ⟨created, head, t, ?_⟩)
    by_cases he : created.isEmpty = true
    · exact ⟨t.droppedCount, t.history.persisted, rfl, by simp only [he, ite_true]⟩
    · simp only [he, exec_sendToMpscChannels]
      by_cases hf : env.flushing = true
      · simp only [hf, ite_true]
        cases channelPayloads c cfg created with
        | error err => exact ⟨_, _, trivial, rfl⟩
        | ok _ =>
          obtain ⟨d, p, hd⟩ := channelsTake_frame cfg env created
            { t with chainHead := head }
          exact ⟨d, p, trivial, hd⟩
      · simp only [hf]
        exact ⟨_, _, trivial, rfl⟩

theorem createEventsBatch_frame {env : BatchEnv} {items : List BatchItem}
    (h : ¬ StopsEarly cfg env items) (s : EvidenceLog) :
    (exec (createEventsBatch c cfg env items) s).2.seq =
        (exec (batchLoop c cfg items s.chainHead) s).2.seq ∧
      (exec (createEventsBatch c cfg env items) s).2.totalCount =
        (exec (batchLoop c cfg items s.chainHead) s).2.totalCount ∧
      (exec (createEventsBatch c cfg env items) s).2.history.stored =
        (exec (batchLoop c cfg items s.chainHead) s).2.history.stored := by
  rcases createEventsBatch_cases c cfg env items s with
    ⟨hearly, _⟩ | ⟨err, t, hl, hx⟩ | ⟨created, head, t, d, p, hl, hx⟩
  · exact absurd hearly h
  · rw [hx, hl]
    exact ⟨rfl, rfl, rfl⟩
  · rw [hx, hl]
    exact ⟨rfl, rfl, rfl⟩

theorem createEventsBatch_invariant {I : EvidenceLog → Prop} {J : EvidenceLog → String → Prop} {env : BatchEnv}
    {items : List BatchItem} {s : EvidenceLog} (h : I s) (hstart : J s s.chainHead)
    (hitem : ∀ t head, ∀ item ∈ items, ∀ event, J t head → buildBatchEvent c cfg item = .ok event →
      J (exec (updateIndexes (event.link head)) (t.digest head event)).2
        (computeChainHash head event.contentHash event.eventId))
    (hraise : ∀ t head, J t head → I t)
    (hdone : ∀ t head d p, J t head → I { t with
      chainHead := head, droppedCount := d, history := { t.history with persisted := p } }) :
    I (exec (createEventsBatch c cfg env items) s).2 := by
  obtain ⟨head', hJ, hres⟩ := batchLoop_invariant c cfg (I := J) items hitem s s.chainHead hstart
  rcases createEventsBatch_cases c cfg env items s with
    ⟨_, hx⟩ | ⟨err, t, hl, hx⟩ | ⟨created, head, t, d, p, hl, hx⟩
  · rw [hx]
    exact h
  · rw [hl] at hJ
    rw [hx]
    exact hraise t head' hJ
  · rw [hl] at hJ hres
    have hhead : head = head' := hres (created, head) rfl
    rw [hx]
    exact hdone t head d p (hhead ▸ hJ)

/-! ### Invariants of all operations -/

theorem step_invariant {I : EvidenceLog → Prop} (op : Op)
    (hchain : ∀ s seq head texts, I s → I { s with
      seq := seq, chainHead := head, history := { s.history with digested := texts } })
    (hchannels : ∀ s d p, I s → I { s with
      droppedCount := d, history := { s.history with persisted := p } })
    (hstore : ∀ s event, I s → I (exec (updateIndexes event) s).2) {s : EvidenceLog} (h : I s) :
    I (step c cfg s op) := by
  have hlinked : ∀ event, I (s.linked event) := fun event => hchain s _ _ _ h
  have hdel : ∀ env event, I ((s.linked event).delivered cfg env (s.linkedEvent event)) := by
    intro env event
    rw [delivered_eq]
    exact hchannels (s.linked event) (s.linked event).droppedCount _ (hlinked event)
  by_cases hb : op.IsBatch
  · cases op with
    | createEventsBatch env items =>
      refine createEventsBatch_invariant (J := fun t _ => I t) h h ?_ (fun _ _ hI => hI) ?_
      · intro t head item _ event hI _
        exact hstore (t.digest head event) (event.link head) (hchain t t.seq t.chainHead _ hI)
      · intro t head d p hI
        exact hchain { t with droppedCount := d, history := { t.history with persisted := p } }
          t.seq head t.history.digested (hchannels t d p hI)
    | _ => exact absurd hb id
  · exact step_append_invariant hb h hlinked hdel fun env event contentHash _ =>
      hstore _ (s.storedEvent c event contentHash) (hchain _ _ _ _ (hdel env event))

theorem log_eq_ofList_run (ops : List Op) :
    (run c cfg ops).log = Deque.ofList (run c cfg ops).history.stored := by
  let I : EvidenceLog → Prop := fun s => s.log = Deque.ofList s.history.stored
  have hstore : ∀ (s : EvidenceLog) (event : EvidenceEvent), I s →
      I (exec (updateIndexes event) s).2 := by
    intro s event hs
    simp only [I, log_updateIndexes, history_updateIndexes]
    exact Deque.append_eq_ofList hs event
  have hstep : ∀ s op, I s → I (step c cfg s op) := fun s op hs =>
    step_invariant op (fun _ _ _ _ h => h) (fun _ _ _ h => h) hstore hs
  exact foldl_invariant hstep ops rfl

theorem mem_stored_of_mem_log {ops : List Op} {event : EvidenceEvent}
    (h : event ∈ (run c cfg ops).log.toList) : event ∈ (run c cfg ops).history.stored := by
  rw [log_eq_ofList_run] at h
  exact (Deque.toList_ofList_suffix _).subset h

end Hledac.Evidence
