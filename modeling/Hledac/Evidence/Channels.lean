import Hledac.Evidence.Batch

/-!
# The persist channel

What a call finds in the two channels, and which events it hands to the persist channel or writes to the
file itself. An appended event that the channel does not take is written; a batch is not handed over at all
where the flush task does not run or one of the channels is nearly full, and its events are linked by then.
-/

namespace Hledac.Evidence

open Hledac.Lib Hledac.Py Raising

/-! ### The channels -/

/-- `_RustMPSCBytes`, as a call finds it: how many payloads wait in it, and how many more it takes;
`_log.py:1454-1850`. -/
structure MpscBytes where
  len : Nat
  room : Nat
  deriving DecidableEq

namespace MpscBytes

/-- `send`; `_log.py:1713-1740`. -/
def send (q : MpscBytes) : Bool := decide (0 < q.room)

/-- `send_batch` of some items: the number it takes, from the front; `_log.py:1742-1768`. -/
def sendBatch (q : MpscBytes) (items : Nat) : Nat := min items q.room

end MpscBytes

/-- What a call finds: the length of the SQLite channel; the persist channel; whether the log is
initialised, with a running flush task, and not closing; and whether `_persist_file` is open. -/
structure Channels where
  mpscLen : Nat := 0
  mpsc2 : MpscBytes := ⟨0, 2048⟩
  flushing : Bool := true
  persistFile : Bool := true
  deriving DecidableEq

/-- What takes an event. -/
inductive Writer where
  | channel
  | fallback
  deriving DecidableEq

namespace Channels

/-- `_check_backpressure` of the two fill levels; `_log.py:3177-3179, 3196-3197`. -/
def checkBackpressure (cfg : LogConfig) (ch : Channels) : Bool :=
  decide ((85 : ℚ) / 100 ≤ ch.mpscLen / 2048) ||
    cfg.enablePersist && decide ((85 : ℚ) / 100 ≤ ch.mpsc2.len / 2048)

/-- `_sync_write_fallback` of some events; `_log.py:2449-2460`. -/
def syncWriteFallback (ch : Channels) (events : List EvidenceEvent) : List (Writer × EvidenceEvent) :=
  if ch.persistFile then events.map fun e => (.fallback, e) else []

/-- The end of `_persist_event`; `_log.py:2925-2928`. -/
def persist (ch : Channels) (event : EvidenceEvent) : List (Writer × EvidenceEvent) :=
  if ch.mpsc2.send then [(.channel, event)] else ch.syncWriteFallback [event]

/-- The end of `_send_to_mpsc_channels`: what the channel does not take of a batch is written;
`_log.py:3213-3221`. -/
def persistBatch (ch : Channels) (created : List EvidenceEvent) : List (Writer × EvidenceEvent) :=
  let sent := ch.mpsc2.sendBatch created.length
  (created.take sent).map (fun e => (.channel, e)) ++ ch.syncWriteFallback (created.drop sent)

/-- What becomes of one line. -/
def delivery (ch : Channels) : Delivery :=
  if ch.mpsc2.send then .accepted else if ch.persistFile then .accepted else .lost

/-- The channel or the file takes so many lines. -/
def Takes (ch : Channels) (lines : Nat) : Prop := lines ≤ ch.mpsc2.room ∨ ch.persistFile = true

end Channels

/-! ### Calls -/

/-- A call on an open log, with the channels it finds. -/
inductive Call where
  | append (env : Env) (event : EvidenceEvent) (ch : Channels)
  | createEventsBatch (items : List BatchItem) (ch : Channels)

/-- What `append` reads on an open log. -/
def Channels.env (ch : Channels) (env : Env) : Env :=
  { env with closed := false, closing := false, delivery := ch.delivery }

/-- What `create_events_batch` reads on an open log. -/
def Channels.batchEnv (cfg : LogConfig) (items : List BatchItem) (ch : Channels) : BatchEnv where
  flushing := ch.flushing
  backpressure := ch.checkBackpressure cfg
  taken := if ch.persistFile then items.length else ch.mpsc2.room

/-- The operation of a call. -/
def Call.op (cfg : LogConfig) : Call → Op
  | .append env event ch => .append (ch.env env) event
  | .createEventsBatch items ch => .createEventsBatch (ch.batchEnv cfg items) items

/-- The log after a call. -/
abbrev callStep (c : Codecs) (cfg : LogConfig) (s : EvidenceLog) (call : Call) : EvidenceLog :=
  step c cfg s (call.op cfg)

/-- The events that a batch has created when its loop ends, none where the loop is not reached or raises. -/
def createdEvents (c : Codecs) (cfg : LogConfig) (s : EvidenceLog) (items : List BatchItem) :
    List EvidenceEvent :=
  if items.isEmpty || cfg.silentFailure then []
  else
    match (exec (batchLoop c cfg items s.chainHead) s).1 with
    | .ok (created, _) => created
    | .error _ => []

/-- The events that a call moves the chain head to, in the order of their creation. -/
def advanced (c : Codecs) (cfg : LogConfig) (s : EvidenceLog) : Call → List EvidenceEvent
  | .append env event ch =>
    match validateEvent cfg (ch.env env) event with
    | .ok _ => [s.linkedEvent event]
    | .error _ => []
  | .createEventsBatch items _ => createdEvents c cfg s items

/-- A batch comes to its channels: it has created events and they can be serialised. -/
def Reaches (c : Codecs) (cfg : LogConfig) (s : EvidenceLog) (items : List BatchItem) (ch : Channels) : Bool :=
  !(createdEvents c cfg s items).isEmpty && ch.flushing &&
    (channelPayloads c cfg (createdEvents c cfg s items)).isOk

/-- The events that a call hands over, with what takes them. -/
def handedOver (c : Codecs) (cfg : LogConfig) (s : EvidenceLog) : Call → List (Writer × EvidenceEvent)
  | .append env event ch =>
    if (validateEvent cfg (ch.env env) event).isOk && (sendToMpsc c env (s.linkedEvent event)).isOk &&
        cfg.enablePersist && ((s.linkedEvent event).toJsonlLine c).isOk then
      ch.persist (s.linkedEvent event)
    else []
  | .createEventsBatch items ch =>
    if Reaches c cfg s items ch && !ch.checkBackpressure cfg && cfg.enablePersist then
      ch.persistBatch (createdEvents c cfg s items)
    else []

/-- The batch is refused for backpressure. -/
def Refused (c : Codecs) (cfg : LogConfig) (s : EvidenceLog) : Call → Prop
  | .append _ _ _ => False
  | .createEventsBatch items ch => Reaches c cfg s items ch = true ∧ ch.checkBackpressure cfg = true

section Spec

variable {c : Codecs} {cfg : LogConfig} {s : EvidenceLog} {items : List BatchItem} {ch : Channels}

theorem snd_syncWriteFallback (ch : Channels) (events : List EvidenceEvent) :
    (ch.syncWriteFallback events).map Prod.snd = if ch.persistFile then events else [] := by
  rw [Channels.syncWriteFallback]
  split
  · rw [List.map_map]
    exact List.map_id events
  · rfl

theorem snd_persist (ch : Channels) (event : EvidenceEvent) :
    (ch.persist event).map Prod.snd = if ch.delivery = .accepted then [event] else [] := by
  rw [Channels.persist, Channels.delivery]
  by_cases hsend : ch.mpsc2.send = true
  · rw [if_pos hsend, if_pos hsend]
    rfl
  · rw [if_neg hsend, if_neg hsend, snd_syncWriteFallback]
    by_cases hfile : ch.persistFile = true
    · rw [if_pos hfile, if_pos hfile]
      rfl
    · rw [if_neg hfile, if_neg hfile]
      rfl

theorem delivery_eq_accepted_iff : ch.delivery = .accepted ↔ ch.Takes 1 := by
  rw [Channels.delivery, Channels.Takes, MpscBytes.send]
  by_cases hroom : 0 < ch.mpsc2.room
  · simp [hroom, Nat.succ_le_iff.2 hroom]
  · simp [hroom]
    omega

theorem delivery_ne_failed (reason : String) : ch.delivery ≠ .failed reason := by
  rw [Channels.delivery]
  split
  · exact fun h => by cases h
  · split
    · exact fun h => by cases h
    · exact fun h => by cases h

theorem snd_persistBatch (ch : Channels) (created : List EvidenceEvent) :
    (ch.persistBatch created).map Prod.snd =
      created.take (if ch.persistFile then created.length else ch.mpsc2.room) := by
  have hid : ∀ l : List EvidenceEvent, (l.map fun e => (Writer.channel, e)).map Prod.snd = l := by
    intro l
    rw [List.map_map]
    exact List.map_id l
  rw [Channels.persistBatch, List.map_append, snd_syncWriteFallback, hid, MpscBytes.sendBatch]
  by_cases hfile : ch.persistFile = true
  · rw [if_pos hfile, if_pos hfile, List.take_append_drop, List.take_length]
  · rw [if_neg hfile, if_neg hfile, List.append_nil]
    by_cases hroom : ch.mpsc2.room ≤ created.length
    · rw [Nat.min_eq_right hroom]
    · rw [Nat.min_eq_left (by omega), List.take_length, List.take_of_length_le (by omega)]

theorem snd_persistBatch_eq_iff (ch : Channels) (created : List EvidenceEvent) :
    (ch.persistBatch created).map Prod.snd = created ↔ ch.Takes created.length := by
  rw [snd_persistBatch, List.take_eq_self_iff, Channels.Takes]
  by_cases hfile : ch.persistFile = true
  · simp [hfile]
  · simp [hfile]

/-! ### What a batch creates -/

theorem createdEvents_of_storesAll (hk : KeysFixed s) (hsilent : ¬ cfg.silentFailure = true)
    (h : StoresAll c cfg s.log.length (keptItems cfg items)) :
    createdEvents c cfg s items = linkAll c cfg s.chainHead (keptItems cfg items) := by
  cases items with
  | nil => rfl
  | cons item rest =>
    obtain ⟨head, t, hx, -⟩ := batchLoop_of_storesAll (not_sampledOut_of_mem_keptItems _) h hk
      (length_eq_min s) s.chainHead
    rw [createdEvents, if_neg (by simp [hsilent]), exec_batchLoop_keptItems, hx]

theorem createdEvents_of_not_storesAll (hk : KeysFixed s)
    (h : cfg.silentFailure = true ∨ ¬ StoresAll c cfg s.log.length (keptItems cfg items)) :
    createdEvents c cfg s items = [] := by
  rw [createdEvents]
  split
  · rfl
  · next hsilent =>
    have hnot := h.resolve_left fun hs => hsilent (by simp [hs])
    obtain ⟨first, rest, err, t, -, hx, -⟩ := batchLoop_of_not_storesAll
      (not_sampledOut_of_mem_keptItems _) hnot hk (length_eq_min s) s.chainHead
    rw [exec_batchLoop_keptItems, hx]

theorem length_createdEvents_le (hk : KeysFixed s) (items : List BatchItem) :
    (createdEvents c cfg s items).length ≤ items.length := by
  by_cases h : ¬ cfg.silentFailure = true ∧ StoresAll c cfg s.log.length (keptItems cfg items)
  · rw [createdEvents_of_storesAll hk h.1 h.2, length_linkAll h.2]
    exact List.length_filter_le _ _
  · rw [createdEvents_of_not_storesAll hk (by tauto)]
    exact Nat.zero_le _

theorem persisted_batchLoop (c : Codecs) (cfg : LogConfig) (items : List BatchItem) (head : String)
    (s : EvidenceLog) :
    (exec (batchLoop c cfg items head) s).2.history.persisted = s.history.persisted := by
  have hstep : ∀ (t : EvidenceLog) (head' : String), ∀ item ∈ items, ∀ event,
      t.history.persisted = s.history.persisted → buildBatchEvent c cfg item = .ok event →
        (exec (updateIndexes (event.link head')) (t.digest head' event)).2.history.persisted =
          s.history.persisted := by
    intro t head' item _ event ht _
    rw [history_updateIndexes]
    exact ht
  obtain ⟨_, h, -⟩ := batchLoop_invariant c cfg
    (I := fun t _ => t.history.persisted = s.history.persisted) items hstep s head rfl
  exact h

theorem createdEvents_of_loop {created : List EvidenceEvent} {head : String} {t : EvidenceLog}
    (hne : ¬ (items.isEmpty || cfg.silentFailure) = true)
    (h : exec (batchLoop c cfg items s.chainHead) s = (.ok (created, head), t)) :
    createdEvents c cfg s items = created := by
  rw [createdEvents, if_neg hne, h]

theorem persisted_sendToMpscChannels (env : BatchEnv) (created : List EvidenceEvent) (s : EvidenceLog) :
    (exec (sendToMpscChannels c cfg env created) s).2.history.persisted = s.history.persisted ++
      if env.flushing = true ∧ (channelPayloads c cfg created).isOk = true ∧
          ¬ env.backpressure = true ∧ cfg.enablePersist = true then created.take env.taken
      else [] := by
  rw [exec_sendToMpscChannels]
  by_cases hflush : env.flushing = true
  · rw [if_pos hflush]
    cases hp : channelPayloads c cfg created with
    | error err =>
      rw [if_neg (fun h => Bool.false_ne_true h.2.1), List.append_nil]
    | ok u =>
      show (s.channelsTake cfg env created).history.persisted = _
      rw [EvidenceLog.channelsTake]
      by_cases hback : env.backpressure = true
      · rw [if_pos hback, if_neg (fun h => h.2.2.1 hback), List.append_nil]
      rw [if_neg hback]
      by_cases hpersist : cfg.enablePersist = true
      · rw [if_pos hpersist, if_pos ⟨hflush, rfl, hback, hpersist⟩]
      · rw [if_neg hpersist, if_neg (fun h => hpersist h.2.2.2), List.append_nil]
  · rw [if_neg hflush, if_neg (fun h => hflush h.1), List.append_nil]

theorem state_createEventsBatch {env : BatchEnv} (hne : ¬ (items.isEmpty || cfg.silentFailure) = true)
    (henv : ¬ env.closed = true) (s : EvidenceLog) :
    (createdEvents c cfg s items = [] ∧
      ((exec (createEventsBatch c cfg env items) s).2 = (exec (batchLoop c cfg items s.chainHead) s).2 ∨
        ∃ head, (exec (batchLoop c cfg items s.chainHead) s).1 = .ok ([], head) ∧
          (exec (createEventsBatch c cfg env items) s).2 =
            { (exec (batchLoop c cfg items s.chainHead) s).2 with chainHead := head })) ∨
    createdEvents c cfg s items ≠ [] ∧
      ∃ head, (exec (createEventsBatch c cfg env items) s).2 =
        (exec (sendToMpscChannels c cfg env (createdEvents c cfg s items))
          { (exec (batchLoop c cfg items s.chainHead) s).2 with chainHead := head }).2 := by
  rw [exec_createEventsBatch hne henv]
  cases hx : exec (batchLoop c cfg items s.chainHead) s with
  | mk r t =>
    cases r with
    | error err =>
      refine Or.inl ⟨?_, Or.inl rfl⟩
      rw [createdEvents, if_neg hne, hx]
    | ok p =>
      obtain ⟨created, head⟩ := p
      rw [createdEvents_of_loop hne hx]
      by_cases hempty : created.isEmpty = true
      · cases List.isEmpty_iff.1 hempty
        exact Or.inl ⟨rfl, Or.inr ⟨head, rfl, rfl⟩⟩
      · refine Or.inr ⟨fun hnil => hempty (List.isEmpty_iff.2 hnil), head, ?_⟩
        simp only [hempty]
        cases exec (sendToMpscChannels c cfg env created) { t with chainHead := head } with
        | mk r u =>
          cases r with
          | error err => rfl
          | ok v => rfl

theorem persisted_createEventsBatch (env : BatchEnv) (henv : ¬ env.closed = true) (items : List BatchItem)
    (s : EvidenceLog) :
    (exec (createEventsBatch c cfg env items) s).2.history.persisted = s.history.persisted ++
      if env.flushing = true ∧ (channelPayloads c cfg (createdEvents c cfg s items)).isOk = true ∧
          ¬ env.backpressure = true ∧ cfg.enablePersist = true then
        (createdEvents c cfg s items).take env.taken
      else [] := by
  by_cases hne : (items.isEmpty || cfg.silentFailure) = true
  · rw [exec_of_stopsEarly (Or.inl hne), createdEvents, if_pos hne, List.take_nil, ite_self,
      List.append_nil]
  have hloop := persisted_batchLoop c cfg items s.chainHead s
  cases state_createEventsBatch hne henv s with
  | inl hnone =>
    rw [hnone.1, List.take_nil, ite_self, List.append_nil, ← hloop]
    cases hnone.2 with
    | inl hx => rw [hx]
    | inr hx =>
      obtain ⟨head, -, hx⟩ := hx
      rw [hx]
  | inr hsome =>
    obtain ⟨-, head, hx⟩ := hsome
    rw [hx, persisted_sendToMpscChannels, ← hloop]

theorem chainHead_batchLoop (c : Codecs) (cfg : LogConfig) (items : List BatchItem) (head : String)
    (s : EvidenceLog) : (exec (batchLoop c cfg items head) s).2.chainHead = s.chainHead := by
  have hstep : ∀ (t : EvidenceLog) (head' : String), ∀ item ∈ items, ∀ event,
      t.chainHead = s.chainHead → buildBatchEvent c cfg item = .ok event →
        (exec (updateIndexes (event.link head')) (t.digest head' event)).2.chainHead = s.chainHead := by
    intro t head' item _ event ht _
    rw [chainHead_updateIndexes]
    exact ht
  obtain ⟨_, h, -⟩ := batchLoop_invariant c cfg (I := fun t _ => t.chainHead = s.chainHead) items hstep s head rfl
  exact h

theorem head_eq_of_created_nil {head head' : String} (h : (exec (batchLoop c cfg items head) s).1 = .ok ([], head')) :
    head' = head := by
  induction items with
  | nil =>
    cases h
    rfl
  | cons item rest ih =>
    by_cases hsampled : sampledOut cfg item.draw item.eventType = true
    · rw [exec_batchLoop_skip hsampled] at h
      exact ih h
    · cases hb : buildBatchEvent c cfg item with
      | error err =>
        rw [exec_batchLoop_fail hsampled hb] at h
        cases h
      | ok event =>
        cases hu : exec (updateIndexes (event.link head)) (s.digest head event) with
        | mk r t =>
          cases r with
          | error err =>
            rw [exec_batchLoop_raise hsampled hb hu] at h
            cases h
          | ok u =>
            rw [exec_batchLoop_cons hsampled hb hu] at h
            cases hr : (exec (batchLoop c cfg rest
                (computeChainHash head event.contentHash event.eventId)) t).1 with
            | error err =>
              simp only [hr, Except.map] at h
              cases h
            | ok p =>
              simp only [hr, Except.map] at h
              cases h

/-! ### What a call hands over -/

/-- The condition under which an append hands its event over. -/
def AppendHands (c : Codecs) (cfg : LogConfig) (event : EvidenceEvent) (env : Env) : Prop :=
  sendToMpsc c env event = .ok () ∧ cfg.enablePersist = true ∧ (event.toJsonlLine c).isOk = true

theorem handed_iff (ch : Channels) (env : Env) (event : EvidenceEvent) :
    Handed c cfg (ch.env env) event ↔ sendToMpsc c env event = .ok () ∧
      (cfg.enablePersist = true → (event.toJsonlLine c).isOk = true) := by
  constructor
  · intro h
    exact ⟨h.1, fun hpersist => isOk_iff.2 (h.2 hpersist).1⟩
  · intro h
    exact ⟨h.1, fun hpersist => ⟨isOk_iff.1 (h.2 hpersist), delivery_ne_failed⟩⟩

theorem handedOver_append_of_hands {env : Env} {event : EvidenceEvent}
    (hv : Accepted cfg (ch.env env) event) (h : AppendHands c cfg (s.linkedEvent event) env) :
    handedOver c cfg s (.append env event ch) = ch.persist (s.linkedEvent event) := by
  rw [handedOver, if_pos]
  rw [hv, h.1, h.2.1, h.2.2]
  rfl

theorem handedOver_append_of_not {env : Env} {event : EvidenceEvent}
    (h : ¬ (Accepted cfg (ch.env env) event ∧ AppendHands c cfg (s.linkedEvent event) env)) :
    handedOver c cfg s (.append env event ch) = [] := by
  rw [handedOver, if_neg]
  intro hand
  simp only [Bool.and_eq_true] at hand
  obtain ⟨u, hu⟩ := isOk_iff.1 hand.1.1.1
  obtain ⟨v, hv⟩ := isOk_iff.1 hand.1.1.2
  exact h ⟨hu, hv, hand.1.2, hand.2⟩

theorem persisted_append (env : Env) (event : EvidenceEvent) :
    (callStep c cfg s (.append env event ch)).history.persisted = s.history.persisted ++
      (handedOver c cfg s (.append env event ch)).map Prod.snd := by
  have hdelivered : Handed c cfg (ch.env env) (s.linkedEvent event) → Accepted cfg (ch.env env) event →
      ((s.linked event).delivered cfg (ch.env env) (s.linkedEvent event)).history.persisted =
        s.history.persisted ++ (handedOver c cfg s (.append env event ch)).map Prod.snd := by
    intro hh hv
    by_cases hn : AppendHands c cfg (s.linkedEvent event) env
    · rw [handedOver_append_of_hands hv hn, snd_persist, delivered_eq]
      show _ ++ (if cfg.enablePersist = true ∧ ch.delivery = .accepted then _ else _) = _
      simp only [hn.2.1, true_and]
      rfl
    · have hoff : ¬ cfg.enablePersist = true := by
        intro hpersist
        obtain ⟨hsend, hline⟩ := (handed_iff ch env _).1 hh
        exact hn ⟨hsend, hpersist, hline hpersist⟩
      rw [handedOver_append_of_not (fun hand => hn hand.2), delivered_eq, if_neg (fun h => hoff h.1)]
      rfl
  show (exec (append c cfg (ch.env env) event) s).2.history.persisted = _
  rcases append_cases c cfg (ch.env env) event s with
    ⟨hv, err, hx⟩ | ⟨_, hh, err, hx⟩ | ⟨hv, hh, err, -, hx⟩ | ⟨hv, hh, contentHash, -, hx, -⟩
  · rw [hx, handedOver_append_of_not (fun hand => hv hand.1), List.map_nil, List.append_nil]
  · have hn : ¬ AppendHands c cfg (s.linkedEvent event) env := fun h =>
      hh ((handed_iff ch env _).2 ⟨h.1, fun _ => h.2.2⟩)
    rw [hx, handedOver_append_of_not (fun hand => hn hand.2), List.map_nil, List.append_nil]
    rfl
  · rw [hx]
    exact hdelivered hh hv
  · rw [hx, history_updateIndexes, history_relinked]
    exact hdelivered hh hv

/-- The batch hands its events over. -/
def BatchHands (c : Codecs) (cfg : LogConfig) (s : EvidenceLog) (items : List BatchItem) (ch : Channels) : Prop :=
  Reaches c cfg s items ch = true ∧ ¬ ch.checkBackpressure cfg = true ∧ cfg.enablePersist = true

theorem handedOver_batch_of_hands (h : BatchHands c cfg s items ch) :
    handedOver c cfg s (.createEventsBatch items ch) = ch.persistBatch (createdEvents c cfg s items) := by
  rw [handedOver, if_pos]
  simp [h.1, h.2.1, h.2.2]

theorem handedOver_batch_of_not (h : ¬ BatchHands c cfg s items ch) :
    handedOver c cfg s (.createEventsBatch items ch) = [] := by
  rw [handedOver, if_neg]
  intro hand
  simp only [Bool.and_eq_true, Bool.not_eq_true'] at hand
  exact h ⟨hand.1.1, by simp [hand.1.2], hand.2⟩

theorem reaches_iff : Reaches c cfg s items ch = true ↔ createdEvents c cfg s items ≠ [] ∧
    ch.flushing = true ∧ (channelPayloads c cfg (createdEvents c cfg s items)).isOk = true := by
  rw [Reaches, Bool.and_eq_true, Bool.and_eq_true, Bool.not_eq_true', List.isEmpty_eq_false_iff, and_assoc]

theorem persisted_batch (hk : KeysFixed s) (items : List BatchItem) :
    (callStep c cfg s (.createEventsBatch items ch)).history.persisted = s.history.persisted ++
      (handedOver c cfg s (.createEventsBatch items ch)).map Prod.snd := by
  have hle : (createdEvents c cfg s items).length ≤ items.length := length_createdEvents_le hk items
  refine (persisted_createEventsBatch (ch.batchEnv cfg items) Bool.false_ne_true items s).trans
    (congrArg (s.history.persisted ++ ·) ?_)
  by_cases h : BatchHands c cfg s items ch
  · obtain ⟨hne, hflush, hok⟩ := reaches_iff.1 h.1
    rw [if_pos ⟨hflush, hok, h.2⟩, handedOver_batch_of_hands h, snd_persistBatch]
    show List.take (if ch.persistFile = true then items.length else ch.mpsc2.room) _ = _
    by_cases hfile : ch.persistFile = true
    · rw [if_pos hfile, if_pos hfile, List.take_length, List.take_of_length_le hle]
    · rw [if_neg hfile, if_neg hfile]
  · rw [handedOver_batch_of_not h, List.map_nil]
    by_cases hnil : createdEvents c cfg s items = []
    · rw [hnil, List.take_nil, ite_self]
    · rw [if_neg]
      intro hand
      exact h ⟨reaches_iff.2 ⟨hnil, hand.1, hand.2.1⟩, hand.2.2⟩

theorem persisted_callStep (hk : KeysFixed s) (call : Call) :
    (callStep c cfg s call).history.persisted =
      s.history.persisted ++ (handedOver c cfg s call).map Prod.snd := by
  cases call with
  | append env event ch => exact persisted_append env event
  | createEventsBatch items ch => exact persisted_batch hk items

theorem chainHead_callStep (call : Call) (h : advanced c cfg s call = []) :
    (callStep c cfg s call).chainHead = s.chainHead := by
  cases call with
  | append env event ch =>
    have hv : ¬ Accepted cfg (ch.env env) event := by
      intro hv
      rw [advanced, hv] at h
      cases h
    show (exec (append c cfg (ch.env env) event) s).2.chainHead = _
    rcases append_cases c cfg (ch.env env) event s with
      ⟨-, err, hx⟩ | ⟨hv', -⟩ | ⟨hv', -⟩ | ⟨hv', -⟩
    · rw [hx]
    · exact absurd hv' hv
    · exact absurd hv' hv
    · exact absurd hv' hv
  | createEventsBatch items ch =>
    by_cases hne : (items.isEmpty || cfg.silentFailure) = true
    · exact congrArg EvidenceLog.chainHead (exec_of_stopsEarly (Or.inl hne) s)
    have hloop := chainHead_batchLoop c cfg items s.chainHead s
    have hcreated : createdEvents c cfg s items = [] := h
    have hopen : ¬ (ch.batchEnv cfg items).closed = true := Bool.false_ne_true
    cases state_createEventsBatch (c := c) hne hopen s with
    | inl hnone =>
      cases hnone.2 with
      | inl hx => exact (congrArg EvidenceLog.chainHead hx).trans hloop
      | inr hx =>
        obtain ⟨head, hnil, hx⟩ := hx
        exact (congrArg EvidenceLog.chainHead hx).trans (head_eq_of_created_nil hnil)
    | inr hsome => exact absurd hcreated hsome.1

end Spec

end Hledac.Evidence
