import Hledac.Evidence.ChainState

/-!
# The chain of persisted events

The events that `append` hands to the persist channel, seen as visits to the hash chain: the event
is handed over at its first link, and the trimmed event is then linked a second time. So what is
persisted is one chain only in runs that stop, each time, between the two links.
-/

namespace Hledac.Evidence

open Hledac.Lib Hledac.Lib.HashChain Hledac.Py Raising

variable {c : Codecs} {cfg : LogConfig}

/-- The event, if the call gets to link one: `append` is reached and does not refuse it. -/
def TakesLink (c : Codecs) (cfg : LogConfig) (p : EvidenceLog × Op) : Prop :=
  ∃ env event, p.2.appends c cfg = some (env, event) ∧ Accepted cfg env event

/-- The call gets an event into the persist channel. -/
def Persists (c : Codecs) (cfg : LogConfig) (p : EvidenceLog × Op) : Prop :=
  ∃ env event, p.2.appends c cfg = some (env, event) ∧ Accepted cfg env event ∧
    Handed c cfg env (p.1.linkedEvent event) ∧ cfg.enablePersist = true ∧
    env.delivery = .accepted

/-- The call gets an event into the persist channel and then raises, because the trimmed event
cannot be hashed. -/
def StopsAfterPersist (c : Codecs) (cfg : LogConfig) (p : EvidenceLog × Op) : Prop :=
  Persists c cfg p ∧
    ∃ env event err, p.2.appends c cfg = some (env, event) ∧ rehash c event = .error err

/-- Previous hash and hash, as persisted. -/
def persistedLinks (s : EvidenceLog) : List (Option String × Option String) :=
  s.history.persisted.map fun e => (e.prevChainHash, e.chainHash)

/-- The persisted events form one chain from the genesis hash on. -/
def PersistedLinked (cfg : LogConfig) (s : EvidenceLog) : Prop :=
  Linked (some (genesisHash cfg.runId)) (persistedLinks s)

/-- A call as a visit to the chain. -/
inductive Visits (c : Codecs) (cfg : LogConfig) (p : EvidenceLog × Op) : Move String → Prop
  | idle (h : ¬ TakesLink c cfg p) : Visits c cfg p .idle
  | hidden (x : String) (more : List String) (h : TakesLink c cfg p) (hp : ¬ Persists c cfg p) :
    Visits c cfg p (.hidden x more)
  | published (x : String) (more : List String) (hp : Persists c cfg p)
    (hm : more = [] ↔ StopsAfterPersist c cfg p) : Visits c cfg p (.published x more)

theorem Persists.takesLink {p : EvidenceLog × Op} (h : Persists c cfg p) : TakesLink c cfg p := by
  obtain ⟨env, event, ha, hv, _⟩ := h
  exact ⟨env, event, ha, hv⟩

theorem Visits.advances_iff {p : EvidenceLog × Op} {m : Move String} (h : Visits c cfg p m) :
    m.Advances ↔ TakesLink c cfg p := by
  cases h with
  | idle h => simp [Move.Advances, h]
  | hidden x more h hp => simp [Move.Advances, h]
  | published x more hp hm => simp [Move.Advances, hp.takesLink]

theorem Visits.publishes_iff {p : EvidenceLog × Op} {m : Move String} (h : Visits c cfg p m) :
    m.Publishes ↔ Persists c cfg p := by
  cases h with
  | idle h => simpa [Move.Publishes] using fun hp => h (Persists.takesLink hp)
  | hidden x more h hp => simp [Move.Publishes, hp]
  | published x more hp hm => simp [Move.Publishes, hp]

theorem Visits.keeps_iff {p : EvidenceLog × Op} {m : Move String} (h : Visits c cfg p m) :
    m.Keeps ↔ StopsAfterPersist c cfg p := by
  cases h with
  | idle h =>
    simp only [Move.Keeps, false_iff]
    exact fun hs => h hs.1.takesLink
  | hidden x more h hp =>
    simp only [Move.Keeps, false_iff]
    exact fun hs => hp hs.1
  | published x more hp hm =>
    rw [← hm]
    cases more <;> simp [Move.Keeps]

/-- What a visit does to the log's chain and to what is persisted. -/
structure Realises (s : EvidenceLog) (m : Move String) (t : EvidenceLog) : Prop where
  digested : t.history.digested = s.history.digested ++ m.inputs
  chainHead : t.chainHead = last sha256Text s.chainHead m.inputs
  persisted : persistedLinks t =
    persistedLinks s ++ (links sha256Text s.chainHead [m]).map (Prod.map some some)

private theorem not_persists_of_not_handed {env : Env} {event : EvidenceEvent} {op : Op}
    {s : EvidenceLog} (ha : op.appends c cfg = some (env, event))
    (h : ¬ (Handed c cfg env (s.linkedEvent event) ∧ cfg.enablePersist = true ∧
      env.delivery = .accepted)) : ¬ Persists c cfg (s, op) := by
  rintro ⟨env', event', ha', _, hh, hd⟩
  cases ha.symm.trans ha'
  exact h ⟨hh, hd⟩

private theorem persistedLinks_delivered (cfg : LogConfig) (env : Env) (s t : EvidenceLog) (event : EvidenceEvent)
    (ht : t.history.persisted = ((s.linked event).delivered cfg env
      (s.linkedEvent event)).history.persisted) :
    persistedLinks t = persistedLinks s ++
      if cfg.enablePersist ∧ env.delivery = .accepted then
        [(some s.chainHead,
          some (computeChainHash s.chainHead event.contentHash event.eventId))]
      else [] := by
  rw [persistedLinks, ht, delivered_eq]
  simp only [List.map_append]
  congr 1
  split <;> rfl

theorem exists_visit (c : Codecs) (cfg : LogConfig) (op : Op) (hb : ¬ op.IsBatch)
    (s : EvidenceLog) :
    ∃ m, Visits c cfg (s, op) m ∧ Realises s m (step c cfg s op) := by
  rcases step_append_cases c cfg op hb s with
    ⟨hn, hs⟩ | ⟨env, event, ha, hv, ⟨hh, hs⟩ | ⟨hh, ⟨err, hr⟩, hs⟩ | ⟨hh, contentHash, hr, hs⟩⟩
  · refine ⟨.idle, .idle ?_, ?_⟩
    · rintro ⟨env, event, ha, hv⟩
      exact hn env event ha hv
    · rw [hs]
      exact ⟨by simp [Move.inputs], rfl, by simp [links]⟩
  · have hp : ¬ Persists c cfg (s, op) := not_persists_of_not_handed ha fun h => hh h.1
    refine ⟨.hidden (chainInput s.chainHead event.contentHash event.eventId) [],
      .hidden _ _ ⟨env, event, ha, hv⟩ hp, ?_⟩
    rw [hs]
    exact ⟨rfl, rfl, by simp [links, persistedLinks]⟩
  · have hl := persistedLinks_delivered cfg env s (step c cfg s op) event (by rw [hs])
    have hdig : (step c cfg s op).history.digested = s.history.digested ++
        [chainInput s.chainHead event.contentHash event.eventId] := by
      rw [hs, delivered_eq]
      rfl
    have hhead : (step c cfg s op).chainHead =
        computeChainHash s.chainHead event.contentHash event.eventId := by
      rw [hs, chainHead_delivered]
      rfl
    by_cases hd : cfg.enablePersist = true ∧ env.delivery = .accepted
    · have hp : Persists c cfg (s, op) := ⟨env, event, ha, hv, hh, hd⟩
      refine ⟨.published (chainInput s.chainHead event.contentHash event.eventId) [],
        .published _ _ hp (by simpa using ⟨hp, env, event, err, ha, hr⟩), hdig, hhead, ?_⟩
      rw [hl, if_pos hd]
      rfl
    · have hp : ¬ Persists c cfg (s, op) := not_persists_of_not_handed ha fun h => hd h.2
      refine ⟨.hidden (chainInput s.chainHead event.contentHash event.eventId) [],
        .hidden _ _ ⟨env, event, ha, hv⟩ hp, hdig, hhead, ?_⟩
      rw [hl, if_neg hd]
      rfl
  · have hl := persistedLinks_delivered cfg env s (step c cfg s op) event
      (by rw [hs]; simp)
    have hdig : (step c cfg s op).history.digested = s.history.digested ++
        [chainInput s.chainHead event.contentHash event.eventId,
          chainInput (s.linked event).chainHead contentHash event.eventId] := by
      rw [hs]
      simp
    have hhead : (step c cfg s op).chainHead =
        computeChainHash (s.linked event).chainHead contentHash event.eventId := by
      rw [hs]
      simp
    by_cases hd : cfg.enablePersist = true ∧ env.delivery = .accepted
    · have hp : Persists c cfg (s, op) := ⟨env, event, ha, hv, hh, hd⟩
      refine ⟨.published (chainInput s.chainHead event.contentHash event.eventId)
        [chainInput (s.linked event).chainHead contentHash event.eventId],
        .published _ _ hp ?_, hdig, hhead, ?_⟩
      · simp only [List.cons_ne_nil, false_iff]
        rintro ⟨_, env', event', err, ha', hr'⟩
        cases ha.symm.trans ha'
        cases hr.symm.trans hr'
      · rw [hl, if_pos hd]
        rfl
    · have hp : ¬ Persists c cfg (s, op) := not_persists_of_not_handed ha fun h => hd h.2
      refine ⟨.hidden (chainInput s.chainHead event.contentHash event.eventId)
        [chainInput (s.linked event).chainHead contentHash event.eventId],
        .hidden _ _ ⟨env, event, ha, hv⟩ hp, hdig, hhead, ?_⟩
      rw [hl, if_neg hd]
      rfl

theorem realises_run {visit : EvidenceLog × Op → Move String}
    (hv : ∀ p : EvidenceLog × Op, ¬ p.2.IsBatch → Realises p.1 (visit p) (step c cfg p.1 p.2))
    (ops : List Op) (hb : ∀ op ∈ ops, ¬ op.IsBatch) (s : EvidenceLog) :
    (ops.foldl (step c cfg) s).history.digested =
        s.history.digested ++ inputs ((trace (step c cfg) s ops).map visit) ∧
      persistedLinks (ops.foldl (step c cfg) s) = persistedLinks s ++
        (links sha256Text s.chainHead ((trace (step c cfg) s ops).map visit)).map
          (Prod.map some some) := by
  induction ops generalizing s with
  | nil => simp [trace, inputs, links]
  | cons op rest ih =>
    have h := hv (s, op) (hb op List.mem_cons_self)
    obtain ⟨hd, hp⟩ := ih (fun o ho => hb o (List.mem_cons_of_mem _ ho)) (step c cfg s op)
    simp only [List.foldl_cons, trace, List.map_cons]
    constructor
    · rw [hd, h.digested]
      simp [inputs]
    · rw [hp, h.persisted, links_cons s.chainHead (visit (s, op)) (List.map visit _),
        List.map_append, ← h.chainHead, List.append_assoc]

private theorem chained_run_append (ops : List Op) (hb : ∀ op ∈ ops, ¬ op.IsBatch) :
    Chained cfg (run c cfg ops) := by
  induction ops using List.reverseRecOn with
  | nil => exact chained_fresh
  | append_singleton ops op ih =>
    rw [run, List.foldl_append]
    exact chained_step_append (ih fun o ho => hb o (List.mem_append_left _ ho)) op
      (hb op (by simp))

/-- In a run of appending calls, the persisted events form one chain exactly when every call that
links an event, and is followed by one that persists an event, stops right after persisting. -/
theorem persistedLinked_iff (c : Codecs) (cfg : LogConfig) (ops : List Op)
    (hb : ∀ op ∈ ops, ¬ op.IsBatch) (hf : CollisionFree cfg (run c cfg ops)) :
    PersistedLinked cfg (run c cfg ops) ↔
      (trace (step c cfg) (EvidenceLog.fresh cfg) ops).Pairwise fun p q =>
        TakesLink c cfg p → Persists c cfg q → StopsAfterPersist c cfg p := by
  have hex : ∀ p : EvidenceLog × Op, ∃ m, ¬ p.2.IsBatch →
      Visits c cfg p m ∧ Realises p.1 m (step c cfg p.1 p.2) := by
    intro p
    by_cases h : p.2.IsBatch
    · exact ⟨.idle, fun hn => absurd h hn⟩
    · obtain ⟨m, hm⟩ := exists_visit c cfg p.2 h p.1
      exact ⟨m, fun _ => hm⟩
  choose visit hvisit using hex
  have hrun := realises_run (fun p h => (hvisit p h).2) ops hb
    (EvidenceLog.fresh cfg)
  have hch : Chained cfg (run c cfg ops) := chained_run_append ops hb
  have hnd := hch.nodup_heads hf
  rw [run, hrun.1] at hnd
  have hlinks : persistedLinks (run c cfg ops) = _ := hrun.2
  rw [PersistedLinked, hlinks]
  rw [show persistedLinks (EvidenceLog.fresh cfg) = [] from rfl, List.nil_append,
    linked_map (Option.some_injective _)]
  rw [show (EvidenceLog.fresh cfg).chainHead = genesisHash cfg.runId from rfl]
  rw [linked_links_iff hnd, List.pairwise_map]
  have hmem : ∀ p ∈ trace (step c cfg) (EvidenceLog.fresh cfg) ops, ¬ p.2.IsBatch := fun p hp =>
    hb p.2 (snd_mem_of_mem_trace hp)
  refine List.Pairwise.iff_of_mem fun {p q} hp hq => ?_
  rw [(hvisit p (hmem p hp)).1.advances_iff, (hvisit q (hmem q hq)).1.publishes_iff,
    (hvisit p (hmem p hp)).1.keeps_iff]

/-- One event, with persistence on. -/
theorem persistedLinked_iff_one :
    let cfg : LogConfig := { runId := "r" }
    let ops : List Op := [.createEvent { now := 1700000000, hex := "0123456789ab" }
      { eventType := "tool_call", payload := [] }]
    (∀ op ∈ ops, ¬ op.IsBatch) ∧ CollisionFree cfg (run plainCodecs cfg ops) ∧
      (PersistedLinked cfg (run plainCodecs cfg ops) ↔
        (trace (step plainCodecs cfg) (EvidenceLog.fresh cfg) ops).Pairwise fun p q =>
          TakesLink plainCodecs cfg p → Persists plainCodecs cfg q →
            StopsAfterPersist plainCodecs cfg p) := by
  intro cfg ops
  have hb : ∀ op ∈ ops, ¬ op.IsBatch := by simp [ops, Op.IsBatch]
  have hf : CollisionFree cfg (run plainCodecs cfg ops) := by decide +kernel
  exact ⟨hb, hf, persistedLinked_iff plainCodecs cfg ops hb hf⟩

/-- Two events, without a collision: the second is persisted with the second link of the first as
its previous hash, and the first was persisted with its first link. -/
theorem not_persistedLinked_two :
    let ops : List Op :=
      [.createEvent { now := 1700000000, hex := "0123456789ab" }
          { eventType := "tool_call", payload := [] },
        .createEvent { now := 1700000001, hex := "ba9876543210" }
          { eventType := "tool_call", payload := [] }]
    CollisionFree { runId := "r" } (run plainCodecs { runId := "r" } ops) ∧
      ¬ PersistedLinked { runId := "r" } (run plainCodecs { runId := "r" } ops) := by
  unfold PersistedLinked
  decide +kernel

end Hledac.Evidence
