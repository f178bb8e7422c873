import Hledac.Evidence.Verify

/-!
# Verifying the logs that runs build

Every event a run stores passes the integrity check. An event that came through `append` is
linked to a text hashed in the same call, never to genesis, so the chain check, which starts at
genesis, fails for every log that retains one.
-/

namespace Hledac.Evidence

open Hledac.Lib Hledac.Py Raising

variable {c : Codecs} {cfg : LogConfig}

/-- A stored event: its content hash is right, and with a number it is linked to one of the
hashed texts. -/
def EventSound (c : Codecs) (texts : List String) (event : EvidenceEvent) : Prop :=
  event.calculateHash c = .ok event.contentHash ∧
    (0 < event.seqNo → ∃ x ∈ texts, event.prevChainHash = some (sha256Text x) ∧
      event.chainHash = some (computeChainHash (sha256Text x) event.contentHash event.eventId))

theorem EventSound.mono {xs ys : List String} {event : EvidenceEvent} (hs : xs ⊆ ys)
    (h : EventSound c xs event) : EventSound c ys event := by
  refine ⟨h.1, fun hn => ?_⟩
  obtain ⟨x, hx, hp, hc⟩ := h.2 hn
  exact ⟨x, hs hx, hp, hc⟩

/-- What every reachable log satisfies, collisions or not. -/
structure Sound (c : Codecs) (s : EvidenceLog) : Prop where
  head : IsDigest s.chainHead
  texts : ∀ x ∈ s.history.digested, IsDigest (headOf x)
  events : ∀ e ∈ s.history.stored, EventSound c s.history.digested e

theorem sound_fresh : Sound c (EvidenceLog.fresh cfg) where
  head := isDigest_genesisHash cfg.runId
  texts := by simp [EvidenceLog.fresh]
  events := by simp [EvidenceLog.fresh]

theorem Sound.hash {s t : EvidenceLog} (h : Sound c s) {head contentHash eventId : String}
    (hh : IsDigest head) (ht : IsDigest t.chainHead)
    (hd : t.history.digested = s.history.digested ++ [chainInput head contentHash eventId])
    (hst : t.history.stored = s.history.stored) : Sound c t := by
  refine ⟨ht, fun x hx => ?_, fun e he => ?_⟩
  · rw [hd] at hx
    rcases List.mem_append.1 hx with hx | hx
    · exact h.texts x hx
    · rw [List.mem_singleton.1 hx, hh.headOf_chainInput]
      exact hh
  · rw [hst] at he
    rw [hd]
    exact (h.events e he).mono (List.subset_append_left _ _)

theorem Sound.congr {s t : EvidenceLog} (h : Sound c s) (ht : t.chainHead = s.chainHead)
    (hd : t.history.digested = s.history.digested)
    (hst : t.history.stored = s.history.stored) : Sound c t := by
  refine ⟨by rw [ht]; exact h.head, by rw [hd]; exact h.texts, ?_⟩
  rw [hst, hd]
  exact h.events

theorem Sound.store {s : EvidenceLog} (h : Sound c s) {event : EvidenceEvent}
    (he : EventSound c s.history.digested event) :
    Sound c (exec (updateIndexes event) s).2 := by
  refine ⟨by rw [chainHead_updateIndexes]; exact h.head,
    by rw [history_updateIndexes]; exact h.texts, ?_⟩
  rw [history_updateIndexes]
  intro e hmem
  rcases List.mem_append.1 hmem with hmem | hmem
  · exact h.events e hmem
  · rw [List.mem_singleton.1 hmem]
    exact he

theorem eventSound_storedEvent {s : EvidenceLog} {env : Env} {event : EvidenceEvent}
    {contentHash : String} (hr : rehash c event = .ok contentHash) :
    EventSound c (s.relinked c cfg env event contentHash).history.digested
      (s.storedEvent c event contentHash) := by
  refine ⟨hr, fun _ => ⟨chainInput s.chainHead event.contentHash event.eventId, ?_, rfl, rfl⟩⟩
  rw [history_relinked]
  simp

private theorem sound_batchEvent {s : EvidenceLog} {head : String} {item : BatchItem}
    {event : EvidenceEvent} (h : Sound c s ∧ IsDigest head)
    (he : buildBatchEvent c cfg item = .ok event) :
    Sound c (exec (updateIndexes (event.link head)) (s.digest head event)).2 ∧
      IsDigest (computeChainHash head event.contentHash event.eventId) := by
  obtain ⟨hc, hn, _⟩ := buildBatchEvent_spec he
  have hdig : Sound c (s.digest head event) := h.1.hash h.2 h.1.head rfl rfl
  refine ⟨hdig.store ⟨hc, fun hpos => ?_⟩, isDigest_computeChainHash _ _ _⟩
  exact absurd hpos (by simp [EvidenceEvent.link, hn])

theorem sound_step {s : EvidenceLog} (h : Sound c s) (op : Op) : Sound c (step c cfg s op) := by
  have hlinked : ∀ event, Sound c (s.linked event) := fun event =>
    h.hash h.head (isDigest_computeChainHash _ _ _) rfl rfl
  have hdel : ∀ env event, Sound c
      ((s.linked event).delivered cfg env (s.linkedEvent event)) := fun env event =>
    (hlinked event).congr (chainHead_delivered _ _ _ _) (by rw [delivered_eq])
      (by rw [delivered_eq])
  by_cases hb : op.IsBatch
  · cases op with
    | createEventsBatch env items =>
      exact createEventsBatch_invariant (J := fun t head => Sound c t ∧ IsDigest head) h ⟨h, h.head⟩
        (fun _ _ _ _ _ hJ he => sound_batchEvent hJ he) (fun _ _ hJ => hJ.1)
        fun _ _ _ _ hJ => ⟨hJ.2, hJ.1.texts, hJ.1.events⟩
    | _ => exact absurd hb id
  · refine step_append_invariant hb h hlinked hdel fun env event contentHash hr => ?_
    have hd : (s.relinked c cfg env event contentHash).history.digested =
        ((s.linked event).delivered cfg env (s.linkedEvent event)).history.digested ++
          [chainInput (s.linked event).chainHead contentHash event.eventId] := by
      simp [delivered_eq]
    refine Sound.store ?_ (eventSound_storedEvent hr)
    exact (hdel env event).hash (isDigest_computeChainHash _ _ _)
      (isDigest_computeChainHash _ _ _) hd (by simp)

theorem sound_run (ops : List Op) : Sound c (run c cfg ops) :=
  foldl_invariant (I := Sound c) (fun _ op h => sound_step h op) ops sound_fresh

theorem Sound.ne_genesisHash {s : EvidenceLog} (h : Sound c s) (hf : CollisionFree cfg s)
    {x : String} (hx : x ∈ s.history.digested) : sha256Text x ≠ genesisHash cfg.runId := by
  intro he
  have hxg := hf x (List.mem_cons_of_mem _ hx) _ List.mem_cons_self he
  obtain ⟨text, ht⟩ := h.texts x hx
  rw [hxg] at ht
  exact headOf_genesisInput_ne cfg.runId text ht

/-! ### The verdicts -/

private theorem verifyLoop_returns (genesis : String) (index : Nat)
    {events : List EvidenceEvent} (acc : VerifyState) (h : ∀ e ∈ events, e.calculateHash c = .ok e.contentHash) :
    ∃ out, verifyLoop c genesis index events acc = .ok out := by
  induction events generalizing index acc with
  | nil => exact ⟨acc, rfl⟩
  | cons event rest ih =>
    obtain ⟨he, hrest⟩ := List.forall_mem_cons.1 h
    have hi : checkIntegrity c index event acc = .ok { acc with valid := acc.valid + 1 } := by
      simp [checkIntegrity, EvidenceEvent.verifyIntegrity, he, bind, Except.bind, pure,
        Except.pure]
    obtain ⟨out, hout⟩ := ih (index + 1)
      (checkChain genesis index event { acc with valid := acc.valid + 1 }) hrest
    exact ⟨out, by simpa [verifyLoop, hi, bind, Except.bind] using hout⟩

private theorem linksHold_genesis_iff {genesis : String} {events : List EvidenceEvent}
    (h : ∀ e ∈ events, ChainChecked e →
      truthy e.prevChainHash = true ∧ e.prevChainHash ≠ some genesis) :
    LinksHold genesis genesis events ↔ ∀ e ∈ events, ¬ ChainChecked e := by
  induction events with
  | nil => simp [LinksHold]
  | cons event rest ih =>
    obtain ⟨he, hrest⟩ := List.forall_mem_cons.1 h
    rw [List.forall_mem_cons, LinksHold]
    by_cases hck : ChainChecked event
    · obtain ⟨ht, hne⟩ := he hck
      rw [if_pos hck]
      constructor
      · rintro ⟨hl, _⟩
        exact absurd (hl.2 ht) hne
      · rintro ⟨hn, _⟩
        exact absurd hck hn
    · rw [if_neg hck, ih hrest]
      simp [hck]

/-- On every reachable log `verify_all` returns and finds every content hash right, and it finds
the chain right exactly when no event that came through `append` is retained. -/
theorem verifyAll_run (c : Codecs) (cfg : LogConfig) (ops : List Op)
    (hf : CollisionFree cfg (run c cfg ops)) :
    ∃ r, verifyAll c cfg (run c cfg ops) = .ok r ∧ r.allValid = true ∧
      (r.chainValid = true ↔ ∀ e ∈ (run c cfg ops).log.toList, e.seqNo ≤ 0) := by
  have hs : Sound c (run c cfg ops) := sound_run ops
  have hev : ∀ e ∈ (run c cfg ops).log.toList,
      EventSound c (run c cfg ops).history.digested e := fun e he =>
    hs.events e (mem_stored_of_mem_log he)
  obtain ⟨out, hout⟩ := verifyLoop_returns (genesisHash cfg.runId) 0
    { prevExpectedHash := genesisHash cfg.runId } fun e he => (hev e he).1
  have hret : ∃ r, verifyAll c cfg (run c cfg ops) = .ok r := by
    unfold verifyAll
    rw [hout]
    exact ⟨_, rfl⟩
  obtain ⟨r, hr⟩ := hret
  obtain ⟨ha, hc⟩ := verifyAll_ok hr
  refine ⟨r, hr, ha.2 fun e he => (hev e he).1, ?_⟩
  have hck : ∀ e ∈ (run c cfg ops).log.toList, (ChainChecked e ↔ 0 < e.seqNo) := by
    intro e he
    refine ⟨And.right, fun hn => ⟨?_, hn⟩⟩
    obtain ⟨x, _, _, hch⟩ := (hev e he).2 hn
    rw [hch]
    simpa [truthy] using (isDigest_computeChainHash (sha256Text x) _ _).ne_empty
  rw [hc, linksHold_genesis_iff]
  · refine ⟨fun h e he => ?_, fun h e he hch => ?_⟩
    · have := h e he
      rw [hck e he] at this
      omega
    · have := (hck e he).1 hch
      have := h e he
      omega
  · intro e he hch
    obtain ⟨x, hx, hp, _⟩ := (hev e he).2 ((hck e he).1 hch)
    rw [hp]
    refine ⟨?_, fun heq => hs.ne_genesisHash hf hx (Option.some.inj heq)⟩
    have : sha256Text x ≠ "" := IsDigest.ne_empty ⟨x, rfl⟩
    simpa [truthy] using this

/-- A log that holds a batch of one event verifies. -/
theorem verifyAll_run_batch :
    let cfg : LogConfig := { runId := "r" }
    let ops : List Op := [.createEventsBatch {}
      [{ eventType := "tool_call", payload := [], now := 1700000000, hex := "0123456789ab" }]]
    CollisionFree cfg (run plainCodecs cfg ops) ∧
      ∃ r, verifyAll plainCodecs cfg (run plainCodecs cfg ops) = .ok r ∧ r.allValid = true ∧
        (r.chainValid = true ↔ ∀ e ∈ (run plainCodecs cfg ops).log.toList, e.seqNo ≤ 0) := by
  intro cfg ops
  have hf : CollisionFree cfg (run plainCodecs cfg ops) := by decide +kernel
  exact ⟨hf, verifyAll_run plainCodecs cfg ops hf⟩

/-- A log that holds one created event and nothing else does not. -/
theorem not_verifyAll_run_one :
    let cfg : LogConfig := { runId := "r" }
    let ops : List Op := [.createEvent { now := 1700000000, hex := "0123456789ab" }
      { eventType := "tool_call", payload := [] }]
    ¬ ∃ r, verifyAll plainCodecs cfg (run plainCodecs cfg ops) = .ok r ∧ r.allValid = true ∧
      r.chainValid = true := by
  intro cfg ops
  have hv : (verifyAll plainCodecs cfg (run plainCodecs cfg ops)).toOption.map
      VerifyReport.chainValid = some false := by decide +kernel
  rintro ⟨r, hr, _, hc⟩
  rw [hr] at hv
  simp [Except.toOption, hc] at hv

end Hledac.Evidence
