import Hledac.Evidence.Batch

/-!
# Forks

What the stored events are linked to. As long as every batch settles, each stored event takes the
head of a text of its own, so no two retained events share a previous hash. A batch that raises
half-way leaves the old chain head behind, and the next batch links to it again.
-/

namespace Hledac.Evidence

open Hledac.Lib Hledac.Lib.HashChain Hledac.Py Raising

variable {c : Codecs} {cfg : LogConfig}

/-- The previous hashes of some events. -/
def prevHashes (events : List EvidenceEvent) : List (Option String) :=
  events.map (·.prevChainHash)

/-- The hashed texts form one chain, and each stored event took the head of a text of its own. -/
structure Forkless (cfg : LogConfig) (s : EvidenceLog) : Prop where
  chained : Chained cfg s
  prevs : (prevHashes s.history.stored).Sublist (s.history.digested.map (some ∘ headOf))

theorem forkless_fresh : Forkless cfg (EvidenceLog.fresh cfg) :=
  ⟨chained_fresh, List.Sublist.refl _⟩

theorem Forkless.congr {s t : EvidenceLog} (h : Forkless cfg s) (ht : t.chainHead = s.chainHead)
    (hd : t.history.digested = s.history.digested)
    (hs : t.history.stored = s.history.stored) : Forkless cfg t := by
  refine ⟨h.chained.congr ht hd, ?_⟩
  rw [hs, hd]
  exact h.prevs

theorem Forkless.hash {s t : EvidenceLog} (h : Forkless cfg s) (contentHash eventId : String)
    (hd : t.history.digested =
      s.history.digested ++ [chainInput s.chainHead contentHash eventId])
    (ht : t.chainHead = computeChainHash s.chainHead contentHash eventId)
    (hs : t.history.stored = s.history.stored) : Forkless cfg t := by
  refine ⟨h.chained.hash contentHash eventId hd ht, ?_⟩
  rw [hs, hd, List.map_append]
  exact h.prevs.trans (List.sublist_append_left _ _)

theorem Forkless.store {s t : EvidenceLog} (h : Forkless cfg s) (event : EvidenceEvent)
    (contentHash eventId : String) (he : event.prevChainHash = some s.chainHead)
    (hd : t.history.digested =
      s.history.digested ++ [chainInput s.chainHead contentHash eventId])
    (ht : t.chainHead = computeChainHash s.chainHead contentHash eventId)
    (hs : t.history.stored = s.history.stored ++ [event]) : Forkless cfg t := by
  refine ⟨h.chained.hash contentHash eventId hd ht, ?_⟩
  have hprev : (some ∘ headOf) (chainInput s.chainHead contentHash eventId) =
      event.prevChainHash := by
    rw [he, Function.comp_apply, h.chained.isDigest.headOf_chainInput]
  rw [hs, hd, prevHashes, List.map_append, List.map_append, List.map_singleton,
    List.map_singleton, hprev]
  exact h.prevs.append (List.Sublist.refl _)

theorem Forkless.nodup {s : EvidenceLog} (h : Forkless cfg s) (hf : CollisionFree cfg s) :
    (prevHashes s.history.stored).Nodup := by
  have hheads : (s.history.digested.map headOf).Nodup := by
    rw [h.chained.isChain.map_dec]
    exact (h.chained.nodup_heads hf).sublist (List.dropLast_sublist _)
  have hsome : (s.history.digested.map (some ∘ headOf)).Nodup := by
    rw [← List.map_map]
    exact hheads.map (Option.some_injective _)
  exact hsome.sublist h.prevs

/-- The state of the batch loop: the log, if the local head were its chain head. -/
def EvidenceLog.withHead (s : EvidenceLog) (head : String) : EvidenceLog :=
  { s with chainHead := head }

theorem forkless_batch {env : BatchEnv} {items : List BatchItem} {s : EvidenceLog}
    (hk : KeysFixed s) (h : Forkless cfg s) (hs : Settles c cfg env items s) :
    Forkless cfg (exec (createEventsBatch c cfg env items) s).2 := by
  obtain ⟨head', hI, hres⟩ := batchLoop_invariant c cfg
    (I := fun t head => Forkless cfg (t.withHead head)) items
    (fun t head item _ event hI _ => hI.store (event.link head)
      event.contentHash event.eventId rfl
      (by rw [EvidenceLog.withHead, history_updateIndexes]; rfl) rfl
      (by rw [EvidenceLog.withHead, history_updateIndexes]; rfl)) s s.chainHead h
  rcases createEventsBatch_cases c cfg env items s with
    ⟨_, hx⟩ | ⟨err, t, hl, hx⟩ | ⟨created, head, t, d, p, hl, hx⟩
  · rw [hx]
    exact h
  · -- the loop raised: at its first kept tuple, so it has stored nothing
    rcases hs with hs | ⟨hst, _⟩ | ⟨first, rest, err', hkept, hb⟩
    · rw [exec_of_stopsEarly hs]
      exact h
    · obtain ⟨_, _, hok, _⟩ := batchLoop_of_storesAll (not_sampledOut_of_mem_keptItems items)
        hst hk (length_eq_min s) s.chainHead
      rw [exec_batchLoop_keptItems, hok] at hl
      cases hl
    · have hfirst : ¬ sampledOut cfg first.draw first.eventType = true :=
        not_sampledOut_of_mem_keptItems items first (by rw [hkept]; simp)
      rw [exec_batchLoop_keptItems, hkept, exec_batchLoop_fail hfirst hb] at hl
      cases hl
      rw [hx]
      exact h
  · rw [hl] at hI hres
    have hhead : head = head' := hres (created, head) rfl
    rw [hx]
    subst hhead
    exact hI.congr rfl rfl rfl

/-- If the operation is a batch, it settles. -/
def BatchSettles (c : Codecs) (cfg : LogConfig) (s : EvidenceLog) : Op → Prop
  | .createEventsBatch env items => Settles c cfg env items s
  | _ => True

theorem forkless_step {s : EvidenceLog} {op : Op} (hk : KeysFixed s) (h : Forkless cfg s)
    (hs : BatchSettles c cfg s op) : Forkless cfg (step c cfg s op) := by
  by_cases hb : op.IsBatch
  · cases op with
    | createEventsBatch env items => exact forkless_batch hk h hs
    | _ => exact absurd hb id
  have hlinked : ∀ event, Forkless cfg (s.linked event) := fun event =>
    h.hash event.contentHash event.eventId rfl rfl rfl
  have hdel : ∀ env event, Forkless cfg
      ((s.linked event).delivered cfg env (s.linkedEvent event)) := fun env event =>
    (hlinked event).congr (chainHead_delivered _ _ _ _) (by rw [delivered_eq])
      (by rw [delivered_eq])
  refine step_append_invariant hb h hlinked hdel fun env event contentHash _ => ?_
  refine (hdel env event).store (s.storedEvent c event contentHash) contentHash event.eventId ?_ ?_ ?_ ?_
  · rw [chainHead_delivered]
    rfl
  · simp [delivered_eq]
  · simp
  · simp

/-- For every state that a run reaches, `create_events_batch` is all or nothing exactly when the
batch settles; and after a run in which every batch has settled, no two retained events have the
same previous hash. -/
theorem batches_allOrNothing_iff (c : Codecs) (cfg : LogConfig) (ops : List Op) :
    (∀ env items, AllOrNothing c cfg env items (run c cfg ops) ↔
        Settles c cfg env items (run c cfg ops)) ∧
      (CollisionFree cfg (run c cfg ops) →
        StepsMeet (step c cfg) (BatchSettles c cfg) (EvidenceLog.fresh cfg) ops →
        (prevHashes (run c cfg ops).log.toList).Nodup) := by
  refine ⟨fun env items => allOrNothing_iff (keysFixed_run ops) env items, fun hf hs => ?_⟩
  have hinv : KeysFixed (run c cfg ops) ∧ Forkless cfg (run c cfg ops) :=
    hs.invariant (I := fun s => KeysFixed s ∧ Forkless cfg s)
      (fun s op h hop => ⟨keysFixed_step h.1 op, forkless_step h.1 h.2 hop⟩)
      ⟨rfl, forkless_fresh⟩
  rw [log_eq_ofList_run]
  exact (hinv.2.nodup hf).sublist ((Deque.toList_ofList_suffix _).sublist.map _)

/-- A created event and then a batch of two, which settles. -/
theorem batches_allOrNothing_iff_two :
    let cfg : LogConfig := { runId := "r" }
    let ops : List Op :=
      [.createEvent { now := 1700000000, hex := "0123456789ab" }
          { eventType := "tool_call", payload := [] },
        .createEventsBatch {}
          [{ eventType := "decision", payload := [], now := 1700000001, hex := "ba9876543210" },
            { eventType := "error", payload := [], now := 1700000002, hex := "aa9876543210" }]]
    CollisionFree cfg (run plainCodecs cfg ops) ∧
      StepsMeet (step plainCodecs cfg) (BatchSettles plainCodecs cfg) (EvidenceLog.fresh cfg) ops ∧
      (∀ env items, AllOrNothing plainCodecs cfg env items (run plainCodecs cfg ops) ↔
        Settles plainCodecs cfg env items (run plainCodecs cfg ops)) ∧
      (prevHashes (run plainCodecs cfg ops).log.toList).Nodup := by
  intro cfg ops
  have hf : CollisionFree cfg (run plainCodecs cfg ops) := by decide +kernel
  have hbuilt : ∀ item : BatchItem, (buildBatchEvent plainCodecs cfg item).isOk = true →
      ∃ event, buildBatchEvent plainCodecs cfg item = .ok event := by
    intro item h
    cases hb : buildBatchEvent plainCodecs cfg item with
    | ok event => exact ⟨event, rfl⟩
    | error err => simp [hb, Except.isOk, Except.toBool] at h
  have hs : StepsMeet (step plainCodecs cfg) (BatchSettles plainCodecs cfg)
      (EvidenceLog.fresh cfg) ops := by
    refine ⟨trivial, .inr (.inl ⟨?_, fun h => ?_⟩), trivial⟩
    · rw [show ∀ items, keptItems cfg items = items from fun items =>
        List.filter_eq_self.2 fun item _ => by simp [sampledOut, cfg]]
      exact ⟨hbuilt _ (by decide +kernel), .inl (by decide), hbuilt _ (by decide +kernel),
        .inl (by decide), trivial⟩
    · exact absurd h (by decide)
  obtain ⟨hiff, hnodup⟩ := batches_allOrNothing_iff plainCodecs cfg ops
  exact ⟨hf, hs, hiff, hnodup hf hs⟩

/-- A batch whose second tuple has no index raises with the first event stored, and a second batch
then links its event to the same head. -/
theorem not_allOrNothing_note :
    let cfg : LogConfig := { runId := "r" }
    let first : List BatchItem :=
      [{ eventType := "tool_call", payload := [], now := 1700000000, hex := "0123456789ab" },
        { eventType := "note", payload := [], now := 1700000001, hex := "ba9876543210" }]
    let second : List BatchItem :=
      [{ eventType := "tool_call", payload := [], now := 1700000002, hex := "aa9876543210" }]
    ¬ AllOrNothing plainCodecs cfg {} first (run plainCodecs cfg []) ∧
      ¬ (prevHashes (run plainCodecs cfg
        [.createEventsBatch {} first, .createEventsBatch {} second]).log.toList).Nodup := by
  intro cfg first second
  refine ⟨fun h => ?_, by decide +kernel⟩
  have hraise : (exec (createEventsBatch plainCodecs cfg {} first)
      (run plainCodecs cfg [])).1.isOk = false := by decide +kernel
  have hcount : (exec (createEventsBatch plainCodecs cfg {} first)
      (run plainCodecs cfg [])).2.totalCount = 2 := by decide +kernel
  rcases hx : exec (createEventsBatch plainCodecs cfg {} first) (run plainCodecs cfg []) with
    ⟨err | _, t⟩
  · rw [hx] at hcount
    have htotal : t.totalCount = 0 := (h err t hx).2.2.2.1
    simp [htotal] at hcount
  · rw [hx] at hraise
    cases hraise

end Hledac.Evidence
