import Hledac.Evidence.Channels
import Hledac.Evidence.Split

/-!
# What reaches the disk

Over a run, the events that the calls hand over against the events that they moved the chain head to. One is
always a part of the other, in the same order; they are the same exactly in the runs whose every call finds
a place for what it links.
-/

namespace Hledac.Evidence

open Hledac.Lib Hledac.Py Raising

variable {c : Codecs} {cfg : LogConfig} {s : EvidenceLog}

/-- The condition on a call: an append is refused before it links its event, or can serialise it and finds
a place for the line; a batch creates nothing, or meets a running flush task without backpressure and finds
a place for all its lines. -/
def HandsAll (c : Codecs) (cfg : LogConfig) (s : EvidenceLog) : Call → Prop
  | .append env event ch => ¬ Accepted cfg (ch.env env) event ∨
      AppendHands c cfg (s.linkedEvent event) env ∧ ch.Takes 1
  | .createEventsBatch items ch =>
      (cfg.silentFailure = true ∨ ¬ StoresAll c cfg s.log.length (keptItems cfg items)) ∨
      keptItems cfg items = [] ∨
      ch.flushing = true ∧
        (channelPayloads c cfg (linkAll c cfg s.chainHead (keptItems cfg items))).isOk = true ∧
        ¬ ch.checkBackpressure cfg = true ∧ cfg.enablePersist = true ∧
        ch.Takes (keptItems cfg items).length

/-- The events that a call hands over. -/
def handedEvents (c : Codecs) (cfg : LogConfig) (p : EvidenceLog × Call) : List EvidenceEvent :=
  (handedOver c cfg p.1 p.2).map Prod.snd

theorem handedEvents_append (env : Env) (event : EvidenceEvent) (ch : Channels) (s : EvidenceLog) :
    (handedEvents c cfg (s, .append env event ch)).Sublist (advanced c cfg s (.append env event ch)) ∧
      (handedEvents c cfg (s, .append env event ch) = advanced c cfg s (.append env event ch) ↔
        HandsAll c cfg s (.append env event ch)) := by
  by_cases hv : Accepted cfg (ch.env env) event
  · have hadv : advanced c cfg s (.append env event ch) = [s.linkedEvent event] := by
      rw [advanced, hv]
    rw [hadv, handedEvents]
    by_cases hh : AppendHands c cfg (s.linkedEvent event) env
    · rw [handedOver_append_of_hands hv hh, snd_persist]
      by_cases ht : ch.Takes 1
      · rw [if_pos (delivery_eq_accepted_iff.2 ht)]
        exact ⟨List.Sublist.refl _, iff_of_true rfl (Or.inr ⟨hh, ht⟩)⟩
      · rw [if_neg fun hd => ht (delivery_eq_accepted_iff.1 hd)]
        refine ⟨List.nil_sublist _, iff_of_false (List.cons_ne_nil _ _).symm ?_⟩
        exact fun hall => hall.elim (fun hn => hn hv) fun hand => ht hand.2
    · rw [handedOver_append_of_not fun hand => hh hand.2]
      refine ⟨List.nil_sublist _, iff_of_false (List.cons_ne_nil _ _).symm ?_⟩
      exact fun hall => hall.elim (fun hn => hn hv) fun hand => hh hand.1
  · have hadv : advanced c cfg s (.append env event ch) = [] := by
      rw [advanced]
      cases hx : validateEvent cfg (ch.env env) event with
      | ok u => exact absurd hx hv
      | error err => rfl
    rw [hadv, handedEvents, handedOver_append_of_not fun hand => hv hand.1]
    exact ⟨List.Sublist.refl _, iff_of_true rfl (Or.inl hv)⟩

theorem handedEvents_batch_sublist (items : List BatchItem) (ch : Channels) (s : EvidenceLog) :
    (handedEvents c cfg (s, .createEventsBatch items ch)).Sublist (createdEvents c cfg s items) := by
  rw [handedEvents]
  by_cases h : BatchHands c cfg s items ch
  · rw [handedOver_batch_of_hands h, snd_persistBatch]
    exact List.take_sublist _ _
  · rw [handedOver_batch_of_not h]
    exact List.nil_sublist _

theorem handedEvents_batch_eq_iff (items : List BatchItem) (ch : Channels) (s : EvidenceLog) :
    handedEvents c cfg (s, .createEventsBatch items ch) = createdEvents c cfg s items ↔
      createdEvents c cfg s items = [] ∨
        BatchHands c cfg s items ch ∧ ch.Takes (createdEvents c cfg s items).length := by
  rw [handedEvents]
  by_cases h : BatchHands c cfg s items ch
  · rw [handedOver_batch_of_hands h, snd_persistBatch_eq_iff]
    constructor
    · exact fun ht => Or.inr ⟨h, ht⟩
    · exact fun hor => hor.elim (fun hnil => absurd hnil (reaches_iff.1 h.1).1) And.right
  · rw [handedOver_batch_of_not h, List.map_nil, eq_comm]
    exact ⟨Or.inl, fun hor => hor.elim id fun hand => absurd hand.1 h⟩

theorem handedEvents_batch (hk : KeysFixed s) (items : List BatchItem) (ch : Channels) :
    handedEvents c cfg (s, .createEventsBatch items ch) = createdEvents c cfg s items ↔
      HandsAll c cfg s (.createEventsBatch items ch) := by
  rw [handedEvents_batch_eq_iff]
  by_cases hnone : cfg.silentFailure = true ∨ ¬ StoresAll c cfg s.log.length (keptItems cfg items)
  · exact iff_of_true (Or.inl (createdEvents_of_not_storesAll hk hnone)) (Or.inl hnone)
  rw [not_or, not_not] at hnone
  have hcreated := createdEvents_of_storesAll hk hnone.1 hnone.2
  have hlength := length_linkAll hnone.2 s.chainHead
  have hnil : linkAll c cfg s.chainHead (keptItems cfg items) = [] ↔ keptItems cfg items = [] := by
    rw [← List.length_eq_zero_iff, hlength, List.length_eq_zero_iff]
  rw [BatchHands, reaches_iff, hcreated, hlength, hnil]
  constructor
  · intro hor
    apply Or.inr
    apply hor.imp_right
    intro hand
    exact ⟨hand.1.1.2.1, hand.1.1.2.2, hand.1.2.1, hand.1.2.2, hand.2⟩
  · intro hor
    cases hor with
    | inl hn => exact absurd hnone.2 (hn.resolve_left hnone.1)
    | inr hor =>
      rw [or_iff_not_imp_left]
      intro hne
      obtain ⟨hflush, hok, hback, hpersist, ht⟩ := hor.resolve_left hne
      exact ⟨⟨⟨mt hnil.1 hne, hflush, hok⟩, hback, hpersist⟩, ht⟩

theorem handedEvents_eq_iff (hk : KeysFixed s) (call : Call) :
    handedEvents c cfg (s, call) = advanced c cfg s call ↔ HandsAll c cfg s call := by
  cases call with
  | append env event ch => exact (handedEvents_append env event ch s).2
  | createEventsBatch items ch => exact handedEvents_batch hk items ch

theorem handedEvents_sublist (p : EvidenceLog × Call) :
    (handedEvents c cfg p).Sublist (advanced c cfg p.1 p.2) := by
  obtain ⟨s, call⟩ := p
  cases call with
  | append env event ch => exact (handedEvents_append env event ch s).1
  | createEventsBatch items ch => exact handedEvents_batch_sublist items ch s

theorem not_handsAll_of_refused (hk : KeysFixed s) {call : Call} (h : Refused c cfg s call) :
    ¬ HandsAll c cfg s call := by
  cases call with
  | append env event ch => exact h.elim
  | createEventsBatch items ch =>
    rw [← handedEvents_eq_iff hk, handedEvents, handedOver_batch_of_not fun hand => hand.2.1 h.2]
    exact fun heq => (reaches_iff.1 h.1).1 heq.symm

/-- A call of the run, with the state it starts from. -/
abbrev callTrace (c : Codecs) (cfg : LogConfig) (calls : List Call) : List (EvidenceLog × Call) :=
  trace (callStep c cfg) (EvidenceLog.fresh cfg) calls

/-- The events that a run hands over. -/
def handedRun (c : Codecs) (cfg : LogConfig) (calls : List Call) : List EvidenceEvent :=
  (callTrace c cfg calls).flatMap (handedEvents c cfg)

/-- The events that a run moves the chain head to. -/
def advancedRun (c : Codecs) (cfg : LogConfig) (calls : List Call) : List EvidenceEvent :=
  (callTrace c cfg calls).flatMap fun p => advanced c cfg p.1 p.2

theorem keysFixed_of_mem_callTrace {calls : List Call} {p : EvidenceLog × Call}
    (h : p ∈ callTrace c cfg calls) : KeysFixed p.1 := by
  have hfresh : KeysFixed (EvidenceLog.fresh cfg) := rfl
  have hstep : ∀ (s : EvidenceLog) (call : Call), KeysFixed s → KeysFixed (callStep c cfg s call) :=
    fun _ call hk => keysFixed_step hk (call.op cfg)
  exact invariant_of_mem_trace hstep hfresh h

theorem persisted_callRun (calls : List Call) :
    (calls.foldl (callStep c cfg) (EvidenceLog.fresh cfg)).history.persisted = handedRun c cfg calls := by
  have hgen : ∀ s, KeysFixed s → (calls.foldl (callStep c cfg) s).history.persisted =
      s.history.persisted ++ (trace (callStep c cfg) s calls).flatMap (handedEvents c cfg) := by
    induction calls with
    | nil => exact fun s _ => (List.append_nil _).symm
    | cons call rest ih =>
      intro s hk
      rw [List.foldl_cons, ih _ (keysFixed_step hk _), persisted_callStep hk, trace, List.flatMap_cons,
        List.append_assoc]
      rfl
  exact hgen _ rfl

/-- What is persisted of a run is what its calls hand over. Every event that moved the chain head is handed
over once, in the order of creation, and every refused batch leaves the log as it was, if and only if every
call finds a place for what it links. -/
theorem handedRun_eq_iff (c : Codecs) (cfg : LogConfig) (calls : List Call) :
    (calls.foldl (callStep c cfg) (EvidenceLog.fresh cfg)).history.persisted = handedRun c cfg calls ∧
    (∀ p ∈ callTrace c cfg calls, advanced c cfg p.1 p.2 = [] →
      (callStep c cfg p.1 p.2).chainHead = p.1.chainHead) ∧
    (handedRun c cfg calls = advancedRun c cfg calls ∧
        (∀ p ∈ callTrace c cfg calls, Refused c cfg p.1 p.2 → Unchanged p.1 (callStep c cfg p.1 p.2)) ↔
      StepsMeet (callStep c cfg) (HandsAll c cfg) (EvidenceLog.fresh cfg) calls) := by
  refine ⟨persisted_callRun calls, fun p _ h => chainHead_callStep p.2 h, ?_⟩
  have hrun : handedRun c cfg calls = advancedRun c cfg calls ↔
      StepsMeet (callStep c cfg) (HandsAll c cfg) (EvidenceLog.fresh cfg) calls := by
    rw [handedRun, advancedRun, flatMap_eq_iff_of_sublist handedEvents_sublist,
      stepsMeet_iff_forall_mem_trace]
    constructor
    · exact fun h p hp => (handedEvents_eq_iff (keysFixed_of_mem_callTrace hp) p.2).1 (h p hp)
    · exact fun h p hp => (handedEvents_eq_iff (keysFixed_of_mem_callTrace hp) p.2).2 (h p hp)
  constructor
  · exact fun h => hrun.1 h.1
  · intro h
    refine ⟨hrun.2 h, fun p hp hrefused => ?_⟩
    exact absurd (stepsMeet_iff_forall_mem_trace.1 h p hp)
      (not_handsAll_of_refused (keysFixed_of_mem_callTrace hp) hrefused)

/-- A field of an event in MessagePack. -/
def packField : PyVal → Except PyError Bytes
  | .bytes b => .ok (0xC4 :: UInt8.ofNat b.length :: b)
  | .none => .ok [0xC0]
  | value => Split.pack value

/-- Codecs that agree with the real ones on events with the empty payload and no sources. -/
def eventCodecs : Codecs :=
  { plainCodecs with
    packb := fun
      | .tuple fields => do
        return Split.packLength 0x90 16 0xDC 0xDC 0xDD fields.length ++ (← fields.mapM packField).flatten
      | value => Split.pack value }

/-- A batch whose flush task does not run is linked and not handed over. One that is refused for
backpressure is, too, and counts. -/
theorem not_handedRun :
    let cfg : LogConfig := { runId := "r" }
    let items : List BatchItem :=
      [{ eventType := "tool_call", payload := [], now := 1700000000, hex := "0123456789ab" }]
    let idle : Call := .createEventsBatch items { flushing := false }
    let full : Call := .createEventsBatch items { mpscLen := 1741 }
    handedRun eventCodecs cfg [idle] ≠ advancedRun eventCodecs cfg [idle] ∧
      handedRun eventCodecs cfg [full] ≠ advancedRun eventCodecs cfg [full] ∧
      Refused eventCodecs cfg (EvidenceLog.fresh cfg) full ∧
      ¬ Unchanged (EvidenceLog.fresh cfg) (callStep eventCodecs cfg (EvidenceLog.fresh cfg) full) := by
  intro cfg items idle full
  refine ⟨?_, ?_, ⟨?_, ?_⟩, ?_⟩
  · decide +kernel
  · decide +kernel
  · decide +kernel
  · decide +kernel
  · intro h
    have hcount := h.2.2.2.1
    revert hcount
    decide +kernel

end Hledac.Evidence
