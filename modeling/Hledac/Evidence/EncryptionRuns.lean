import Hledac.Evidence.Encryption
import Hledac.Evidence.EncryptionSizes

/-!
# Encryption over runs

Which calls hand over nothing but encrypted lines, and what two runs hand over that differ in the payloads of
their events only.
-/

namespace Hledac.Evidence

open Hledac.Lib Hledac.Py Raising

variable {gcm : Gcm} {c : Codecs} {cfg : LogConfig} {s t : EvidenceLog} {setup : Setup}
  {attempts : Nat → Attempt} {items items' : List BatchItem} {ch : Channels}

/-! ### A call -/

/-- The package is there, a key of the environment has a size of AES, and no operation raises. -/
def Setup.Encrypts (setup : Setup) (a : Attempt) : Prop :=
  setup.available = true ∧ (setup.environ = [] ∨ setup.environ.length ∈ Encryptor.keySizes) ∧ a.fault = none

theorem seals_init_iff {a : Attempt} : (Encryption.init true setup).Seals a ↔ setup.Encrypts a := by
  have htemporary : setup.temporary ≠ [] := by
    intro h
    have hlength := setup.length_temporary
    rw [h] at hlength
    cases hlength
  rw [Encryption.Seals, Setup.Encrypts, Encryption.ready, Encryption.init, if_pos rfl]
  by_cases henv : setup.environ = []
  · simp [henv, htemporary, Encryptor.keySizes, setup.length_temporary]
  · simp [henv]

/-- A batch comes to its channels and is not refused. -/
def BatchSends (c : Codecs) (cfg : LogConfig) (s : EvidenceLog) (items : List BatchItem) (ch : Channels) : Prop :=
  ¬ cfg.silentFailure = true ∧ StoresAll c cfg s.log.length (keptItems cfg items) ∧ ch.flushing = true ∧
    (channelPayloads c cfg (linkAll c cfg s.chainHead (keptItems cfg items))).isOk = true ∧
    ¬ ch.checkBackpressure cfg = true ∧ cfg.enablePersist = true

/-- The condition on a call: an append hands nothing over, since its event is refused or cannot be serialised
or the log does not persist; each encryption of a batch that hands something over goes through. -/
def SealsAll (c : Codecs) (cfg : LogConfig) (setup : Setup) (s : EvidenceLog) (call : SecretCall) : Prop :=
  match call.call with
  | .append env event ch =>
    ¬ (Accepted cfg (ch.env env) event ∧ AppendHands c cfg (s.linkedEvent event) env)
  | .createEventsBatch items ch => BatchSends c cfg s items ch →
      ∀ i < ch.encryptions (keptItems cfg items).length, setup.Encrypts (call.attempts i)

theorem batchHands_iff (hk : KeysFixed s) : BatchHands c cfg s items ch ↔
    BatchSends c cfg s items ch ∧ keptItems cfg items ≠ [] := by
  rw [BatchHands, reaches_iff, BatchSends]
  by_cases hnone : cfg.silentFailure = true ∨ ¬ StoresAll c cfg s.log.length (keptItems cfg items)
  · rw [createdEvents_of_not_storesAll hk hnone]
    tauto
  · rw [not_or, not_not] at hnone
    have hnil : linkAll c cfg s.chainHead (keptItems cfg items) = [] ↔ keptItems cfg items = [] := by
      rw [← List.length_eq_zero_iff, length_linkAll hnone.2, List.length_eq_zero_iff]
    rw [createdEvents_of_storesAll hk hnone.1 hnone.2, Ne, hnil]
    tauto

section Bytes

variable {enc : Encryption}

theorem handedBytes_append_of_hands (gcm : Gcm) (enc : Encryption) (attempts : Nat → Attempt) {env : Env}
    {event : EvidenceEvent} (hv : Accepted cfg (ch.env env) event)
    (h : AppendHands c cfg (s.linkedEvent event) env) :
    ∃ line, (s.linkedEvent event).toJsonlLine c = .ok line ∧
      handedBytes gcm enc c cfg s ⟨.append env event ch, attempts⟩ = ch.persistLine gcm enc (attempts 0) line := by
  obtain ⟨line, hline⟩ := isOk_iff.1 h.2.2
  refine ⟨line, hline, ?_⟩
  rw [handedBytes]
  simp only [hline]
  rw [if_pos]
  rw [hv, h.1, h.2.1]
  rfl

theorem handedBytes_append_of_not {env : Env} {event : EvidenceEvent}
    (h : ¬ (Accepted cfg (ch.env env) event ∧ AppendHands c cfg (s.linkedEvent event) env)) :
    handedBytes gcm enc c cfg s ⟨.append env event ch, attempts⟩ = [] := by
  rw [handedBytes]
  simp only
  split
  · next hand =>
    simp only [Bool.and_eq_true] at hand
    obtain ⟨u, hu⟩ := isOk_iff.1 hand.1.1
    obtain ⟨v, hv⟩ := isOk_iff.1 hand.1.2
    cases hline : (s.linkedEvent event).toJsonlLine c with
    | ok line => exact absurd ⟨hu, hv, hand.2, isOk_iff.2 ⟨line, hline⟩⟩ h
    | error err => rfl
  · rfl

theorem exists_lines_of_sends (h : BatchSends c cfg s items ch) :
    ∃ lines, (linkAll c cfg s.chainHead (keptItems cfg items)).mapM (·.toJsonlLine c) = .ok lines ∧
      lines.length = (keptItems cfg items).length := by
  obtain ⟨u, hu⟩ := isOk_iff.1 h.2.2.2.1
  obtain ⟨packed, -, hu⟩ := bind_eq_ok_iff.1 hu
  rw [if_pos h.2.2.2.2.2] at hu
  obtain ⟨lines, hlines, -⟩ := bind_eq_ok_iff.1 hu
  refine ⟨lines, hlines, ?_⟩
  rw [← length_linkAll h.2.1 s.chainHead]
  exact (mapM_eq_ok_iff.1 hlines).length_eq.symm

theorem handedBytes_batch_of_sends (hk : KeysFixed s) (h : BatchSends c cfg s items ch)
    (hne : keptItems cfg items ≠ []) {lines : List Bytes}
    (hlines : (linkAll c cfg s.chainHead (keptItems cfg items)).mapM (·.toJsonlLine c) = .ok lines) :
    handedBytes gcm enc c cfg s ⟨.createEventsBatch items ch, attempts⟩ =
      ch.persistLines gcm enc attempts lines := by
  have hand := (batchHands_iff hk).2 ⟨h, hne⟩
  rw [handedBytes]
  simp only
  rw [if_pos, createdEvents_of_storesAll hk h.1 h.2.1, hlines]
  simp [hand.1, hand.2.1, hand.2.2]

theorem handedBytes_batch_of_not (hk : KeysFixed s)
    (h : ¬ (BatchSends c cfg s items ch ∧ keptItems cfg items ≠ [])) :
    handedBytes gcm enc c cfg s ⟨.createEventsBatch items ch, attempts⟩ = [] := by
  rw [handedBytes]
  simp only
  rw [if_neg]
  intro hand
  simp only [Bool.and_eq_true, Bool.not_eq_true'] at hand
  exact h ((batchHands_iff hk).1 ⟨hand.1.1, by simp [hand.1.2], hand.2⟩)

end Bytes

theorem forall_handedBytes (gcm : Gcm) (hk : KeysFixed s) (call : SecretCall) :
    (∀ h ∈ handedBytes gcm (Encryption.init true setup) c cfg s call,
      Sealed gcm (Encryption.init true setup).key h) ↔ SealsAll c cfg setup s call := by
  obtain ⟨call, attempts⟩ := call
  cases call with
  | append env event ch =>
    by_cases hand : Accepted cfg (ch.env env) event ∧ AppendHands c cfg (s.linkedEvent event) env
    · obtain ⟨line, -, hbytes⟩ := handedBytes_append_of_hands gcm (Encryption.init true setup) attempts
        hand.1 hand.2
      rw [hbytes, Channels.persistLine, persistEvent_eq_plain, List.forall_mem_cons]
      exact iff_of_false (fun h => not_sealed_plain gcm _ line h.1) (fun h => h hand)
    · rw [handedBytes_append_of_not hand]
      exact iff_of_true (fun h hmem => by cases hmem) hand
  | createEventsBatch items ch =>
    by_cases hand : BatchSends c cfg s items ch ∧ keptItems cfg items ≠ []
    · obtain ⟨lines, hlines, hlength⟩ := exists_lines_of_sends hand.1
      rw [handedBytes_batch_of_sends hk hand.1 hand.2 hlines, forall_persistLines, hlength]
      simp only [SealsAll, seals_init_iff, hand.1, true_imp_iff]
    · rw [handedBytes_batch_of_not hk hand]
      refine iff_of_true (fun h hmem => by cases hmem) fun hsends i hi => ?_
      have hnil : keptItems cfg items = [] := by
        by_contra hne
        exact hand ⟨hsends, hne⟩
      rw [hnil, Channels.encryptions, List.length_nil, Nat.zero_sub, ite_self] at hi
      cases hi

/-! ### Two logs side by side -/

/-- What two logs have in common: as many events in the ring, and digests as their heads. -/
structure Alike (s t : EvidenceLog) : Prop where
  left : KeysFixed s
  right : KeysFixed t
  length : t.log.length = s.log.length
  headLeft : IsSha s.chainHead
  headRight : IsSha t.chainHead

theorem updateIndexes_ok_congr (hs : KeysFixed s) (ht : KeysFixed t) (hlog : t.log.length = s.log.length)
    {e f : EvidenceEvent} (htype : f.eventType = e.eventType) :
    (exec (updateIndexes f) t).1 = .ok () ↔ (exec (updateIndexes e) s).1 = .ok () := by
  rw [updateIndexes_ok_iff, updateIndexes_ok_iff, hs.hasIndex_iff, ht.hasIndex_iff, hlog, htype]

theorem length_log_updateIndexes (hlog : t.log.length = s.log.length) (e f : EvidenceEvent) :
    (exec (updateIndexes f) t).2.log.length = (exec (updateIndexes e) s).2.log.length := by
  rw [log_updateIndexes, log_updateIndexes, Deque.length_append, Deque.length_append, hlog]

theorem length_log_batchLoop (h : List.Forall₂ (BatchItem.SameButPayload c cfg) items items')
    (hs : KeysFixed s) (ht : KeysFixed t) (hlog : t.log.length = s.log.length) (head head' : String) :
    (exec (batchLoop c cfg items' head') t).2.log.length = (exec (batchLoop c cfg items head) s).2.log.length := by
  induction h generalizing s t head head' with
  | nil => exact hlog
  | @cons x y _ _ hxy _ ih =>
    by_cases hsampled : sampledOut cfg x.draw x.eventType = true
    · rw [exec_batchLoop_skip hsampled, exec_batchLoop_skip (hxy.sampledOut.trans hsampled)]
      exact ih hs ht hlog head head'
    have hsampled' : ¬ sampledOut cfg y.draw y.eventType = true := fun hy => hsampled (hxy.sampledOut.symm.trans hy)
    cases hxy.cases with
    | inr herror =>
      obtain ⟨err, err', hx, hy⟩ := herror
      rw [exec_batchLoop_fail hsampled hx, exec_batchLoop_fail hsampled' hy]
      exact hlog
    | inl hok =>
      obtain ⟨e, f, hx, hy⟩ := hok
      have hsd : KeysFixed (s.digest head e) := hs
      have htd : KeysFixed (t.digest head' f) := ht
      have hdlog : (t.digest head' f).log.length = (s.digest head e).log.length := hlog
      have htype : (f.link head').eventType = (e.link head).eventType := by
        show f.eventType = e.eventType
        rw [(buildBatchEvent_spec hx).2.2, (buildBatchEvent_spec hy).2.2, hxy.eventType]
      have hcongr := updateIndexes_ok_congr hsd htd hdlog htype
      have hlength := length_log_updateIndexes hdlog (e.link head) (f.link head')
      have hks := keysFixed_updateIndexes hsd (e.link head)
      have hkt := keysFixed_updateIndexes htd (f.link head')
      cases hu : exec (updateIndexes (e.link head)) (s.digest head e) with
      | mk r s' =>
        cases hv : exec (updateIndexes (f.link head')) (t.digest head' f) with
        | mk r' t' =>
          rw [hu, hv] at hcongr hlength
          rw [hu] at hks
          rw [hv] at hkt
          cases r with
          | error err =>
            cases r' with
            | error err' =>
              rw [exec_batchLoop_raise hsampled hx hu, exec_batchLoop_raise hsampled' hy hv]
              exact hlength
            | ok u => cases hcongr.1 rfl
          | ok u =>
            cases r' with
            | error err' => cases hcongr.2 rfl
            | ok u' =>
              rw [exec_batchLoop_cons hsampled hx hu, exec_batchLoop_cons hsampled' hy hv]
              exact ih hks hkt hlength _ _

theorem log_createEventsBatch {env : BatchEnv} (h : ¬ StopsEarly cfg env items) (s : EvidenceLog) :
    (exec (createEventsBatch c cfg env items) s).2.log = (exec (batchLoop c cfg items s.chainHead) s).2.log := by
  rcases createEventsBatch_cases c cfg env items s with
    ⟨hearly, -⟩ | ⟨err, t, hl, hx⟩ | ⟨created, head, t, d, p, hl, hx⟩
  · exact absurd hearly h
  · rw [hx, hl]
  · rw [hx, hl]

theorem isSha_step {op : Op} (h : IsSha s.chainHead) : IsSha (step c cfg s op).chainHead := by
  by_cases hb : op.IsBatch
  · cases op with
    | createEventsBatch env items =>
      refine createEventsBatch_invariant (I := fun t => IsSha t.chainHead)
        (J := fun t head => IsSha t.chainHead ∧ IsSha head) h ⟨h, h⟩ ?_ (fun _ _ hJ => hJ.1) fun _ _ _ _ hJ => hJ.2
      intro t head item _ event hJ _
      rw [chainHead_updateIndexes]
      exact ⟨hJ.1, isSha_computeChainHash _ _ _⟩
    | _ => exact absurd hb id
  · refine step_append_invariant (I := fun t => IsSha t.chainHead) hb h (fun _ => isSha_computeChainHash _ _ _) ?_ ?_
    · intro env event
      rw [chainHead_delivered]
      exact isSha_computeChainHash _ _ _
    · intro env event contentHash _
      rw [chainHead_updateIndexes, chainHead_relinked]
      exact isSha_computeChainHash _ _ _

/-! ### Two calls -/

/-- Two calls differ in the payloads of their events only, and these have one size each. The content hash of an
appended event comes with its payload. -/
inductive SameButPayloads (c : Codecs) (cfg : LogConfig) : SecretCall → SecretCall → Prop
  | append (env : Env) (event : EvidenceEvent) (ch : Channels) (attempts : Nat → Attempt) (payload : Bytes)
      (contentHash : String) (h : payload.length = event.payload.length) :
      SameButPayloads c cfg ⟨.append env event ch, attempts⟩
        ⟨.append env { event with payload := payload, contentHash := contentHash } ch, attempts⟩
  | createEventsBatch (items items' : List BatchItem) (ch : Channels) (attempts : Nat → Attempt)
      (h : List.Forall₂ (BatchItem.SameButPayload c cfg) items items') :
      SameButPayloads c cfg ⟨.createEventsBatch items ch, attempts⟩ ⟨.createEventsBatch items' ch, attempts⟩

/-- A batch that comes to running channels can be serialised for them. -/
def Serialises (c : Codecs) (cfg : LogConfig) (s : EvidenceLog) (call : SecretCall) : Prop :=
  match call.call with
  | .append _ _ _ => True
  | .createEventsBatch items ch => ¬ cfg.silentFailure = true →
      StoresAll c cfg s.log.length (keptItems cfg items) → ch.flushing = true →
        (channelPayloads c cfg (linkAll c cfg s.chainHead (keptItems cfg items))).isOk = true

/-- The log after a call. -/
abbrev secretStep (c : Codecs) (cfg : LogConfig) (s : EvidenceLog) (call : SecretCall) : EvidenceLog :=
  callStep c cfg s call.call

theorem handedBytes_of_persist_off {enc : Encryption} (h : ¬ cfg.enablePersist = true) (s : EvidenceLog)
    (call : SecretCall) : handedBytes gcm enc c cfg s call = [] := by
  obtain ⟨call, attempts⟩ := call
  rw [handedBytes]
  cases call with
  | append env event ch => simp [h]
  | createEventsBatch items ch => simp [h]

theorem log_append_of_not {env : Env} {event : EvidenceEvent} (hpersist : cfg.enablePersist = true)
    (h : ¬ (Accepted cfg (ch.env env) event ∧ AppendHands c cfg (s.linkedEvent event) env)) :
    (callStep c cfg s (.append env event ch)).log = s.log := by
  have hnot : Accepted cfg (ch.env env) event → ¬ Handed c cfg (ch.env env) (s.linkedEvent event) := by
    intro hv hand
    obtain ⟨hsend, hline⟩ := (handed_iff ch env _).1 hand
    exact h ⟨hv, hsend, hpersist, hline hpersist⟩
  show (exec (append c cfg (ch.env env) event) s).2.log = s.log
  rcases append_cases c cfg (ch.env env) event s with
    ⟨-, err, hx⟩ | ⟨-, -, err, hx⟩ | ⟨hv, hand, -⟩ | ⟨hv, hand, -⟩
  · rw [hx]
  · rw [hx]
    rfl
  · exact absurd hand (hnot hv)
  · exact absurd hand (hnot hv)

theorem map_line_encryptLines {enc : Encryption} (lines : List Bytes) (i : Nat) :
    (encryptLines gcm enc attempts i lines).map (·.line) = lines := by
  induction lines generalizing i with
  | nil => rfl
  | cons line rest ih => rw [encryptLines, List.map_cons, ih]

theorem map_line_persistLines {enc : Encryption} (ch : Channels) (lines : List Bytes) :
    (ch.persistLines gcm enc attempts lines).map (·.line) =
      lines ++ if ch.persistFile then lines.drop (ch.mpsc2.sendBatch lines.length) else [] := by
  rw [Channels.persistLines, List.map_append, map_line_encryptLines]
  split
  · rw [map_syncWrite_encryptLines, map_line_encryptLines]
  · rfl

theorem lengths_of_sealed {key : Bytes} {hs : List HandOver} (h : ∀ x ∈ hs, Sealed gcm key x) :
    hs.map (·.bytes.length) = (hs.map (·.line)).map fun line => line.length + (encode "\n").length + 28 := by
  rw [List.map_map]
  apply List.map_congr_left
  intro x hx
  rw [(h x hx).length, Encryption.plain, List.length_append]
  rfl

theorem lengths_persistLines {enc : Encryption} {key : Bytes} {lines lines' : List Bytes}
    (hlength : lines'.map List.length = lines.map List.length)
    (h : ∀ x ∈ ch.persistLines gcm enc attempts lines, Sealed gcm key x)
    (h' : ∀ x ∈ ch.persistLines gcm enc attempts lines', Sealed gcm key x) :
    (ch.persistLines gcm enc attempts lines').map (·.bytes.length) =
      (ch.persistLines gcm enc attempts lines).map (·.bytes.length) := by
  have hcount : lines'.length = lines.length := by
    have heq := congrArg List.length hlength
    rwa [List.length_map, List.length_map] at heq
  have hmap : ∀ ls : List Bytes, ls.map (fun line => line.length + (encode "\n").length + 28) =
      (ls.map List.length).map fun n => n + (encode "\n").length + 28 := by
    intro ls
    rw [List.map_map]
    rfl
  rw [lengths_of_sealed h, lengths_of_sealed h', hmap, hmap, map_line_persistLines, map_line_persistLines, hcount]
  apply congrArg
  split
  · rw [List.map_append, List.map_append, List.map_drop, List.map_drop, hlength]
  · rw [List.append_nil, List.append_nil, hlength]

theorem batchSends_congr (h : List.Forall₂ (BatchItem.SameButPayload c cfg) items items') (ha : Alike s t)
    (hs : Serialises c cfg s ⟨.createEventsBatch items ch, attempts⟩)
    (ht : Serialises c cfg t ⟨.createEventsBatch items' ch, attempts⟩) :
    BatchSends c cfg t items' ch ↔ BatchSends c cfg s items ch := by
  have hstores := storesAll_congr (sameButPayload_keptItems h) s.log.length
  rw [Serialises] at hs ht
  simp only at hs ht
  rw [ha.length, hstores] at ht
  rw [BatchSends, BatchSends, ha.length, hstores]
  constructor
  · exact fun hand => ⟨hand.1, hand.2.1, hand.2.2.1, hs hand.1 hand.2.1 hand.2.2.1, hand.2.2.2.2⟩
  · exact fun hand => ⟨hand.1, hand.2.1, hand.2.2.1, ht hand.1 hand.2.1 hand.2.2.1, hand.2.2.2.2⟩

theorem lengths_batch (hc : SizeLaws c) (h : List.Forall₂ (BatchItem.SameButPayload c cfg) items items')
    (ha : Alike s t) (hs : Serialises c cfg s ⟨.createEventsBatch items ch, attempts⟩)
    (ht : Serialises c cfg t ⟨.createEventsBatch items' ch, attempts⟩)
    (hseal : SealsAll c cfg setup s ⟨.createEventsBatch items ch, attempts⟩)
    (hseal' : SealsAll c cfg setup t ⟨.createEventsBatch items' ch, attempts⟩) :
    (handedBytes gcm (Encryption.init true setup) c cfg t ⟨.createEventsBatch items' ch, attempts⟩).map
        (·.bytes.length) =
      (handedBytes gcm (Encryption.init true setup) c cfg s ⟨.createEventsBatch items ch, attempts⟩).map
        (·.bytes.length) := by
  have hkept := sameButPayload_keptItems h
  have hsends := batchSends_congr h ha hs ht
  have hnil : keptItems cfg items' = [] ↔ keptItems cfg items = [] := by
    rw [← List.length_eq_zero_iff, ← List.length_eq_zero_iff, hkept.length_eq]
  by_cases hand : BatchSends c cfg s items ch ∧ keptItems cfg items ≠ []
  · have hand' : BatchSends c cfg t items' ch ∧ keptItems cfg items' ≠ [] :=
      ⟨hsends.2 hand.1, fun hn => hand.2 (hnil.1 hn)⟩
    have hall := (forall_handedBytes gcm ha.left _).2 hseal
    have hall' := (forall_handedBytes gcm ha.right _).2 hseal'
    obtain ⟨lines, hlines, -⟩ := exists_lines_of_sends hand.1
    obtain ⟨lines', hlines', -⟩ := exists_lines_of_sends hand'.1
    rw [handedBytes_batch_of_sends ha.left hand.1 hand.2 hlines] at hall ⊢
    rw [handedBytes_batch_of_sends ha.right hand'.1 hand'.2 hlines'] at hall' ⊢
    exact lengths_persistLines
      (map_length_lines hc (sameLine_linkAll hc hkept ha.headLeft ha.headRight) hlines hlines') hall hall'
  · have hand' : ¬ (BatchSends c cfg t items' ch ∧ keptItems cfg items' ≠ []) := by
      rw [hsends, Ne, hnil]
      exact hand
    rw [handedBytes_batch_of_not ha.left hand, handedBytes_batch_of_not ha.right hand']

theorem alike_batch (h : List.Forall₂ (BatchItem.SameButPayload c cfg) items items') (ha : Alike s t) :
    Alike (callStep c cfg s (.createEventsBatch items ch)) (callStep c cfg t (.createEventsBatch items' ch)) := by
  refine ⟨keysFixed_step ha.left _, keysFixed_step ha.right _, ?_, isSha_step ha.headLeft, isSha_step ha.headRight⟩
  have hempty : items'.isEmpty = items.isEmpty := by
    cases h with
    | nil => rfl
    | cons _ _ => rfl
  show (exec (createEventsBatch c cfg (ch.batchEnv cfg items') items') t).2.log.length =
    (exec (createEventsBatch c cfg (ch.batchEnv cfg items) items) s).2.log.length
  by_cases hearly : (items.isEmpty || cfg.silentFailure) = true
  · have hearly' : (items'.isEmpty || cfg.silentFailure) = true := by
      rw [hempty]
      exact hearly
    rw [exec_of_stopsEarly (Or.inl hearly), exec_of_stopsEarly (Or.inl hearly')]
    exact ha.length
  · have hopen : ¬ StopsEarly cfg (ch.batchEnv cfg items) items :=
      fun hor => hor.elim hearly Bool.false_ne_true
    have hopen' : ¬ StopsEarly cfg (ch.batchEnv cfg items') items' := by
      refine fun hor => hor.elim (fun hx => hearly ?_) Bool.false_ne_true
      rw [← hempty]
      exact hx
    rw [log_createEventsBatch hopen, log_createEventsBatch hopen']
    exact length_log_batchLoop h ha.left ha.right ha.length _ _

theorem alike_secretStep (gcm : Gcm) (hc : SizeLaws c) (hpersist : cfg.enablePersist = true) {call call' : SecretCall}
    (h : SameButPayloads c cfg call call') (ha : Alike s t)
    (hs : SealsAll c cfg setup s call ∧ Serialises c cfg s call)
    (ht : SealsAll c cfg setup t call' ∧ Serialises c cfg t call') :
    Alike (secretStep c cfg s call) (secretStep c cfg t call') ∧
      (handedBytes gcm (Encryption.init true setup) c cfg t call').map (·.bytes.length) =
        (handedBytes gcm (Encryption.init true setup) c cfg s call).map (·.bytes.length) := by
  cases h with
  | append env event ch attempts payload contentHash _ =>
    constructor
    · refine ⟨keysFixed_step ha.left _, keysFixed_step ha.right _, ?_, isSha_step ha.headLeft,
        isSha_step ha.headRight⟩
      show (callStep c cfg t _).log.length = (callStep c cfg s _).log.length
      rw [log_append_of_not hpersist hs.1, log_append_of_not hpersist ht.1, ha.length]
    · rw [handedBytes_append_of_not hs.1, handedBytes_append_of_not ht.1]
  | createEventsBatch items items' ch attempts h =>
    exact ⟨alike_batch h ha, lengths_batch hc h ha hs.2 ht.2 hs.1 ht.1⟩

/-! ### Runs -/

/-- What a run hands over, call after call. -/
def handedBytesRun (gcm : Gcm) (enc : Encryption) (c : Codecs) (cfg : LogConfig) (calls : List SecretCall) :
    List HandOver :=
  (trace (secretStep c cfg) (EvidenceLog.fresh cfg) calls).flatMap fun p => handedBytes gcm enc c cfg p.1 p.2

theorem lengths_of_alike (hc : SizeLaws c) (hpersist : cfg.enablePersist = true) {calls calls' : List SecretCall}
    (h : List.Forall₂ (SameButPayloads c cfg) calls calls') (ha : Alike s t)
    (hs : StepsMeet (secretStep c cfg) (fun s call => SealsAll c cfg setup s call ∧ Serialises c cfg s call) s calls)
    (ht : StepsMeet (secretStep c cfg) (fun s call => SealsAll c cfg setup s call ∧ Serialises c cfg s call) t calls') :
    ((trace (secretStep c cfg) t calls').flatMap fun p =>
        handedBytes gcm (Encryption.init true setup) c cfg p.1 p.2).map (·.bytes.length) =
      ((trace (secretStep c cfg) s calls).flatMap fun p =>
        handedBytes gcm (Encryption.init true setup) c cfg p.1 p.2).map (·.bytes.length) := by
  induction h generalizing s t with
  | nil => rfl
  | cons hcall _ ih =>
    obtain ⟨hnext, hlength⟩ := alike_secretStep gcm hc hpersist hcall ha hs.1 ht.1
    rw [trace, trace, List.flatMap_cons, List.flatMap_cons, List.map_append, List.map_append, hlength,
      ih hnext hs.2 ht.2]

/-- A run of a log that is to encrypt hands over nothing but nonce, tag and ciphertext of a line if and only if
every call meets its condition. Two such runs that differ in the payloads of their events only, whose batches
can be serialised, hand over the same sequence of lengths. -/
theorem sealedRun_iff (gcm : Gcm) (c : Codecs) (cfg : LogConfig) (setup : Setup) (calls : List SecretCall) :
    ((∀ h ∈ handedBytesRun gcm (Encryption.init true setup) c cfg calls,
        Sealed gcm (Encryption.init true setup).key h) ↔
      StepsMeet (secretStep c cfg) (SealsAll c cfg setup) (EvidenceLog.fresh cfg) calls) ∧
    ∀ calls', SizeLaws c → List.Forall₂ (SameButPayloads c cfg) calls calls' →
      StepsMeet (secretStep c cfg) (fun s call => SealsAll c cfg setup s call ∧ Serialises c cfg s call)
        (EvidenceLog.fresh cfg) calls →
      StepsMeet (secretStep c cfg) (fun s call => SealsAll c cfg setup s call ∧ Serialises c cfg s call)
        (EvidenceLog.fresh cfg) calls' →
      (handedBytesRun gcm (Encryption.init true setup) c cfg calls').map (·.bytes.length) =
        (handedBytesRun gcm (Encryption.init true setup) c cfg calls).map (·.bytes.length) := by
  constructor
  · rw [stepsMeet_iff_forall_mem_trace, handedBytesRun]
    simp only [List.mem_flatMap, forall_exists_index, and_imp]
    have hstep : ∀ (s : EvidenceLog) (call : SecretCall), KeysFixed s → KeysFixed (secretStep c cfg s call) :=
      fun _ call hk => keysFixed_step hk (call.call.op cfg)
    have hfresh : KeysFixed (EvidenceLog.fresh cfg) := rfl
    constructor
    · intro h p hp
      rw [← forall_handedBytes gcm (invariant_of_mem_trace hstep hfresh hp)]
      exact fun x hx => h x p hp hx
    · intro h x p hp hx
      exact (forall_handedBytes gcm (invariant_of_mem_trace hstep hfresh hp) p.2).2 (h p hp) x hx
  · intro calls' hc h hs ht
    have hfresh : Alike (EvidenceLog.fresh cfg) (EvidenceLog.fresh cfg) :=
      ⟨rfl, rfl, rfl, ⟨_, rfl⟩, ⟨_, rfl⟩⟩
    by_cases hpersist : cfg.enablePersist = true
    · exact lengths_of_alike hc hpersist h hfresh hs ht
    · have hnone : ∀ calls, handedBytesRun gcm (Encryption.init true setup) c cfg calls = [] := by
        intro calls
        rw [handedBytesRun, List.flatMap_eq_nil_iff]
        exact fun p _ => handedBytes_of_persist_off hpersist p.1 p.2
      rw [hnone, hnone]

/-- Two batches of one event with the payload of one letter. -/
theorem sealedRun_iff_letters :
    let cfg : LogConfig := { runId := "r" }
    let setup : Setup := ⟨[], List.replicate 32 7, rfl, true⟩
    let batch (letter : String) : SecretCall :=
      ⟨.createEventsBatch
        [{ eventType := "tool_call", payload := letterPayload letter, now := 1700000000, hex := "0123456789ab" }] {},
        fun _ => ⟨List.replicate 12 9, rfl, none⟩⟩
    SizeLaws letterCodecs ∧ ∀ gcm,
      (handedBytesRun gcm (Encryption.init true setup) letterCodecs cfg [batch "b"]).map (·.bytes.length) =
        (handedBytesRun gcm (Encryption.init true setup) letterCodecs cfg [batch "a"]).map (·.bytes.length) := by
  intro cfg setup batch
  refine ⟨sizeLaws_letterCodecs, fun gcm => ?_⟩
  have hseals : ∀ letter, SealsAll letterCodecs cfg setup (EvidenceLog.fresh cfg) (batch letter) :=
    fun letter _ i _ => ⟨rfl, Or.inl rfl, rfl⟩
  have ha : Serialises letterCodecs cfg (EvidenceLog.fresh cfg) (batch "a") := fun _ _ _ => by decide +kernel
  have hb : Serialises letterCodecs cfg (EvidenceLog.fresh cfg) (batch "b") := fun _ _ _ => by decide +kernel
  have hsame : SameButPayloads letterCodecs cfg (batch "a") (batch "b") :=
    .createEventsBatch _ _ _ _ (.cons ⟨rfl, by decide +kernel⟩ .nil)
  exact (sealedRun_iff gcm letterCodecs cfg setup [batch "a"]).2 [batch "b"] sizeLaws_letterCodecs
    (.cons hsame .nil) ⟨⟨hseals "a", ha⟩, trivial⟩ ⟨⟨hseals "b", hb⟩, trivial⟩

private theorem not_sealed_of_not_sealsAll {call : SecretCall}
    (h : ¬ SealsAll c cfg setup (EvidenceLog.fresh cfg) call) :
    ¬ ∃ gcm, ∀ x ∈ handedBytesRun gcm (Encryption.init true setup) c cfg [call],
      Sealed gcm (Encryption.init true setup).key x := by
  intro hex
  obtain ⟨gcm, hall⟩ := hex
  rw [handedBytesRun, trace, trace, List.flatMap_cons, List.flatMap_nil, List.append_nil] at hall
  exact h ((forall_handedBytes gcm (rfl : KeysFixed (EvidenceLog.fresh cfg)) call).1 hall)

/-- A log whose cipher works hands over readable lines when it appends, and a log without the cipher package
hands them over in batches, too. -/
theorem not_sealedRun :
    let cfg : LogConfig := { runId := "r" }
    let event : EvidenceEvent :=
      { eventId := "r_0", eventType := "tool_call", timestamp := 1700000000, payload := encode "\x7b\x7d",
        sourceIds := [], confidence := 1, contentHash := "", runId := "r" }
    let item : BatchItem := { eventType := "tool_call", payload := [], now := 1700000000, hex := "0123456789ab" }
    let attempts : Nat → Attempt := fun _ => ⟨List.replicate 12 9, rfl, none⟩
    let working : Setup := ⟨[], List.replicate 32 7, rfl, true⟩
    let missing : Setup := ⟨[], List.replicate 32 7, rfl, false⟩
    (¬ ∃ gcm, ∀ h ∈ handedBytesRun gcm (Encryption.init true working) eventCodecs cfg
        [⟨.append { now := 1700000000, hex := "" } event {}, attempts⟩],
      Sealed gcm (Encryption.init true working).key h) ∧
    ¬ ∃ gcm, ∀ h ∈ handedBytesRun gcm (Encryption.init true missing) eventCodecs cfg
        [⟨.createEventsBatch [item] {}, attempts⟩],
      Sealed gcm (Encryption.init true missing).key h := by
  intro cfg event item attempts working missing
  constructor
  · apply not_sealed_of_not_sealsAll
    exact fun h => h ⟨rfl, rfl, rfl, by decide +kernel⟩
  · apply not_sealed_of_not_sealsAll
    intro h
    have hbuild : ∃ e, buildBatchEvent eventCodecs cfg item = .ok e := isOk_iff.1 (by decide +kernel)
    have hsends : BatchSends eventCodecs cfg (EvidenceLog.fresh cfg) [item] {} := by
      refine ⟨Bool.false_ne_true, ⟨hbuild, Or.inl (by decide), trivial⟩, rfl, by decide +kernel, ?_, rfl⟩
      decide +kernel
    have havailable : (false : Bool) = true := (h hsends 0 (by decide +kernel)).1
    cases havailable

end Hledac.Evidence
