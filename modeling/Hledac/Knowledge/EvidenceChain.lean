import Mathlib.Algebra.Group.Action.Defs
import Mathlib.Algebra.Order.BigOperators.Group.List
import Hledac.Lib.Dict
import Hledac.Lib.Machine
import Hledac.Py.Value

/-!
# Evidence chains

`EvidenceChainBuilder` of `src/knowledge/evidence_chain.py` and the text form of a chain. The caps are tested in the
order of the source: on all steps, on the number of chains, and only then on the chain of the root. The two JSON
libraries are parameters, confidences are finite.
-/

namespace Hledac.Knowledge

open Hledac.Lib Hledac.Py

/-! ### Chains -/

def maxChainDepth : Nat := 10

def maxChainsPerSprint : Nat := 100

def maxChainJsonBytes : Nat := 4098

/-- `ChainStep`, line 76. -/
structure ChainStep where
  stepType : String
  inputIds : List String
  outputId : String
  confidence : ℚ
  reason : String
  deriving DecidableEq

/-- `EvidenceChain`, line 102. -/
structure EvidenceChain where
  rootFindingId : String
  steps : List ChainStep := []
  conclusion : Option String := none
  deriving DecidableEq

namespace EvidenceChain

/-- `add_step`, line 118. -/
def addStep (c : EvidenceChain) (step : ChainStep) : EvidenceChain :=
  if c.steps.length < maxChainDepth then { c with steps := c.steps ++ [step] } else c

def depth (c : EvidenceChain) : Nat := c.steps.length

def isEmpty (c : EvidenceChain) : Bool := c.steps.isEmpty

end EvidenceChain

/-! ### The builder -/

/-- The arguments of `record_step`. -/
structure StepCall where
  root : String
  step : ChainStep
  deriving DecidableEq

namespace StepCall

/-- `record_ingest`, line 188. -/
def ingest (findingId : String) (confidence : ℚ) (reason : String) : StepCall :=
  ⟨findingId, ⟨"finding_ingest", [], findingId, confidence, reason⟩⟩

/-- A convenience method for one type of steps. -/
def ofType (stepType root : String) (inputIds : List String) (outputId : String) (confidence : ℚ) (reason : String) :
    StepCall :=
  ⟨root, ⟨stepType, inputIds, outputId, confidence, reason⟩⟩

def identity := ofType "identity_stitching"

def attribution := ofType "attribution_scoring"

def exposure := ofType "exposure_correlation"

def leak := ofType "leak_sentinel"

def temporal := ofType "temporal_archaeology"

def diff := ofType "sprint_diff"

def killchain := ofType "kill_chain_tagging"

def evidenceTriage := ofType "evidence_triage"

def pivot := ofType "pivot_planning"

end StepCall

/-- `EvidenceChainBuilder`, line 133. -/
structure EvidenceChainBuilder where
  chains : Dict String EvidenceChain
  totalSteps : Nat

namespace EvidenceChainBuilder

def fresh : EvidenceChainBuilder := ⟨.empty, 0⟩

/-- `record_step`, line 150. -/
def recordStep (b : EvidenceChainBuilder) (c : StepCall) : EvidenceChainBuilder :=
  if maxChainsPerSprint * maxChainDepth ≤ b.totalSteps then b
  else if maxChainsPerSprint ≤ b.chains.size then b
  else
    match b.chains.get? c.root with
    | none =>
      let chain : EvidenceChain := { rootFindingId := c.root }
      ⟨b.chains.insert c.root (chain.addStep c.step), b.totalSteps + 1⟩
    | some chain =>
      if maxChainDepth ≤ chain.steps.length then b
      else ⟨b.chains.insert c.root (chain.addStep c.step), b.totalSteps + 1⟩

/-- `get_total_steps`, line 323. -/
def getTotalSteps (b : EvidenceChainBuilder) : Nat := b.totalSteps

/-- `build`, line 311. -/
def build (b : EvidenceChainBuilder) (root : String) : Option EvidenceChain := b.chains.get? root

def run (calls : List StepCall) : EvidenceChainBuilder := calls.foldl recordStep fresh

end EvidenceChainBuilder

/-! ### The text form -/

/-- `_chain_to_dict`, line 373. -/
def chainToDict (c : EvidenceChain) : PyVal :=
  .dict [
    ("root_finding_id", .str c.rootFindingId),
    ("steps", .list (c.steps.map fun s => .dict [
      ("step_type", .str s.stepType),
      ("input_ids", .list (s.inputIds.map .str)),
      ("output_id", .str s.outputId),
      ("confidence", .float s.confidence),
      ("reason", .str s.reason)])),
    ("conclusion", (c.conclusion.map PyVal.str).getD .none)]

/-- A list of texts. -/
def textOf : PyVal → Option String
  | .str s => some s
  | _ => none

/-- `ChainStep(step_type=s["step_type"], …)`; entries of other types do not make a step. -/
def dictToStep : PyVal → Option ChainStep
  | .dict d =>
    match d.lookup "step_type", d.lookup "input_ids", d.lookup "output_id", d.lookup "confidence",
      d.lookup "reason" with
    | some (.str stepType), some (.list inputIds), some (.str outputId), some (.float confidence), some (.str reason) =>
      (inputIds.mapM textOf).map fun ids => ⟨stepType, ids, outputId, confidence, reason⟩
    | _, _, _, _, _ => none
  | _ => none

/-- `_dict_to_chain`, line 390. -/
def dictToChain : PyVal → Option EvidenceChain
  | .dict d =>
    match d.lookup "root_finding_id", (d.lookup "steps").getD (.list []), (d.lookup "conclusion").getD .none with
    | some (.str root), .list steps, .none => (steps.mapM dictToStep).map fun steps => ⟨root, steps, none⟩
    | some (.str root), .list steps, .str conclusion =>
      (steps.mapM dictToStep).map fun steps => ⟨root, steps, some conclusion⟩
    | _, _, _ => none
  | _ => none

/-- `orjson` and `msgspec_json`; a call that raises gives nothing. -/
structure JsonCodecs where
  dumps : PyVal → Option String
  encode : PyVal → Option String
  loads : String → Option PyVal
  decode : String → Option PyVal

namespace JsonCodecs

variable (codecs : JsonCodecs)

/-- The bytes of a value, which are UTF-8. -/
def write (v : PyVal) : Option String := (codecs.dumps v).or (codecs.encode v)

def read (text : String) : Option PyVal := (codecs.loads text).or (codecs.decode text)

/-- What is written of a chain is not empty and is read as it was. -/
def Lossless : Prop :=
  ∀ c text, codecs.write (chainToDict c) = some text → text ≠ "" ∧ codecs.read text = some (chainToDict c)

end JsonCodecs

/-- `serialize_chain`, line 405. -/
def serializeChain (codecs : JsonCodecs) (c : EvidenceChain) : Option String :=
  if c.isEmpty then none
  else
    match codecs.write (chainToDict c) with
    | some raw => if maxChainJsonBytes < raw.utf8ByteSize then none else some raw
    | none => none

/-- `deserialize_chain`, line 432. -/
def deserializeChain (codecs : JsonCodecs) (payloadText : Option String) : Option EvidenceChain :=
  match payloadText with
  | some text => if text = "" then none else (codecs.read text).bind dictToChain
  | none => none

theorem mapM_map_eq_some {α β : Type} {f : α → β} {g : β → Option α} (h : ∀ a, g (f a) = some a) (l : List α) :
    (l.map f).mapM g = some l := by
  induction l with
  | nil => rfl
  | cons a l ih =>
    rw [List.map_cons, List.mapM_cons, h, ih]
    rfl

theorem dictToChain_chainToDict (c : EvidenceChain) : dictToChain (chainToDict c) = some c := by
  obtain ⟨root, steps, conclusion⟩ := c
  have hsteps := mapM_map_eq_some (f := fun s : ChainStep => PyVal.dict [
      ("step_type", .str s.stepType),
      ("input_ids", .list (s.inputIds.map .str)),
      ("output_id", .str s.outputId),
      ("confidence", .float s.confidence),
      ("reason", .str s.reason)]) (g := dictToStep) (fun s => by
    simp [dictToStep, List.lookup_cons, mapM_map_eq_some (f := PyVal.str) (g := textOf) (fun _ => rfl)]) steps
  cases conclusion with
  | none => simp [dictToChain, chainToDict, List.lookup_cons, hsteps]
  | some conclusion => simp [dictToChain, chainToDict, List.lookup_cons, hsteps]

theorem deserializeChain_serializeChain {codecs : JsonCodecs} (hcodecs : codecs.Lossless) {c : EvidenceChain}
    {text : String} (h : serializeChain codecs c = some text) : deserializeChain codecs (some text) = some c := by
  have hwrite : codecs.write (chainToDict c) = some text := by
    rw [serializeChain] at h
    split at h
    · cases h
    · split at h
      · next hraw =>
        split at h
        · cases h
        · rw [hraw, h]
      · cases h
  obtain ⟨hne, hread⟩ := hcodecs c text hwrite
  rw [deserializeChain, if_neg hne, hread]
  exact dictToChain_chainToDict c

/-! ### What a call does -/

namespace EvidenceChainBuilder

variable {b : EvidenceChainBuilder} {c : StepCall} {root : String} {chain : EvidenceChain}

/-- What holds of every builder: the caps, the root under which a chain is kept, and the count of all steps. -/
structure Sound (b : EvidenceChainBuilder) : Prop where
  size_le : b.chains.size ≤ maxChainsPerSprint
  root_eq : ∀ root chain, b.chains.get? root = some chain → chain.rootFindingId = root
  conclusion_eq : ∀ root chain, b.chains.get? root = some chain → chain.conclusion = none
  depth_pos : ∀ root chain, b.chains.get? root = some chain → 0 < chain.depth
  depth_le : ∀ root chain, b.chains.get? root = some chain → chain.depth ≤ maxChainDepth
  total : b.totalSteps = b.chains.total EvidenceChain.depth

theorem sound_fresh : Sound fresh where
  size_le := Nat.zero_le _
  root_eq _ _ h := nomatch h
  conclusion_eq _ _ h := nomatch h
  depth_pos _ _ h := nomatch h
  depth_le _ _ h := nomatch h
  total := rfl

theorem Sound.totalSteps_le (h : Sound b) : b.totalSteps ≤ b.chains.size * maxChainDepth := by
  have hle : ∀ n ∈ b.chains.entries.map fun e => e.2.depth, n ≤ maxChainDepth := by
    intro n hn
    obtain ⟨e, he, rfl⟩ := List.mem_map.1 hn
    exact h.depth_le e.1 e.2 (Dict.get?_eq_some_iff.2 he)
  have hsum := List.sum_le_card_nsmul _ _ hle
  rw [List.length_map, smul_eq_mul] at hsum
  rw [h.total]
  exact hsum

/-- The chain a first call leaves. -/
def opened (c : StepCall) : EvidenceChain := { rootFindingId := c.root, steps := [c.step] }

theorem recordStep_cases (h : Sound b) (c : StepCall) :
    ((maxChainsPerSprint ≤ b.chains.size ∨
        ∃ chain, b.chains.get? c.root = some chain ∧ maxChainDepth ≤ chain.depth) ∧ b.recordStep c = b) ∨
    (b.chains.size < maxChainsPerSprint ∧ b.chains.get? c.root = none ∧
      b.recordStep c = ⟨b.chains.insert c.root (opened c), b.totalSteps + 1⟩) ∨
    (b.chains.size < maxChainsPerSprint ∧ ∃ chain, b.chains.get? c.root = some chain ∧ chain.depth < maxChainDepth ∧
      b.recordStep c =
        ⟨b.chains.insert c.root { chain with steps := chain.steps ++ [c.step] }, b.totalSteps + 1⟩) := by
  by_cases hfull : maxChainsPerSprint ≤ b.chains.size
  · refine .inl ⟨.inl hfull, ?_⟩
    rw [recordStep, if_pos hfull, ite_self]
  · have htotal : ¬ maxChainsPerSprint * maxChainDepth ≤ b.totalSteps := by
      have hle := h.totalSteps_le
      simp only [maxChainsPerSprint, maxChainDepth] at hfull hle ⊢
      omega
    rw [recordStep, if_neg htotal, if_neg hfull]
    cases hget : b.chains.get? c.root with
    | none => exact .inr (.inl ⟨Nat.lt_of_not_le hfull, rfl, rfl⟩)
    | some chain =>
      by_cases hdeep : maxChainDepth ≤ chain.steps.length
      · exact .inl ⟨.inr ⟨chain, rfl, hdeep⟩, if_pos hdeep⟩
      · refine .inr (.inr ⟨Nat.lt_of_not_le hfull, chain, rfl, Nat.lt_of_not_le hdeep, ?_⟩)
        simp only [if_neg hdeep, EvidenceChain.addStep, if_pos (Nat.lt_of_not_le hdeep)]

theorem Sound.insert (h : Sound b) (hsize : (b.chains.insert root chain).size ≤ maxChainsPerSprint)
    (hroot : chain.rootFindingId = root) (hconclusion : chain.conclusion = none) (hpos : 0 < chain.depth)
    (hle : chain.depth ≤ maxChainDepth)
    (htotal : b.totalSteps + 1 = chain.depth + (b.chains.erase root).total EvidenceChain.depth) :
    Sound ⟨b.chains.insert root chain, b.totalSteps + 1⟩ := by
  have hget : ∀ {P : String → EvidenceChain → Prop}, P root chain →
      (∀ root' chain', b.chains.get? root' = some chain' → P root' chain') →
      ∀ root' chain', (b.chains.insert root chain).get? root' = some chain' → P root' chain' := by
    intro P hnew hold root' chain' hget
    rw [Dict.get?_insert] at hget
    split at hget
    · next heq =>
      obtain rfl := Option.some_inj.1 hget
      exact heq ▸ hnew
    · exact hold root' chain' hget
  constructor
  · exact hsize
  · exact hget hroot h.root_eq
  · exact hget (P := fun _ chain => chain.conclusion = none) hconclusion h.conclusion_eq
  · exact hget (P := fun _ chain => 0 < chain.depth) hpos h.depth_pos
  · exact hget (P := fun _ chain => chain.depth ≤ maxChainDepth) hle h.depth_le
  · rw [htotal, Dict.total_insert]

theorem sound_recordStep (h : Sound b) (c : StepCall) : Sound (b.recordStep c) := by
  rcases recordStep_cases h c with ⟨_, heq⟩ | ⟨hsize, hget, heq⟩ | ⟨hsize, chain, hget, hdepth, heq⟩
  · rw [heq]
    exact h
  · have hnew : c.root ∉ b.chains.keys := Dict.notMem_keys_iff.2 hget
    rw [heq]
    apply h.insert
    · rw [Dict.size_insert, if_neg hnew]
      exact hsize
    · rfl
    · rfl
    · exact Nat.zero_lt_one
    · exact (by decide : 1 ≤ maxChainDepth)
    · rw [h.total, Dict.erase_of_notMem hnew, Nat.add_comm]
      rfl
  · have hold : c.root ∈ b.chains.keys := Dict.mem_keys_of_get? hget
    have hlonger : EvidenceChain.depth { chain with steps := chain.steps ++ [c.step] } = chain.depth + 1 := by
      simp [EvidenceChain.depth]
    rw [heq]
    apply h.insert
    · rw [Dict.size_insert, if_pos hold]
      exact h.size_le
    · exact h.root_eq c.root chain hget
    · exact h.conclusion_eq c.root chain hget
    · rw [hlonger]
      exact Nat.succ_pos _
    · rw [hlonger]
      exact hdepth
    · rw [hlonger, h.total, Dict.total_eq_add_erase EvidenceChain.depth hget]
      omega

theorem sound_run (calls : List StepCall) : Sound (run calls) :=
  foldl_invariant (I := Sound) (fun _ c h => sound_recordStep h c) calls sound_fresh

/-! ### Complete chains -/

/-- The steps of the chain of a root, none where the root is not tracked. -/
def stepsOf (b : EvidenceChainBuilder) (root : String) : List ChainStep :=
  ((b.build root).map EvidenceChain.steps).getD []

/-- The steps recorded for a root, in call order. -/
def recordedFor (root : String) (calls : List StepCall) : List ChainStep :=
  (calls.filter fun c => decide (c.root = root)).map StepCall.step

/-- The call goes to the end of its chain, or its chain is full, or its root is new while the most chains are
tracked. -/
def Keeps (b : EvidenceChainBuilder) (c : StepCall) : Prop :=
  (b.recordStep c).stepsOf c.root = b.stepsOf c.root ++ [c.step] ∨ maxChainDepth ≤ (b.stepsOf c.root).length ∨
    b.build c.root = none ∧ maxChainsPerSprint ≤ b.chains.size

/-- What the chains of a sprint promise. -/
structure Complete (codecs : JsonCodecs) (calls : List StepCall) : Prop where
  ingest : ∀ root chain, (run calls).build root = some chain →
    ∃ first rest, chain.steps = first :: rest ∧ first.outputId = root
  steps : ∀ root chain, (run calls).build root = some chain → chain.steps = (recordedFor root calls).take maxChainDepth
  drops : StepsMeet recordStep Keeps fresh calls
  total : (run calls).getTotalSteps = (run calls).chains.total EvidenceChain.depth
  roundTrip : ∀ root chain, (run calls).build root = some chain → ∀ text, serializeChain codecs chain = some text →
    deserializeChain codecs (some text) = some chain

/-- The first call for a root has the root for its output, and once the most chains are tracked only full ones are
called for. -/
def InOrder (b : EvidenceChainBuilder) (c : StepCall) : Prop :=
  match b.build c.root with
  | none => b.chains.size < maxChainsPerSprint → c.step.outputId = c.root
  | some chain => maxChainsPerSprint ≤ b.chains.size → maxChainDepth ≤ chain.depth

instance (b : EvidenceChainBuilder) (c : StepCall) : Decidable (InOrder b c) :=
  match h : b.build c.root with
  | none => decidable_of_iff (b.chains.size < maxChainsPerSprint → c.step.outputId = c.root) (by rw [InOrder, h])
  | some chain => decidable_of_iff (maxChainsPerSprint ≤ b.chains.size → maxChainDepth ≤ chain.depth)
      (by rw [InOrder, h])

theorem stepsOf_of_build (h : b.build root = some chain) : b.stepsOf root = chain.steps := by
  rw [stepsOf, h]
  rfl

theorem stepsOf_of_none (h : b.build root = none) : b.stepsOf root = [] := by
  rw [stepsOf, h]
  rfl

theorem recordedFor_concat (root : String) (calls : List StepCall) (c : StepCall) :
    recordedFor root (calls ++ [c]) = recordedFor root calls ++ if c.root = root then [c.step] else [] := by
  rw [recordedFor, recordedFor, List.filter_append, List.map_append]
  congr 1
  split
  · next h => simp [h]
  · next h => simp [h]

theorem build_insert (chains : Dict String EvidenceChain) (n : Nat) (k : String) (chain : EvidenceChain) :
    build ⟨chains.insert k chain, n⟩ root = if k = root then some chain else build ⟨chains, n⟩ root :=
  Dict.get?_insert

theorem prefix_recordStep (h : Sound b) (c : StepCall) (hget : b.build root = some chain) :
    ∃ chain', (b.recordStep c).build root = some chain' ∧ chain.steps <+: chain'.steps := by
  rcases recordStep_cases h c with ⟨_, heq⟩ | ⟨_, hnone, heq⟩ | ⟨_, old, hold, _, heq⟩
  · rw [heq]
    exact ⟨chain, hget, List.prefix_refl _⟩
  · have hne : c.root ≠ root := by
      rintro rfl
      cases hnone.symm.trans hget
    rw [heq, build_insert, if_neg hne]
    exact ⟨chain, hget, List.prefix_refl _⟩
  · rw [heq, build_insert]
    split
    · next hroot =>
      subst hroot
      obtain rfl := Option.some_inj.1 (hold.symm.trans hget)
      exact ⟨_, rfl, List.prefix_append _ _⟩
    · exact ⟨chain, hget, List.prefix_refl _⟩

theorem prefix_foldl (h : Sound b) (hget : b.build root = some chain) (calls : List StepCall) :
    ∃ chain', (calls.foldl recordStep b).build root = some chain' ∧ chain.steps <+: chain'.steps := by
  induction calls generalizing b chain with
  | nil => exact ⟨chain, hget, List.prefix_refl _⟩
  | cons c rest ih =>
    obtain ⟨next, hnext, hprefix⟩ := prefix_recordStep h c hget
    obtain ⟨last, hlast, hlonger⟩ := ih (sound_recordStep h c) hnext
    exact ⟨last, hlast, hprefix.trans hlonger⟩

theorem keeps_iff (h : Sound b) (c : StepCall) :
    Keeps b c ↔ ∀ chain, b.build c.root = some chain → maxChainsPerSprint ≤ b.chains.size →
      maxChainDepth ≤ chain.depth := by
  rw [Keeps]
  rcases recordStep_cases h c with ⟨hwhy, heq⟩ | ⟨hsize, hnone, heq⟩ | ⟨hsize, chain, hget, hdepth, heq⟩
  · -- the call is dropped
    rw [heq]
    have hsame : b.stepsOf c.root ≠ b.stepsOf c.root ++ [c.step] := by simp
    cases hget : b.build c.root with
    | none =>
      have hfull : maxChainsPerSprint ≤ b.chains.size := by
        cases hwhy with
        | inl hfull => exact hfull
        | inr hchain =>
          obtain ⟨chain, hchain, _⟩ := hchain
          cases hget.symm.trans hchain
      exact ⟨fun _ _ hc => (nomatch hc), fun _ => .inr (.inr ⟨rfl, hfull⟩)⟩
    | some chain =>
      rw [stepsOf_of_build hget] at hsame ⊢
      constructor
      · intro hkeeps chain' hchain' _
        obtain rfl := Option.some_inj.1 hchain'
        rcases hkeeps with hadded | hfull | ⟨hnone, _⟩
        · exact absurd hadded hsame
        · exact hfull
        · cases hnone
      · intro hfull
        refine .inr (.inl ?_)
        cases hwhy with
        | inl hsize => exact hfull chain rfl hsize
        | inr hchain =>
          obtain ⟨chain', hchain', hdepth⟩ := hchain
          obtain rfl := Option.some_inj.1 (hget.symm.trans hchain')
          exact hdepth
  · have hadded : (b.recordStep c).stepsOf c.root = b.stepsOf c.root ++ [c.step] := by
      rw [heq, stepsOf_of_none hnone, stepsOf, build_insert, if_pos rfl]
      rfl
    exact ⟨fun _ _ _ hfull => absurd hsize (Nat.not_lt.2 hfull), fun _ => .inl hadded⟩
  · have hadded : (b.recordStep c).stepsOf c.root = b.stepsOf c.root ++ [c.step] := by
      rw [heq, stepsOf_of_build hget, stepsOf, build_insert, if_pos rfl]
      rfl
    exact ⟨fun _ _ _ hfull => absurd hsize (Nat.not_lt.2 hfull), fun _ => .inl hadded⟩

theorem keeps_of_inOrder (h : Sound b) (horder : InOrder b c) : Keeps b c := by
  rw [keeps_iff h]
  intro chain hget
  rw [InOrder, hget] at horder
  exact horder

/-- Where every call so far came in order, the chains hold what was recorded. -/
structure Holds (calls : List StepCall) (b : EvidenceChainBuilder) : Prop where
  ingest : ∀ root chain, b.build root = some chain → ∃ first rest, chain.steps = first :: rest ∧ first.outputId = root
  steps : ∀ root chain, b.build root = some chain → chain.steps = (recordedFor root calls).take maxChainDepth
  absent : ∀ root, b.build root = none → b.chains.size < maxChainsPerSprint → recordedFor root calls = []

theorem holds_fresh : Holds [] fresh where
  ingest _ _ h := nomatch h
  steps _ _ h := nomatch h
  absent _ _ _ := rfl

theorem recordedFor_concat_of_ne {calls : List StepCall} (hne : c.root ≠ root) :
    recordedFor root (calls ++ [c]) = recordedFor root calls := by
  rw [recordedFor_concat, if_neg hne, List.append_nil]

theorem recordedFor_concat_self (calls : List StepCall) (c : StepCall) :
    recordedFor c.root (calls ++ [c]) = recordedFor c.root calls ++ [c.step] := by
  rw [recordedFor_concat, if_pos rfl]

theorem Holds.dropped {calls : List StepCall} (h : Holds calls b)
    (hwhy : maxChainsPerSprint ≤ b.chains.size ∨ ∃ chain, b.chains.get? c.root = some chain ∧
      maxChainDepth ≤ chain.depth)
    (horder : InOrder b c) : Holds (calls ++ [c]) b where
  ingest := h.ingest
  steps root chain hget := by
    rw [h.steps root chain hget]
    by_cases hroot : c.root = root
    · subst hroot
      have hfull : maxChainDepth ≤ chain.depth := by
        cases hwhy with
        | inl hsize =>
          rw [InOrder, hget] at horder
          exact horder hsize
        | inr hchain =>
          obtain ⟨chain', hchain', hdepth⟩ := hchain
          obtain rfl := Option.some_inj.1 (hget.symm.trans hchain')
          exact hdepth
      have hlong : maxChainDepth ≤ (recordedFor c.root calls).length := by
        rw [EvidenceChain.depth, h.steps c.root chain hget, List.length_take] at hfull
        exact hfull.trans (Nat.min_le_right _ _)
      rw [recordedFor_concat_self, List.take_append_of_le_length hlong]
    · rw [recordedFor_concat_of_ne hroot]
  absent root hget hsize := by
    by_cases hroot : c.root = root
    · subst hroot
      cases hwhy with
      | inl hfull => exact absurd hsize (Nat.not_lt.2 hfull)
      | inr hchain =>
        obtain ⟨chain', hchain', _⟩ := hchain
        cases hget.symm.trans hchain'
    · rw [recordedFor_concat_of_ne hroot]
      exact h.absent root hget hsize

theorem Holds.stored {calls : List StepCall} (h : Holds calls b) (hsize : b.chains.size < maxChainsPerSprint)
    (hingest : ∃ first rest, chain.steps = first :: rest ∧ first.outputId = c.root)
    (hsteps : chain.steps = (recordedFor c.root (calls ++ [c])).take maxChainDepth) :
    Holds (calls ++ [c]) ⟨b.chains.insert c.root chain, b.totalSteps + 1⟩ where
  ingest root chain' hget := by
    rw [build_insert] at hget
    split at hget
    · next hroot =>
      subst hroot
      obtain rfl := Option.some_inj.1 hget
      exact hingest
    · exact h.ingest root chain' hget
  steps root chain' hget := by
    rw [build_insert] at hget
    split at hget
    · next hroot =>
      subst hroot
      obtain rfl := Option.some_inj.1 hget
      exact hsteps
    · next hroot =>
      rw [recordedFor_concat_of_ne hroot]
      exact h.steps root chain' hget
  absent root hget _ := by
    rw [build_insert] at hget
    split at hget
    · cases hget
    · next hroot =>
      rw [recordedFor_concat_of_ne hroot]
      exact h.absent root hget hsize

theorem holds_recordStep {calls : List StepCall} (hsound : Sound b) (h : Holds calls b) (horder : InOrder b c) :
    Holds (calls ++ [c]) (b.recordStep c) := by
  rcases recordStep_cases hsound c with ⟨hwhy, heq⟩ | ⟨hsize, hnone, heq⟩ | ⟨hsize, chain, hget, hdepth, heq⟩
  · rw [heq]
    exact h.dropped hwhy horder
  · have hbuild : b.build c.root = none := hnone
    rw [InOrder, hbuild] at horder
    rw [heq]
    apply h.stored hsize
    · exact ⟨c.step, [], rfl, horder hsize⟩
    · rw [recordedFor_concat_self, h.absent c.root hnone hsize]
      rfl
  · obtain ⟨first, rest, hsteps, hfirst⟩ := h.ingest c.root chain hget
    have hshort : (recordedFor c.root calls).length < maxChainDepth := by
      rw [EvidenceChain.depth, h.steps c.root chain hget, List.length_take] at hdepth
      omega
    have hone : (recordedFor c.root calls ++ [c.step]).length ≤ maxChainDepth := by
      rw [List.length_append]
      exact hshort
    rw [heq]
    apply h.stored hsize
    · refine ⟨first, rest ++ [c.step], ?_, hfirst⟩
      simp only [hsteps, List.cons_append]
    · rw [recordedFor_concat_self, List.take_of_length_le hone, h.steps c.root chain hget,
        List.take_of_length_le hshort.le]

theorem holds_of_inOrder {calls : List StepCall} (h : StepsMeet recordStep InOrder fresh calls) :
    Holds calls (run calls) := by
  induction calls using List.reverseRecOn with
  | nil => exact holds_fresh
  | append_singleton calls c ih =>
    rw [stepsMeet_concat] at h
    rw [run, List.foldl_append]
    exact holds_recordStep (sound_run calls) (ih h.1) h.2

theorem complete_of_inOrder {codecs : JsonCodecs} (hcodecs : codecs.Lossless) {calls : List StepCall}
    (h : StepsMeet recordStep InOrder fresh calls) : Complete codecs calls where
  ingest := (holds_of_inOrder h).ingest
  steps := (holds_of_inOrder h).steps
  drops := h.of_invariant (I := Sound) (fun _ c hs _ => sound_recordStep hs c) (fun _ _ hs hc => keeps_of_inOrder hs hc)
    sound_fresh
  total := (sound_run calls).total
  roundTrip _ _ _ _ htext := deserializeChain_serializeChain hcodecs htext

theorem inOrder_of_complete {codecs : JsonCodecs} {calls : List StepCall} (h : Complete codecs calls) :
    StepsMeet recordStep InOrder fresh calls := by
  rw [stepsMeet_iff_forall_concat]
  rintro pre c ⟨rest, hcalls⟩
  have hsound : Sound (run pre) := sound_run pre
  show InOrder (run pre) c
  rw [InOrder]
  cases hget : (run pre).build c.root with
  | some chain =>
    have hkeeps := stepsMeet_iff_forall_concat.1 h.drops pre c ⟨rest, hcalls⟩
    exact (keeps_iff hsound c).1 hkeeps chain hget
  | none =>
    intro hsize
    have hopened : ((run pre).recordStep c).build c.root = some (opened c) := by
      rcases recordStep_cases hsound c with ⟨hwhy, _⟩ | ⟨_, _, heq⟩ | ⟨_, chain, hchain, _⟩
      · cases hwhy with
        | inl hfull => exact absurd hsize (Nat.not_lt.2 hfull)
        | inr hchain =>
          obtain ⟨chain, hchain, _⟩ := hchain
          cases hget.symm.trans hchain
      · rw [heq, build_insert, if_pos rfl]
      · cases hget.symm.trans hchain
    obtain ⟨last, hlast, hprefix⟩ := prefix_foldl (sound_recordStep hsound c) hopened rest
    have hrun : (run calls).build c.root = some last := by
      rw [← hcalls, run, List.foldl_append, List.foldl_append]
      exact hlast
    obtain ⟨first, more, hsteps, hfirst⟩ := h.ingest c.root last hrun
    rw [hsteps] at hprefix
    have hsame : c.step = first := (List.cons_prefix_cons.1 hprefix).1
    rw [hsame]
    exact hfirst

/-- A run keeps its promises exactly when its calls come in order. -/
theorem complete_iff {codecs : JsonCodecs} (hcodecs : codecs.Lossless) (calls : List StepCall) :
    Complete codecs calls ↔ StepsMeet recordStep InOrder fresh calls :=
  ⟨inOrder_of_complete, complete_of_inOrder hcodecs⟩

/-- A chain of an ingest and one identity step. -/
def pairOfSteps : List StepCall := [.ingest "f1" (1 / 2) "seen", .identity "f1" ["f1"] "p1" (1 / 4) "same mail"]

/-- The JSON text of its chain. -/
def pairText : String :=
  "\x7b\"root_finding_id\":\"f1\",\"steps\":[" ++
  "\x7b\"step_type\":\"finding_ingest\",\"input_ids\":[],\"output_id\":\"f1\",\"confidence\":0.5," ++
  "\"reason\":\"seen\"\x7d," ++
  "\x7b\"step_type\":\"identity_stitching\",\"input_ids\":[\"f1\"],\"output_id\":\"p1\",\"confidence\":0.25," ++
  "\"reason\":\"same mail\"\x7d],\"conclusion\":null\x7d"

/-- The libraries on one chain and its text. -/
def codecsOf (c : EvidenceChain) (text : String) : JsonCodecs where
  dumps v := if dictToChain v = some c then some text else none
  encode v := if dictToChain v = some c then some text else none
  loads t := if t = text then some (chainToDict c) else none
  decode t := if t = text then some (chainToDict c) else none

theorem lossless_codecsOf (c : EvidenceChain) {text : String} (htext : text ≠ "") : (codecsOf c text).Lossless := by
  intro c' text' hwrite
  simp only [JsonCodecs.write, codecsOf, dictToChain_chainToDict, Option.or_self] at hwrite
  split at hwrite
  · next hc =>
    obtain rfl := Option.some_inj.1 hc
    obtain rfl := Option.some_inj.1 hwrite
    refine ⟨htext, ?_⟩
    simp [JsonCodecs.read, codecsOf]
  · cases hwrite

theorem complete_iff_pair :
    Complete (codecsOf ⟨"f1", pairOfSteps.map StepCall.step, none⟩ pairText) pairOfSteps ↔
      StepsMeet recordStep InOrder fresh pairOfSteps :=
  complete_iff (lossless_codecsOf _ (by decide)) pairOfSteps

/-- The first call for a root is not its ingest step. -/
theorem not_complete :
    ¬ ∀ (codecs : JsonCodecs), codecs.Lossless → ∀ calls : List StepCall, Complete codecs calls := by
  intro h
  have hcomplete := h (codecsOf ⟨"f1", pairOfSteps.map StepCall.step, none⟩ pairText) (lossless_codecsOf _ (by decide))
    [.identity "f1" ["f1"] "p1" (1 / 4) "same mail"]
  obtain ⟨first, rest, hsteps, hfirst⟩ := hcomplete.ingest "f1" _ rfl
  obtain ⟨rfl, _⟩ := List.cons.inj hsteps
  revert hfirst
  decide

end EvidenceChainBuilder

end Hledac.Knowledge
