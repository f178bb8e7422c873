import Mathlib.Data.List.Infix
import Hledac.Lib.Grouping
import Hledac.Py.Re
import Hledac.Py.Value

/-!
# The consistency verifier

`ConsistencyVerifier.check_batch` of `knowledge/consistency_verifier.py`: findings vote on entities, a source that
dissents on three is to be retracted, and so is one that the contradiction signals name too often for its number of
findings. Numbers are exact, and the counters of the verifier are left out.
-/

namespace Hledac.Knowledge.ConsistencyVerifier

open Hledac.Lib Hledac.Py

/-- `MAX_FINDINGS`; `consistency_verifier.py:57`. -/
def maxFindings : Nat := 200

/-- `MAX_SIGNALS`; `consistency_verifier.py:58`. -/
def maxSignals : Nat := 250

/-- `TRI_SOURCE_MIN_VOTES`; `consistency_verifier.py:59`. -/
def triSourceMinVotes : Nat := 3

/-- `TRI_SOURCE_MIN_SOURCES`; `consistency_verifier.py:60`. -/
def triSourceMinSources : Nat := 3

/-- `RATIO_THRESHOLD`; `consistency_verifier.py:61`. -/
def ratioThreshold : ℚ := 3 / 10

/-- The name of a source; `None` is one where a finding says so. -/
abbrev SourceId := Option String

/-- The keys of a finding that are read, `None` for one that is absent. Where `f.get` has a default, an absent key and
`None` differ. -/
structure FindingDict where
  entityValue : Option String := none
  iocValue : Option String := none
  value : Option String := none
  sourceType : Option String := none
  sourceId : Option String := none
  source : Option (Option String) := none
  confidence : Option ℚ := none
  payloadText : Option (Option String) := none
  deriving DecidableEq

/-- The attributes of a `ContradictionSignal` that are read; `contradiction_feedback.py:86-97`. -/
structure ContradictionSignal where
  engine : String
  entityValue : String := ""
  severity : ℚ := 0
  claimA : String := ""
  claimB : String := ""
  description : String := ""
  deriving DecidableEq

/-- `SourceVote`; `consistency_verifier.py:64-71`. -/
structure SourceVote where
  sourceId : SourceId
  agreementCount : Nat := 0
  dissentCount : Nat := 0
  entitiesInvolved : List String := []
  deriving DecidableEq

/-- `RetractionDecision`; `consistency_verifier.py:74-83`. -/
structure RetractionDecision where
  sourceId : SourceId
  reason : String
  dissentCount : Nat := 0
  totalClaims : Nat := 0
  ratio : ℚ := 0
  entitiesAffected : List String := []
  deriving DecidableEq

/-- A text as the left side of `or`. -/
def truthy : Option String → Option String
  | some "" => none
  | text => text

namespace FindingDict

/-- The entity of a finding, if it has one; `consistency_verifier.py:208`. -/
def entityKey (f : FindingDict) : Option String :=
  (truthy f.entityValue).or ((truthy f.iocValue).or (truthy f.value))

/-- The source of a finding; `consistency_verifier.py:264, 368`. -/
def sourceOf (f : FindingDict) : SourceId :=
  match (truthy f.sourceType).or (truthy f.sourceId) with
  | some source => some source
  | none => f.source.getD (some "unknown")

/-- The source as the key of a dictionary. -/
def sourceKey (f : FindingDict) : Option SourceId := some f.sourceOf

/-- `f.get("value") or f.get("payload_text", "")[:100]`. -/
def valueOf (f : FindingDict) : Except PyError String :=
  match truthy f.value with
  | some value => .ok value
  | none =>
    match f.payloadText with
    | none => .ok ""
    | some (some text) => .ok (takeStr 100 text)
    | some none => .error ⟨.typeError, "'NoneType' object is not subscriptable"⟩

end FindingDict

/-! ### Voting -/

/-- `_group_findings_by_entity`; `consistency_verifier.py:199-219`. -/
def groupFindingsByEntity (findings : List FindingDict) (signals : List ContradictionSignal) :
    Dict String (List FindingDict) :=
  signals.foldl (fun groups s => if s.entityValue = "" then groups else groups.setDefault s.entityValue [])
    (Dict.group FindingDict.entityKey findings)

/-- `_group_sources_for_entity`; `consistency_verifier.py:257-267`. -/
def groupSourcesForEntity (entityFindings : List FindingDict) : Dict SourceId (List FindingDict) :=
  Dict.group FindingDict.sourceKey entityFindings

/-- `_find_majority_source`, none where there is no source; `consistency_verifier.py:269-274`. -/
def findMajoritySource (entitySources : Dict SourceId (List FindingDict)) : Option SourceId :=
  (entitySources.entries.argmax fun e => e.2.length).map Prod.fst

/-- `_record_agreement`; `consistency_verifier.py:276-286`. -/
def recordAgreement (sourceId : SourceId) (entityKey : String) (votes : Dict SourceId SourceVote) :
    Dict SourceId SourceVote :=
  let vote := (votes.get? sourceId).getD { sourceId }
  votes.insert sourceId { vote with
    agreementCount := vote.agreementCount + 1
    entitiesInvolved := vote.entitiesInvolved ++ [entityKey] }

/-- `_record_dissent`; `consistency_verifier.py:288-298`. -/
def recordDissent (sourceId : SourceId) (entityKey : String) (votes : Dict SourceId SourceVote) :
    Dict SourceId SourceVote :=
  let vote := (votes.get? sourceId).getD { sourceId }
  votes.insert sourceId { vote with
    dissentCount := vote.dissentCount + 1
    entitiesInvolved := vote.entitiesInvolved ++ [entityKey] }

/-- The mean of the confidences, for the test for divergence. -/
def mean (xs : List ℚ) : ℚ := xs.sum / xs.length

/-- A signal that counts against everyone on the entity. -/
def mentions (entityKey : String) (s : ContradictionSignal) : Bool :=
  decide (entityKey.toList <:+: s.entityValue.toList) && decide (1 / 2 ≤ s.severity)

/-- `_check_entity_contradiction`; `consistency_verifier.py:393-433`. -/
def checkEntityContradiction (majorityFindings dissenterFindings : List FindingDict)
    (signals : List ContradictionSignal) (entityKey : String) : Except PyError Bool :=
  if signals.any (mentions entityKey) then .ok true
  else
    let majorityConfs := majorityFindings.filterMap FindingDict.confidence
    let dissenterConfs := dissenterFindings.filterMap FindingDict.confidence
    if majorityConfs ≠ [] ∧ dissenterConfs ≠ [] ∧ 3 / 10 < |mean majorityConfs - mean dissenterConfs| then .ok true
    else do
      let majorityValues ← majorityFindings.mapM FindingDict.valueOf
      let dissenterValues ← dissenterFindings.mapM FindingDict.valueOf
      return majorityValues ≠ [] && dissenterValues ≠ [] && majorityValues.all fun v => !dissenterValues.contains v

/-- The body of the loop of `_vote_on_entity`; `consistency_verifier.py:247-255`. -/
def voteOnSource (entityKey : String) (majoritySource : SourceId) (majorityFindings : List FindingDict)
    (signals : List ContradictionSignal) (votes : Dict SourceId SourceVote) (e : SourceId × List FindingDict) :
    Except PyError (Dict SourceId SourceVote) := do
  if e.1 = majoritySource then return recordAgreement e.1 entityKey votes
  else if ← checkEntityContradiction majorityFindings e.2 signals entityKey then
    return recordDissent e.1 entityKey votes
  else return votes

/-- `_vote_on_entity`; `consistency_verifier.py:233-255`. -/
def voteOnEntity (signals : List ContradictionSignal) (votes : Dict SourceId SourceVote)
    (e : String × List FindingDict) : Except PyError (Dict SourceId SourceVote) :=
  let entitySources := groupSourcesForEntity e.2
  if entitySources.size < triSourceMinSources then .ok votes
  else
    match findMajoritySource entitySources with
    | none => .error ⟨.valueError, "max() iterable argument is empty"⟩
    | some majoritySource =>
      let majorityFindings := (entitySources.get? majoritySource).getD []
      entitySources.entries.foldlM (voteOnSource e.1 majoritySource majorityFindings signals) votes

/-- `_process_entity_groups`; `consistency_verifier.py:221-231`. -/
def processEntityGroups (entityGroups : Dict String (List FindingDict)) (signals : List ContradictionSignal) :
    Except PyError (Dict SourceId SourceVote) :=
  entityGroups.entries.foldlM (voteOnEntity signals) .empty

/-- `n / total if total > 0 else 0.0`. -/
def ratioOf (n total : Nat) : ℚ := if 0 < total then n / total else 0

/-- A record of `_build_retraction_decisions`, if the source has dissented enough. -/
def retraction? (e : SourceId × SourceVote) : Option RetractionDecision :=
  let (sourceId, vote) := e
  if triSourceMinVotes ≤ vote.dissentCount then
    let total := vote.agreementCount + vote.dissentCount
    some {
      sourceId
      reason := "tri_source_voting"
      dissentCount := vote.dissentCount
      totalClaims := total
      ratio := roundTo 3 (ratioOf vote.dissentCount total)
      entitiesAffected := vote.entitiesInvolved.take 20 }
  else none

/-- `_build_retraction_decisions`; `consistency_verifier.py:300-322`. -/
def buildRetractionDecisions (votes : Dict SourceId SourceVote) : List RetractionDecision :=
  votes.entries.filterMap retraction?

/-- `_tri_source_voting`; `consistency_verifier.py:175-197`. -/
def triSourceVoting (findings : List FindingDict) (signals : List ContradictionSignal) :
    Except PyError (List RetractionDecision) :=
  if findings.length < triSourceMinSources then .ok []
  else buildRetractionDecisions <$> processEntityGroups (groupFindingsByEntity findings signals) signals

/-! ### The ratio -/

section Ratio

variable (u : Re.CharClasses)

/-- The characters of a source name. -/
def nameChars : Regex Char := Re.many1 (Re.set [Re.letter, Re.asciiDigit, Re.among "_-."])

/-- `["\']?`. -/
def quoteMark : Regex Char := Re.optional (Re.set [Re.among "\"'"])

/-- The patterns of `_extract_source_from_claim`; `consistency_verifier.py:450-454`. -/
def sourcePatterns : List (Capture Char) := [
  ⟨Re.concat [Re.text "source", Re.many1 (Re.set [Re.among ":", u.isSpace]), quoteMark], nameChars, quoteMark⟩,
  ⟨Re.concat [Re.text "from", Re.many1 u.space, quoteMark], nameChars,
    Re.concat [quoteMark, Re.many1 u.space, Re.text "source"]⟩,
  ⟨Re.concat [Re.text "by", Re.many1 u.space, quoteMark], nameChars, quoteMark⟩]

/-- `_extract_source_from_claim`; `consistency_verifier.py:435-461`. -/
def extractSourceFromClaim (claim : String) : Option String :=
  if claim = "" then none else (sourcePatterns u).findSome? fun p => Re.searchGroup p claim

/-- The source that a signal counts against, if any; `consistency_verifier.py:341-364`. -/
def signalSource (s : ContradictionSignal) : Option SourceId :=
  let found :=
    if s.engine = "adversarial" then
      (truthy (extractSourceFromClaim u s.claimA)).or (extractSourceFromClaim u s.claimB)
    else if s.engine = "insight" then extractSourceFromClaim u s.claimA
    else if s.engine = "dempster_shafer" then none
    else if s.engine = "evidence_network" then extractSourceFromClaim u s.description
    else if s.engine = "graph_rag" then extractSourceFromClaim u s.description
    else none
  (truthy found).map some

/-- A record of `_source_reliability_ratio`, if the source is contradicted enough; `consistency_verifier.py:371-389`. -/
def overRatio? (totals : Dict SourceId Nat) (e : SourceId × Nat) : Option RetractionDecision :=
  let (sourceId, contradictionCount) := e
  if contradictionCount < triSourceMinVotes then none
  else
    let total := (totals.get? sourceId).getD contradictionCount
    if ratioThreshold < ratioOf contradictionCount total then
      some {
        sourceId
        reason := "ratio_threshold"
        dissentCount := contradictionCount
        totalClaims := total
        ratio := roundTo 3 (ratioOf contradictionCount total) }
    else none

/-- `_source_reliability_ratio`; `consistency_verifier.py:324-391`. -/
def sourceReliabilityRatio (findings : List FindingDict) (signals : List ContradictionSignal) :
    List RetractionDecision :=
  let totals := Dict.tally FindingDict.sourceKey findings
  (Dict.tally (signalSource u) signals).entries.filterMap (overRatio? totals)

/-- `check_batch`; `consistency_verifier.py:103-173`. -/
def checkBatch (findings : List FindingDict) (signals : List ContradictionSignal) : List RetractionDecision :=
  let findings := findings.take maxFindings
  let signals := signals.take maxSignals
  if findings = [] ∨ signals = [] then []
  else
    match triSourceVoting findings signals with
    | .error _ => []
    | .ok decisions =>
      decisions ++ (sourceReliabilityRatio u findings signals).filter fun d =>
        !(decisions.map RetractionDecision.sourceId).contains d.sourceId

end Ratio

end Hledac.Knowledge.ConsistencyVerifier
