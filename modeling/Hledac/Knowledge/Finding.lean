import Hledac.Lib.Deque
import Hledac.Lib.Raising
import Hledac.Py.Value

/-!
# Findings and what is decided about them

The records that the store hands around, and the counters and the rejection ledger of the quality
gate. The WARC fields of a finding, its confidence and its time are left out: nothing modelled
reads them.
-/

namespace Hledac.Knowledge

open Hledac.Lib Hledac.Py

/-- `CanonicalFinding`; `knowledge/sprint_facts/canonical_finding.py:24-75`. -/
structure CanonicalFinding where
  findingId : String
  query : String
  sourceType : String
  provenance : List String := []
  payloadText : Option String := none
  deriving DecidableEq, Repr

/-- `FindingQualityDecision`; `knowledge/_quality_types.py:29-45`. -/
structure FindingQualityDecision where
  accepted : Bool
  reason : Option String
  entropy : ℚ
  normalizedHash : Option String
  duplicate : Bool
  deriving DecidableEq

/-- `ActivationResult`; `canonical_finding.py:219-241`. -/
structure ActivationResult where
  findingId : String
  lmdbSuccess : Bool
  duckdbSuccess : Option Bool
  lmdbKey : String
  desync : Bool
  error : Option String
  accepted : Bool := false
  deriving DecidableEq, Repr

/-- What the store and its gate raise; `other` is what a collaborator raises. -/
inductive StoreError where
  | valueError (message : String)
  | typeError (message : String)
  | indexError (message : String)
  | assertionError (message : String)
  | attributeError (name : String)
  | nameError (name : String)
  | other (message : String)
  deriving DecidableEq, Repr

/-- `str(error)`. -/
def StoreError.message : StoreError → String
  | valueError message | typeError message | indexError message => message
  | assertionError message | other message => message
  | attributeError name => "'DuckDBShadowStore' object has no attribute '" ++ name ++ "'"
  | nameError name => "name '" ++ name ++ "' is not defined"

/-- `text.startswith(head)`. -/
def startsWith (head text : String) : Bool := head.toList.isPrefixOf text.toList

/-- `text[n:]`. -/
def dropStr (n : Nat) (text : String) : String := String.ofList (text.toList.drop n)

/-- `finding.payload_text if finding.payload_text else finding.query`. -/
def CanonicalFinding.payloadOrQuery (f : CanonicalFinding) : String :=
  match f.payloadText with
  | some text => if text = "" then f.query else text
  | none => f.query

/-- `QualityRejectionRecord`; `knowledge/quality_assessment.py:396-415`. -/
structure QualityRejectionRecord where
  sourceFamily : String
  reason : String
  findingId : String
  urlSample : String
  deriving DecidableEq, Repr

/-- `_MAX_QUALITY_REJECTION_LEDGER`; `quality_assessment.py:456`. -/
def maxQualityRejectionLedger : Nat := 200

/-- `QualityAssessmentState`, its counters and its ledger; `quality_assessment.py:426-471`. -/
structure QualityAssessmentState where
  qualityRejectedCount : Nat := 0
  qualityDuplicateCount : Nat := 0
  qualityFailOpenCount : Nat := 0
  persistentDuplicateCount : Nat := 0
  acceptedCount : Nat := 0
  qualityRejectionLedger : Deque QualityRejectionRecord maxQualityRejectionLedger := .empty

namespace QualityAssessmentState

/-- `_extract_url_from_provenance` of the state, which reads tagged URLs as well;
`quality_assessment.py:519-538`. -/
def extractUrlFromProvenance : List String → String
  | [] => ""
  | item :: rest =>
    if startsWith "http" item then item
    else if startsWith "url:" item && startsWith "http" (dropStr 4 item) then dropStr 4 item
    else extractUrlFromProvenance rest

/-- `record_rejection`; `quality_assessment.py:473-497`. -/
def recordRejection (s : QualityAssessmentState) (finding : CanonicalFinding)
    (decision : FindingQualityDecision) : QualityAssessmentState :=
  if decision.accepted then s
  else
    let url := extractUrlFromProvenance finding.provenance
    { s with
      qualityRejectionLedger := s.qualityRejectionLedger.append
        { sourceFamily := if finding.sourceType = "" then "unknown" else finding.sourceType
          reason := match decision.reason with
            | some reason => if reason = "" then "unknown" else reason
            | none => "unknown"
          findingId := takeStr 40 finding.findingId
          urlSample := takeStr 200 (if url = "" then finding.query else url) } }

end QualityAssessmentState

end Hledac.Knowledge
