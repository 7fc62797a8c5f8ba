import ExecutionFinality.Reference.Records

/-! `models.py`: the records that are digested, signed and stored. -/
namespace ExecutionFinality
open KeyedEntries (keys)

inductive ActStatus where | nonEffective | effective
  deriving DecidableEq

def ActStatus.value : ActStatus → PyStr
  | .nonEffective => py "NON_EFFECTIVE"
  | .effective => py "EFFECTIVE"

inductive Decision where | allow | deny
  deriving DecidableEq

def Decision.value : Decision → PyStr
  | .allow => py "ALLOW"
  | .deny => py "DENY"

structure CandidateAct where
  actId : PyStr
  actClass : PyStr
  effectClass : PyStr
  source : PyStr
  destination : PyStr
  purpose : PyStr
  jurisdiction : PyStr
  policyEpoch : Int
  nonce : PyStr
  issuedAtNs : Int
  freshnessNs : Int
  sinkId : PyStr
  boundaryId : PyStr
  scope : List PyStr
  payload : PyVal
  runtimeEvidenceDigest : PyStr
  authorityContext : List (PyKey × PyVal) := []
  status : ActStatus := .nonEffective

def CandidateAct.fields (c : CandidateAct) : List (String × PyVal) :=
  [("act_id",.str c.actId),("act_class",.str c.actClass),("effect_class",.str c.effectClass),
    ("source",.str c.source),("destination",.str c.destination),("purpose",.str c.purpose),
    ("jurisdiction",.str c.jurisdiction),("policy_epoch",.int c.policyEpoch),("nonce",.str c.nonce),
    ("issued_at_ns",.int c.issuedAtNs),("freshness_ns",.int c.freshnessNs),("sink_id",.str c.sinkId),
    ("boundary_id",.str c.boundaryId),("scope",.tuple (c.scope.map .str)),("payload",c.payload),
    ("runtime_evidence_digest",.str c.runtimeEvidenceDigest),
    ("authority_context",.dict c.authorityContext),("status",.text .enum c.status.value)]

def CandidateAct.value (c : CandidateAct) : PyVal := .fields .dataclass c.fields

def CandidateAct.payloadDigest (pf : Platform) (c : CandidateAct) : Except Exn PyStr := pf.sha256Hex c.payload

def CandidateAct.digest (pf : Platform) (c : CandidateAct) : Except Exn PyStr := pf.sha256Hex c.value

structure HCAD where
  schema : PyStr
  actId : PyStr
  actClass : PyStr
  effectClass : PyStr
  source : PyStr
  destination : PyStr
  purpose : PyStr
  jurisdiction : PyStr
  policyEpoch : Int
  nonce : PyStr
  issuedAtNs : Int
  freshnessNs : Int
  sinkId : PyStr
  boundaryId : PyStr
  scope : List PyStr
  payloadDigest : PyStr
  runtimeEvidenceDigest : PyStr

def HCAD.fields (d : HCAD) : List (String × PyVal) :=
  [("schema",.str d.schema),("act_id",.str d.actId),("act_class",.str d.actClass),
    ("effect_class",.str d.effectClass),("source",.str d.source),("destination",.str d.destination),
    ("purpose",.str d.purpose),("jurisdiction",.str d.jurisdiction),("policy_epoch",.int d.policyEpoch),
    ("nonce",.str d.nonce),("issued_at_ns",.int d.issuedAtNs),("freshness_ns",.int d.freshnessNs),
    ("sink_id",.str d.sinkId),("boundary_id",.str d.boundaryId),("scope",.tuple (d.scope.map .str)),
    ("payload_digest",.str d.payloadDigest),("runtime_evidence_digest",.str d.runtimeEvidenceDigest)]

def HCAD.digest (pf : Platform) (d : HCAD) : Except Exn PyStr := pf.sha256Hex (.fields .dataclass d.fields)

structure StateTransition where
  transitionId : PyStr
  nonce : PyStr
  source : PyStr
  beforeVersion : Int
  afterVersion : Int
  quotaBefore : Int
  quotaAfter : Int
  budgetBefore : Int
  budgetAfter : Int
  policyEpoch : Int

structure ValidationEvidence where
  evidenceId : PyStr
  authorityId : PyStr
  descriptorDigest : PyStr
  candidateDigest : PyStr
  transitionId : PyStr
  policyEpoch : Int
  decision : Decision
  reasons : List PyStr
  committedAtNs : Int
  signature : PyStr
  keyId : PyStr

def ValidationEvidence.core (e : ValidationEvidence) : List (String × PyVal) :=
  [("authority_id",.str e.authorityId),("descriptor_digest",.str e.descriptorDigest),
    ("candidate_digest",.str e.candidateDigest),("transition_id",.str e.transitionId),
    ("policy_epoch",.int e.policyEpoch),("decision",.str e.decision.value),("reasons",.strs e.reasons),
    ("committed_at_ns",.int e.committedAtNs),("key_id",.str e.keyId)]

def ValidationEvidence.unsigned (e : ValidationEvidence) : PyVal :=
  .fields .dict (("evidence_id",.str e.evidenceId) :: e.core)

structure Capability where
  capabilityId : PyStr
  authorityId : PyStr
  candidateDigest : PyStr
  descriptorDigest : PyStr
  sinkId : PyStr
  boundaryId : PyStr
  nonce : PyStr
  scope : List PyStr
  policyEpoch : Int
  evidenceId : PyStr
  transitionId : PyStr
  issuedAtNs : Int
  expiresAtNs : Int
  keyId : PyStr
  signature : PyStr

def Capability.core (cap : Capability) : List (String × PyVal) :=
  [("authority_id",.str cap.authorityId),("candidate_digest",.str cap.candidateDigest),
    ("descriptor_digest",.str cap.descriptorDigest),("sink_id",.str cap.sinkId),
    ("boundary_id",.str cap.boundaryId),("nonce",.str cap.nonce),("scope",.strs cap.scope),
    ("policy_epoch",.int cap.policyEpoch),("evidence_id",.str cap.evidenceId),
    ("transition_id",.str cap.transitionId),("issued_at_ns",.int cap.issuedAtNs),
    ("expires_at_ns",.int cap.expiresAtNs),("key_id",.str cap.keyId)]

def Capability.unsigned (cap : Capability) : PyVal :=
  .fields .dict (("capability_id",.str cap.capabilityId) :: cap.core)

structure SinkContext where
  sinkId : PyStr
  boundaryId : PyStr
  policyEpoch : Int
  supportedScopes : Finset PyStr
  effectClass : PyStr

structure SinkReceipt where
  receiptId : PyStr
  capabilityId : PyStr
  candidateDigest : PyStr
  descriptorDigest : PyStr
  sinkId : PyStr
  boundaryId : PyStr
  transitionId : PyStr
  scope : List PyStr
  effectStatus : PyStr
  committedAtNs : Int
  effectReference : Option PyStr
  signature : PyStr
  keyId : PyStr

def SinkReceipt.core (r : SinkReceipt) : List (String × PyVal) :=
  [("capability_id",.str r.capabilityId),("candidate_digest",.str r.candidateDigest),
    ("descriptor_digest",.str r.descriptorDigest),("sink_id",.str r.sinkId),
    ("boundary_id",.str r.boundaryId),("transition_id",.str r.transitionId),("scope",.strs r.scope),
    ("effect_status",.str r.effectStatus),("committed_at_ns",.int r.committedAtNs),
    ("effect_reference",r.effectReference.elim .none .str),("key_id",.str r.keyId)]

def SinkReceipt.unsigned (r : SinkReceipt) : PyVal :=
  .fields .dict (("receipt_id",.str r.receiptId) :: r.core)

/-- `build_hcad`: a sink passes its own identity, the authority takes the candidate's. -/
def buildHcad (pf : Platform) (candidate : CandidateAct) (sinkId boundaryId : Option PyStr) :
    Except Exn HCAD := do
  return {
    schema := py "finality-hcad/v1"
    actId := candidate.actId
    actClass := candidate.actClass
    effectClass := candidate.effectClass
    source := candidate.source
    destination := candidate.destination
    purpose := candidate.purpose
    jurisdiction := candidate.jurisdiction
    policyEpoch := candidate.policyEpoch
    nonce := candidate.nonce
    issuedAtNs := candidate.issuedAtNs
    freshnessNs := candidate.freshnessNs
    sinkId := sinkId.getD candidate.sinkId
    boundaryId := boundaryId.getD candidate.boundaryId
    scope := candidate.scope
    payloadDigest := ← candidate.payloadDigest pf
    runtimeEvidenceDigest := candidate.runtimeEvidenceDigest }

/-! The literal keys of every record are distinct ASCII. -/

theorem CandidateAct.literalKeys (c : CandidateAct) : PyVal.LiteralKeys (keys c.fields) := by
  simp only [keys,CandidateAct.fields,List.map_cons,List.map_nil]
  decide

theorem HCAD.literalKeys (d : HCAD) : PyVal.LiteralKeys (keys d.fields) := by
  simp only [keys,HCAD.fields,List.map_cons,List.map_nil]
  decide

theorem ValidationEvidence.literalKeys (e : ValidationEvidence) :
    PyVal.LiteralKeys (keys (("evidence_id",.str e.evidenceId) :: e.core)) := by
  simp only [keys,ValidationEvidence.core,List.map_cons,List.map_nil]
  decide

theorem Capability.literalKeys (cap : Capability) :
    PyVal.LiteralKeys (keys (("capability_id",.str cap.capabilityId) :: cap.core)) := by
  simp only [keys,Capability.core,List.map_cons,List.map_nil]
  decide

theorem SinkReceipt.literalKeys (r : SinkReceipt) :
    PyVal.LiteralKeys (keys (("receipt_id",.str r.receiptId) :: r.core)) := by
  simp only [keys,SinkReceipt.core,List.map_cons,List.map_nil]
  decide

/-! Their fields, but for the payload and the context of a candidate and the effect reference of a receipt, are plain. -/

theorem ValidationEvidence.plain (e : ValidationEvidence) : ∀ f ∈ ("evidence_id",PyVal.str e.evidenceId) :: e.core,
    f.2.Plain := by
  simp [ValidationEvidence.core,PyVal.Plain,PyVal.strs]

theorem Capability.plain (cap : Capability) : ∀ f ∈ ("capability_id",PyVal.str cap.capabilityId) :: cap.core,
    f.2.Plain := by
  simp [Capability.core,PyVal.Plain,PyVal.strs]

theorem HCAD.plain (d : HCAD) : ∀ f ∈ d.fields, f.2.Plain := by
  simp [HCAD.fields,PyVal.Plain]

end ExecutionFinality
