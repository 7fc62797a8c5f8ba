import ExecutionFinality.Reference.Authority
import ExecutionFinality.Reference.Effectors

/-! `sink.py`: verification of an act and its capability, the claim, the effect and
the receipt. -/
namespace ExecutionFinality

/-- The stores a sink refers to are passed to its methods; `marker` is the one of the
handle it was given. -/
structure FinalitySink where
  context : SinkContext
  authenticator : Authenticator
  marker : Nat
  maxClockSkewNs : Int := 1000000000
  receiptAuthenticator? : Option Authenticator := none
  presenterVerifier : Option PresenterVerifierRegistry := none
  requirePresentationProof : Bool := false
  presentationFreshnessNs : Int := 2000000000

/-- `dict.get` -/
def PyVal.get? (es : List (PyKey × PyVal)) (key : PyStr) : Option PyVal :=
  (es.find? fun e => match e.1 with | .str s => s = key | _ => false).map Prod.snd

/-- `authority_context.get("presenter_key_id")`, when it is a string -/
def CandidateAct.presenterKeyId? (c : CandidateAct) : Option PyStr :=
  match PyVal.get? c.authorityContext (py "presenter_key_id") with
  | some (.text _ s) => some s
  | _ => none

namespace FinalitySink

/-- `receipt_authenticator or authenticator` -/
def receiptAuthenticator (s : FinalitySink) : Authenticator := s.receiptAuthenticator?.getD s.authenticator

/-- `self._fail(message)` under its condition -/
def failUnless (good : Prop) [Decidable good] (message : String) : Except Exn Unit :=
  failIf (¬ good) (.verificationFailed (py message))

/-- The branch of `verify` under `require_presentation_proof` -/
def verifyPresentation (pf : Platform) (s : FinalitySink) (candidate : CandidateAct) (cap : Capability)
    (now : Int) (presentationProof : Option PresentationProof) : Except Exn Unit :=
  if s.requirePresentationProof then
    match presentationProof,s.presenterVerifier with
    | some proof,some registry => do
      failUnless (candidate.presenterKeyId? = some proof.presenterKeyId) "presenter_binding_mismatch"
      failUnless (proof.capabilityId = cap.capabilityId) "presentation_capability_mismatch"
      failUnless (proof.candidateDigest = (← candidate.digest pf)) "presentation_candidate_mismatch"
      failUnless (proof.sinkId = s.context.sinkId ∧ proof.boundaryId = s.context.boundaryId)
        "presentation_sink_boundary_mismatch"
      failUnless (proof.nonce = candidate.nonce) "presentation_nonce_mismatch"
      failUnless (|now - proof.presentedAtNs| ≤ s.presentationFreshnessNs) "presentation_stale"
      failUnless ((← registry.verify pf proof) = true) "presentation_signature_invalid"
    | _,_ => .error (.verificationFailed (py "presentation_proof_required"))
  else .ok ()

/-- The evidence checks of `verify` -/
def verifyEvidence (pf : Platform) (s : FinalitySink) (evidenceStore : EvidenceStore) (cap : Capability) :
    Except Exn Unit :=
  match evidenceStore.records cap.evidenceId with
  | none => .error (.verificationFailed (py "validation_evidence_missing"))
  | some evidence => do
    failUnless ((← s.authenticator.verify pf evidence.unsigned evidence.signature evidence.keyId) = true)
      "validation_evidence_signature_invalid"
    failUnless (evidence.decision = .allow) "validation_evidence_not_allow"
    failUnless (evidence.authorityId = cap.authorityId) "authority_binding_mismatch"
    failUnless (evidence.candidateDigest = cap.candidateDigest) "evidence_candidate_mismatch"
    failUnless (evidence.descriptorDigest = cap.descriptorDigest) "evidence_descriptor_mismatch"
    failUnless (evidence.transitionId = cap.transitionId) "evidence_transition_mismatch"
    failUnless (evidence.policyEpoch = cap.policyEpoch) "evidence_epoch_mismatch"

def verify (pf : Platform) (s : FinalitySink) (evidenceStore : EvidenceStore)
    (protectedState : ProtectedState) (candidate : CandidateAct) (cap : Capability) (now : Int)
    (presentationProof : Option PresentationProof) : Except Exn PyStr := do
  failUnless (candidate.status = .nonEffective) "candidate_not_non_effective"
  failUnless (candidate.effectClass = s.context.effectClass) "effect_class_mismatch"
  failUnless (candidate.sinkId = s.context.sinkId ∧ cap.sinkId = s.context.sinkId) "sink_binding_mismatch"
  failUnless (candidate.boundaryId = s.context.boundaryId ∧ cap.boundaryId = s.context.boundaryId)
    "boundary_binding_mismatch"
  failUnless (candidate.policyEpoch = s.context.policyEpoch ∧ cap.policyEpoch = s.context.policyEpoch)
    "policy_epoch_mismatch"
  failUnless (candidate.scope = cap.scope) "scope_binding_mismatch"
  failUnless (∀ x ∈ cap.scope, x ∈ s.context.supportedScopes) "scope_not_supported_by_sink"
  failUnless (cap.nonce = candidate.nonce) "nonce_binding_mismatch"
  failUnless (cap.issuedAtNs - s.maxClockSkewNs ≤ now) "capability_from_future"
  failUnless (now ≤ cap.expiresAtNs) "capability_expired"
  failUnless (cap.expiresAtNs ≤ candidate.issuedAtNs + candidate.freshnessNs) "capability_outlives_candidate"
  failUnless ((← s.authenticator.verify pf cap.unsigned cap.signature cap.keyId) = true)
    "capability_signature_invalid"
  s.verifyPresentation pf candidate cap now presentationProof
  failUnless (cap.candidateDigest = (← candidate.digest pf)) "candidate_digest_mismatch"
  let localDescriptor ← buildHcad pf candidate (some s.context.sinkId) (some s.context.boundaryId)
  failUnless (cap.descriptorDigest = (← localDescriptor.digest pf)) "descriptor_digest_mismatch"
  s.verifyEvidence pf evidenceStore cap
  failUnless (protectedState.verifyTransition cap.transitionId candidate = true)
    "protected_state_transition_invalid"
  localDescriptor.digest pf

/-- The receipt of `effectuate` for a committed record -/
def receipt (pf : Platform) (s : FinalitySink) (candidate : CandidateAct) (cap : Capability)
    (descriptorDigest : PyStr) (record : EffectRecord) (now : Int) : Except Exn SinkReceipt := do
  let core : SinkReceipt := {
    receiptId := []
    capabilityId := cap.capabilityId
    candidateDigest := ← candidate.digest pf
    descriptorDigest := descriptorDigest
    sinkId := s.context.sinkId
    boundaryId := s.context.boundaryId
    transitionId := cap.transitionId
    scope := cap.scope
    effectStatus := py "EFFECTIVE"
    committedAtNs := now
    effectReference := some record.effectReference
    signature := []
    keyId := s.receiptAuthenticator.keyId }
  let r := { core with receiptId := ← pf.sha256Hex (.fields .dict core.core) }
  return { r with signature := ← s.receiptAuthenticator.sign pf r.unsigned }

/-- The claim is made before the effect and stays when the effect fails. -/
def effectuate (pf : Platform) (s : FinalitySink) (evidenceStore : EvidenceStore)
    (protectedState : ProtectedState) (consumptionStore : ConsumptionStore) (effector : GuardedEffector)
    (candidate : CandidateAct) (cap : Capability) (now : Int) (presentationProof : Option PresentationProof) :
    Except Exn SinkReceipt × ConsumptionStore × GuardedEffector :=
  match s.verify pf evidenceStore protectedState candidate cap now presentationProof with
  | .error e => (.error e,consumptionStore,effector)
  | .ok descriptorDigest =>
    match consumptionStore.claim cap.capabilityId s.context.sinkId s.context.boundaryId cap.nonce now with
    | .error e => (.error e,consumptionStore,effector)
    | .ok consumptionStore =>
      match effector.commit pf candidate s.marker with
      | (.error exc,effector) => (.error (.effectDenied exc.str),consumptionStore,effector)
      | (.ok record,effector) =>
        (s.receipt pf candidate cap descriptorDigest record now,consumptionStore,effector)

theorem failUnless_eq_ok {good : Prop} [Decidable good] {message : String} {u : Unit} :
    failUnless good message = .ok u ↔ good := by
  rw [failUnless,CheckChains.failIf_eq_ok,not_not]

variable {pf : Platform} {s : FinalitySink} {evidenceStore : EvidenceStore} {protectedState : ProtectedState}
  {candidate : CandidateAct} {cap : Capability} {now : Int} {presentationProof : Option PresentationProof}

/-- A proof that `verify` accepts under `require_presentation_proof`. -/
structure Presented (pf : Platform) (s : FinalitySink) (candidate : CandidateAct) (cap : Capability)
    (now : Int) (proof : PresentationProof) (registry : PresenterVerifierRegistry) : Prop where
  presenter : candidate.presenterKeyId? = some proof.presenterKeyId
  capabilityId : proof.capabilityId = cap.capabilityId
  candidateDigest : candidate.digest pf = .ok proof.candidateDigest
  sinkId : proof.sinkId = s.context.sinkId
  boundaryId : proof.boundaryId = s.context.boundaryId
  nonce : proof.nonce = candidate.nonce
  fresh : |now - proof.presentedAtNs| ≤ s.presentationFreshnessNs
  signature : registry.verify pf proof = .ok true

/-- Evidence that `verify` accepts for a capability. -/
structure Supports (pf : Platform) (s : FinalitySink) (cap : Capability) (evidence : ValidationEvidence) :
    Prop where
  signature : s.authenticator.verify pf evidence.unsigned evidence.signature evidence.keyId = .ok true
  decision : evidence.decision = .allow
  authorityId : evidence.authorityId = cap.authorityId
  candidateDigest : evidence.candidateDigest = cap.candidateDigest
  descriptorDigest : evidence.descriptorDigest = cap.descriptorDigest
  transitionId : evidence.transitionId = cap.transitionId
  policyEpoch : evidence.policyEpoch = cap.policyEpoch

/-- Everything that `verify` checks. -/
structure Verified (pf : Platform) (s : FinalitySink) (evidenceStore : EvidenceStore)
    (protectedState : ProtectedState) (candidate : CandidateAct) (cap : Capability) (now : Int)
    (presentationProof : Option PresentationProof) : Prop where
  status : candidate.status = .nonEffective
  effectClass : candidate.effectClass = s.context.effectClass
  candidateSink : candidate.sinkId = s.context.sinkId
  capSink : cap.sinkId = s.context.sinkId
  candidateBoundary : candidate.boundaryId = s.context.boundaryId
  capBoundary : cap.boundaryId = s.context.boundaryId
  candidateEpoch : candidate.policyEpoch = s.context.policyEpoch
  capEpoch : cap.policyEpoch = s.context.policyEpoch
  scope : candidate.scope = cap.scope
  supported : ∀ x ∈ cap.scope, x ∈ s.context.supportedScopes
  nonce : cap.nonce = candidate.nonce
  issued : cap.issuedAtNs - s.maxClockSkewNs ≤ now
  expires : now ≤ cap.expiresAtNs
  outlives : cap.expiresAtNs ≤ candidate.issuedAtNs + candidate.freshnessNs
  signature : s.authenticator.verify pf cap.unsigned cap.signature cap.keyId = .ok true
  presentation : s.requirePresentationProof = true → ∃ proof registry, presentationProof = some proof ∧
    s.presenterVerifier = some registry ∧ Presented pf s candidate cap now proof registry
  candidateDigest : candidate.digest pf = .ok cap.candidateDigest
  descriptorDigest : ∃ d, buildHcad pf candidate (some s.context.sinkId) (some s.context.boundaryId) = .ok d ∧
    d.digest pf = .ok cap.descriptorDigest
  evidence : ∃ e, evidenceStore.records cap.evidenceId = some e ∧ Supports pf s cap e
  transition : protectedState.verifyTransition cap.transitionId candidate = true

theorem verifyPresentation_eq_ok {u : Unit} : s.verifyPresentation pf candidate cap now presentationProof = .ok u ↔
    (s.requirePresentationProof = true → ∃ proof registry, presentationProof = some proof ∧
      s.presenterVerifier = some registry ∧ Presented pf s candidate cap now proof registry) := by
  unfold verifyPresentation
  split
  · rename_i hreq
    rw [hreq]
    split
    · rename_i proof registry hr
      simp only [CheckChains.bind_eq_ok,failUnless_eq_ok,exists_const,hr]
      constructor
      · rintro ⟨h1,h2,_,h3,rfl,⟨h4,h5⟩,h6,h7,b,h8,rfl⟩ -
        exact ⟨proof,registry,rfl,rfl,h1,h2,h3,h4,h5,h6,h7,h8⟩
      · intro h
        obtain ⟨proof',registry',hp,hr',h1,h2,h3,h4,h5,h6,h7,h8⟩ := h trivial
        cases hp
        cases hr'
        exact ⟨h1,h2,_,h3,rfl,⟨h4,h5⟩,h6,h7,true,h8,rfl⟩
    · rename_i hno
      constructor
      · rintro ⟨⟩
      · intro h
        obtain ⟨proof,registry,rfl,hr,_⟩ := h rfl
        exact absurd hr (hno proof registry rfl)
  · rename_i hreq
    exact ⟨fun _ h => absurd h hreq,fun _ => rfl⟩

theorem verifyEvidence_eq_ok {u : Unit} : s.verifyEvidence pf evidenceStore cap = .ok u ↔
    ∃ e, evidenceStore.records cap.evidenceId = some e ∧ Supports pf s cap e := by
  unfold verifyEvidence
  split
  · rename_i hnone
    refine ⟨(nomatch ·),fun ⟨e,he,_⟩ => ?_⟩
    rw [hnone] at he
    cases he
  · rename_i e he
    simp only [CheckChains.bind_eq_ok,failUnless_eq_ok,exists_const,he]
    constructor
    · rintro ⟨b,h1,rfl,h2,h3,h4,h5,h6,h7⟩
      exact ⟨e,rfl,h1,h2,h3,h4,h5,h6,h7⟩
    · rintro ⟨e',he',h1,h2,h3,h4,h5,h6,h7⟩
      cases he'
      exact ⟨true,h1,rfl,h2,h3,h4,h5,h6,h7⟩

/-- `verify` accepts exactly what passes all of its checks. -/
theorem verify_eq_ok {d : PyStr} :
    s.verify pf evidenceStore protectedState candidate cap now presentationProof = .ok d ↔
      Verified pf s evidenceStore protectedState candidate cap now presentationProof ∧
        d = cap.descriptorDigest := by
  simp only [verify,CheckChains.bind_eq_ok,failUnless_eq_ok,exists_const,verifyPresentation_eq_ok,
    verifyEvidence_eq_ok]
  constructor
  · rintro ⟨h1,h2,⟨h3,h4⟩,⟨h5,h6⟩,⟨h7,h8⟩,h9,h10,h11,h12,h13,h14,b,h15,rfl,h16,
      _,h17,rfl,l,hl,_,h18,rfl,h19,h20,hd⟩
    exact ⟨⟨h1,h2,h3,h4,h5,h6,h7,h8,h9,h10,h11,h12,h13,h14,h15,h16,h17,⟨l,hl,h18⟩,h19,h20⟩,
      Except.ok.inj (hd.symm.trans h18)⟩
  · rintro ⟨⟨h1,h2,h3,h4,h5,h6,h7,h8,h9,h10,h11,h12,h13,h14,h15,h16,h17,⟨l,hl,h18⟩,h19,h20⟩,rfl⟩
    exact ⟨h1,h2,⟨h3,h4⟩,⟨h5,h6⟩,⟨h7,h8⟩,h9,h10,h11,h12,h13,h14,true,h15,rfl,h16,
      _,h17,rfl,l,hl,_,h18,rfl,h19,h20,h18⟩

end FinalitySink

end ExecutionFinality
