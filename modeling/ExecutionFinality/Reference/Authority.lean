import ExecutionFinality.Reference.Crypto
import ExecutionFinality.Reference.State

/-! `policy.py`, `evidence.py` and `authority.py`. -/
namespace ExecutionFinality
open Function (update)

structure Policy where
  policyEpoch : Int
  allowedPurposes : Finset PyStr
  allowedJurisdictions : Finset PyStr
  allowedSinks : Finset PyStr
  allowedBoundaries : Finset PyStr
  allowedEffectClasses : Finset PyStr
  allowedScopes : Finset PyStr
  revokedSources : Finset PyStr := ∅
  requiredRuntimeEvidenceDigest : Option PyStr := none
  maxFutureSkewNs : Int := 1000000000

/-- The checks of `validate` in their order, each with the reason a failure adds. -/
def Policy.checks (p : Policy) (c : CandidateAct) (nowNs : Int) : List (Bool × String) :=
  [(c.status ≠ .nonEffective,"candidate_not_non_effective"),
    (c.policyEpoch ≠ p.policyEpoch,"policy_epoch_mismatch"),
    (c.purpose ∉ p.allowedPurposes,"purpose_not_allowed"),
    (c.jurisdiction ∉ p.allowedJurisdictions,"jurisdiction_not_allowed"),
    (c.sinkId ∉ p.allowedSinks,"sink_not_allowed"),
    (c.boundaryId ∉ p.allowedBoundaries,"boundary_not_allowed"),
    (c.effectClass ∉ p.allowedEffectClasses,"effect_class_not_allowed"),
    (c.scope = [],"empty_scope"),
    (¬ ∀ s ∈ c.scope, s ∈ p.allowedScopes,"scope_not_allowed"),
    (c.scope.toFinset.card ≠ c.scope.length,"duplicate_scope"),
    (c.source ∈ p.revokedSources,"source_revoked"),
    (c.freshnessNs ≤ 0,"invalid_freshness"),
    (nowNs < c.issuedAtNs - p.maxFutureSkewNs,"candidate_from_future"),
    (nowNs > c.issuedAtNs + c.freshnessNs,"candidate_stale"),
    (p.requiredRuntimeEvidenceDigest.any (c.runtimeEvidenceDigest ≠ ·),"runtime_evidence_mismatch")]

def Policy.validate (p : Policy) (c : CandidateAct) (nowNs : Int) : Bool × List PyStr :=
  let reasons := (p.checks c nowNs).filterMap fun (failed,reason) => if failed then some (py reason) else none
  (reasons.isEmpty,reasons)

structure EvidenceStore where
  authenticator : Authenticator
  records : PyStr → Option ValidationEvidence := fun _ => none
  failCommits : Bool := false

namespace EvidenceStore

def commit (pf : Platform) (store : EvidenceStore) (e : ValidationEvidence) : Except Exn EvidenceStore := do
  failIf (store.failCommits = true) (.evidenceError (py "evidence commit failure injected"))
  failIf ((← store.authenticator.verify pf e.unsigned e.signature e.keyId) = false)
    (.evidenceError (py "invalid evidence signature"))
  failIf ((store.records e.evidenceId).isSome = true) (.evidenceError (py "duplicate evidence id"))
  return { store with records := update store.records e.evidenceId (some e) }

theorem commit_eq_ok {pf : Platform} {store store' : EvidenceStore} {e : ValidationEvidence} :
    store.commit pf e = .ok store' ↔ store.failCommits = false ∧
      store.authenticator.verify pf e.unsigned e.signature e.keyId = .ok true ∧
      store.records e.evidenceId = none ∧
      store' = { store with records := update store.records e.evidenceId (some e) } := by
  simp only [commit,CheckChains.bind_eq_ok,CheckChains.failIf_eq_ok,CheckChains.pure_eq_ok,exists_const,
    Bool.not_eq_true,Option.isSome_eq_false_iff,Option.isNone_iff_eq_none]
  constructor
  · rintro ⟨hf,b,hb,hv,hn,rfl⟩
    exact ⟨hf,by simpa [hb] using hv,hn,rfl⟩
  · rintro ⟨hf,hv,hn,rfl⟩
    exact ⟨hf,true,hv,by simp,hn,rfl⟩

end EvidenceStore

structure ProtectedAuthority where
  authorityId : PyStr
  policy : Policy
  authenticator : Authenticator
  capabilityTtlNs : Int := 5000000000

namespace ProtectedAuthority

/-- `authorize` up to the policy decision -/
def admission (pf : Platform) (a : ProtectedAuthority) (candidate : CandidateAct) (now : Int) : Except Exn HCAD := do
  let descriptor ← buildHcad pf candidate none none
  let (allowed,reasons) := a.policy.validate candidate now
  failIf (allowed = false) (.validationDenied ((py ",").intercalate reasons))
  return descriptor

/-- The signed evidence of `authorize` -/
def evidence (pf : Platform) (a : ProtectedAuthority) (descriptor : HCAD) (candidate : CandidateAct)
    (transition : StateTransition) (now : Int) : Except Exn ValidationEvidence := do
  let core : ValidationEvidence := {
    evidenceId := []
    authorityId := a.authorityId
    descriptorDigest := ← descriptor.digest pf
    candidateDigest := ← candidate.digest pf
    transitionId := transition.transitionId
    policyEpoch := candidate.policyEpoch
    decision := .allow
    reasons := []
    committedAtNs := now
    signature := []
    keyId := a.authenticator.keyId }
  let e := { core with evidenceId := ← pf.sha256Hex (.fields .dict core.core) }
  return { e with signature := ← a.authenticator.sign pf e.unsigned }

/-- The capability that `authorize` returns -/
def capability (pf : Platform) (a : ProtectedAuthority) (descriptor : HCAD) (candidate : CandidateAct)
    (transition : StateTransition) (e : ValidationEvidence) (now : Int) : Except Exn Capability := do
  let core : Capability := {
    capabilityId := []
    authorityId := a.authorityId
    candidateDigest := ← candidate.digest pf
    descriptorDigest := ← descriptor.digest pf
    sinkId := candidate.sinkId
    boundaryId := candidate.boundaryId
    nonce := candidate.nonce
    scope := candidate.scope
    policyEpoch := candidate.policyEpoch
    evidenceId := e.evidenceId
    transitionId := transition.transitionId
    issuedAtNs := now
    expiresAtNs := min (candidate.issuedAtNs + candidate.freshnessNs) (now + a.capabilityTtlNs)
    keyId := a.authenticator.keyId
    signature := [] }
  let cap := { core with capabilityId := ← pf.sha256Hex (.fields .dict core.core) }
  return { cap with signature := ← a.authenticator.sign pf cap.unsigned }

/-- The protected state advances before the evidence and the capability exist, and
stays advanced when one of these fails. -/
def authorize (pf : Platform) (a : ProtectedAuthority) (state : ProtectedState) (store : EvidenceStore)
    (candidate : CandidateAct) (cost now : Int) : Except Exn Capability × ProtectedState × EvidenceStore :=
  match a.admission pf candidate now with
  | .error e => (.error e,state,store)
  | .ok descriptor =>
    match state.transitionForAuthorization pf candidate cost with
    | (.error e,state) => (.error e,state,store)
    | (.ok transition,state) =>
      match a.evidence pf descriptor candidate transition now with
      | .error e => (.error e,state,store)
      | .ok evidence =>
        match store.commit pf evidence with
        | .error e => (.error e,state,store)
        | .ok store => (a.capability pf descriptor candidate transition evidence now,state,store)

/-- Evidence as `authorize` makes it. -/
structure EvidenceFor (pf : Platform) (a : ProtectedAuthority) (descriptor : HCAD) (candidate : CandidateAct)
    (transition : StateTransition) (now : Int) (e : ValidationEvidence) : Prop where
  authorityId : e.authorityId = a.authorityId
  descriptorDigest : descriptor.digest pf = .ok e.descriptorDigest
  candidateDigest : candidate.digest pf = .ok e.candidateDigest
  transitionId : e.transitionId = transition.transitionId
  policyEpoch : e.policyEpoch = candidate.policyEpoch
  decision : e.decision = .allow
  reasons : e.reasons = []
  committedAtNs : e.committedAtNs = now
  keyId : e.keyId = a.authenticator.keyId
  evidenceId : pf.sha256Hex (.fields .dict e.core) = .ok e.evidenceId
  signature : a.authenticator.sign pf e.unsigned = .ok e.signature

/-- A capability as `authorize` makes it. -/
structure CapabilityFor (pf : Platform) (a : ProtectedAuthority) (descriptor : HCAD) (candidate : CandidateAct)
    (transition : StateTransition) (e : ValidationEvidence) (now : Int) (cap : Capability) : Prop where
  authorityId : cap.authorityId = a.authorityId
  candidateDigest : candidate.digest pf = .ok cap.candidateDigest
  descriptorDigest : descriptor.digest pf = .ok cap.descriptorDigest
  sinkId : cap.sinkId = candidate.sinkId
  boundaryId : cap.boundaryId = candidate.boundaryId
  nonce : cap.nonce = candidate.nonce
  scope : cap.scope = candidate.scope
  policyEpoch : cap.policyEpoch = candidate.policyEpoch
  evidenceId : cap.evidenceId = e.evidenceId
  transitionId : cap.transitionId = transition.transitionId
  issuedAtNs : cap.issuedAtNs = now
  expiresAtNs : cap.expiresAtNs = min (candidate.issuedAtNs + candidate.freshnessNs) (now + a.capabilityTtlNs)
  keyId : cap.keyId = a.authenticator.keyId
  capabilityId : pf.sha256Hex (.fields .dict cap.core) = .ok cap.capabilityId
  signature : a.authenticator.sign pf cap.unsigned = .ok cap.signature

variable {pf : Platform} {a : ProtectedAuthority} {descriptor : HCAD} {candidate : CandidateAct}
  {transition : StateTransition} {e : ValidationEvidence} {cap : Capability} {now : Int}

theorem evidence_eq_ok : a.evidence pf descriptor candidate transition now = .ok e ↔
    EvidenceFor pf a descriptor candidate transition now e := by
  simp only [evidence,CheckChains.bind_eq_ok,CheckChains.pure_eq_ok]
  constructor
  · rintro ⟨d,hd,c,hc,i,hi,s,hs,rfl⟩
    exact ⟨rfl,hd,hc,rfl,rfl,rfl,rfl,rfl,rfl,hi,hs⟩
  · intro h
    obtain ⟨i,au,dd,cd,ti,pe,de,re,ca,si,ki⟩ := e
    obtain ⟨rfl,hd,hc,rfl,rfl,rfl,rfl,rfl,rfl,hi,hs⟩ := h
    exact ⟨_,hd,_,hc,_,hi,_,hs,rfl⟩

theorem capability_eq_ok : a.capability pf descriptor candidate transition e now = .ok cap ↔
    CapabilityFor pf a descriptor candidate transition e now cap := by
  simp only [capability,CheckChains.bind_eq_ok,CheckChains.pure_eq_ok]
  constructor
  · rintro ⟨c,hc,d,hd,i,hi,s,hs,rfl⟩
    exact ⟨rfl,hc,hd,rfl,rfl,rfl,rfl,rfl,rfl,rfl,rfl,rfl,rfl,hi,hs⟩
  · intro h
    obtain ⟨i,au,cd,dd,si,bi,no,sc,pe,ev,ti,ia,ea,ki,sg⟩ := cap
    obtain ⟨h1,hc,hd,h2,h3,h4,h5,h6,h7,h8,h9,h10,h11,hi,hs⟩ := h
    dsimp only at h1 h2 h3 h4 h5 h6 h7 h8 h9 h10 h11
    subst h1 h2 h3 h4 h5 h6 h7 h8 h9 h10 h11
    exact ⟨_,hc,_,hd,_,hi,_,hs,rfl⟩

theorem admission_eq_ok : a.admission pf candidate now = .ok descriptor ↔
    buildHcad pf candidate none none = .ok descriptor ∧ (a.policy.validate candidate now).1 = true := by
  simp only [admission,CheckChains.bind_eq_ok,CheckChains.failIf_eq_ok,CheckChains.pure_eq_ok,exists_const,
    Bool.not_eq_false]
  constructor
  · rintro ⟨d,hd,hp,rfl⟩
    exact ⟨hd,hp⟩
  · rintro ⟨hd,hp⟩
    exact ⟨_,hd,hp,rfl⟩

/-- The parts of a successful `authorize`. -/
theorem authorize_eq_ok {state state' : ProtectedState} {store store' : EvidenceStore} {cost : Int} :
    a.authorize pf state store candidate cost now = (.ok cap,state',store') ↔
      ∃ descriptor transition e, a.admission pf candidate now = .ok descriptor ∧
        state.transitionForAuthorization pf candidate cost = (.ok transition,state') ∧
        EvidenceFor pf a descriptor candidate transition now e ∧ store.commit pf e = .ok store' ∧
        CapabilityFor pf a descriptor candidate transition e now cap := by
  simp only [← evidence_eq_ok,← capability_eq_ok]
  constructor
  · intro h
    unfold authorize at h
    split at h
    · cases h
    rename_i d hd
    split at h
    · cases h
    rename_i t s ht
    split at h
    · cases h
    rename_i e he
    split at h
    · cases h
    rename_i store'' hs
    simp only [Prod.mk.injEq] at h
    obtain ⟨hcap,rfl,rfl⟩ := h
    exact ⟨d,t,e,hd,ht,he,hs,hcap⟩
  · rintro ⟨d,t,e,hd,ht,he,hs,hcap⟩
    simp only [authorize,hd,ht,he,hs,hcap]

/-- Evidence of different times has different identifiers. -/
theorem EvidenceFor.evidenceId_ne (hcollision : pf.NoCollision) {a' : ProtectedAuthority} {descriptor' : HCAD}
    {candidate' : CandidateAct} {transition' : StateTransition} {now' : Int} {e' : ValidationEvidence}
    (h : EvidenceFor pf a descriptor candidate transition now e)
    (h' : EvidenceFor pf a' descriptor' candidate' transition' now' e') (hnow : now ≠ now') :
    e.evidenceId ≠ e'.evidenceId := by
  intro hid
  have hsame := hcollision.sameNormal h.evidenceId (hid ▸ h'.evidenceId)
  have hat := hsame.int "committed_at_ns" (m := e.committedAtNs) (n := e'.committedAtNs)
    (by simp [ValidationEvidence.core]) (by simp [ValidationEvidence.core])
  rw [h.committedAtNs,h'.committedAtNs] at hat
  exact hnow hat

/-- Capabilities of different times have different identifiers. -/
theorem CapabilityFor.capabilityId_ne (hcollision : pf.NoCollision) {a' : ProtectedAuthority} {descriptor' : HCAD}
    {candidate' : CandidateAct} {transition' : StateTransition} {now' : Int} {e' : ValidationEvidence}
    {cap' : Capability} (h : CapabilityFor pf a descriptor candidate transition e now cap)
    (h' : CapabilityFor pf a' descriptor' candidate' transition' e' now' cap') (hnow : now ≠ now') :
    cap.capabilityId ≠ cap'.capabilityId := by
  intro hid
  have hsame := hcollision.sameNormal h.capabilityId (hid ▸ h'.capabilityId)
  have hat := hsame.int "issued_at_ns" (m := cap.issuedAtNs) (n := cap'.issuedAtNs) (by simp [Capability.core])
    (by simp [Capability.core])
  rw [h.issuedAtNs,h'.issuedAtNs] at hat
  exact hnow hat

end ProtectedAuthority
end ExecutionFinality
