import ExecutionFinality.Reference.System

/-! The sequential `authorize` and `effectuate` are runs of the system. -/
namespace ExecutionFinality
open Function (update)
open FinalitySink (Commits)

namespace System
variable {D : Deployment} {allowed : System → Action → Prop} {s : System} {k : Nat}

/-- The system after a call of `authorize` that returned. -/
def afterAuthorize (s : System) (D : Deployment) (k : Nat) (c : CandidateAct) (e : ValidationEvidence)
    (cap : Capability) (state : ProtectedState) (evidence : EvidenceStore) : System :=
  { s with
    state,evidence
    signed := D.signs D.authority.authenticator (.capability cap)
      (D.signs D.authority.authenticator (.evidence e) s.signed)
    authorizing := update s.authorizing k (.returned c e cap) }

@[simp] theorem afterAuthorize_authorizing {c : CandidateAct} {e : ValidationEvidence} {cap : Capability}
    {state : ProtectedState} {evidence : EvidenceStore} :
    (s.afterAuthorize D k c e cap state evidence).authorizing k = .returned c e cap :=
  Function.update_self ..

theorem afterAuthorize_authorizing_of_ne {c : CandidateAct} {e : ValidationEvidence} {cap : Capability}
    {state : ProtectedState} {evidence : EvidenceStore} {j : Nat} (h : j ≠ k) :
    (s.afterAuthorize D k c e cap state evidence).authorizing j = s.authorizing j :=
  Function.update_of_ne h ..

/-- A call of `authorize` goes through its three phases without interruption. -/
theorem reaches_authorized {c : CandidateAct} {cost now : Int} {d : HCAD} {t : StateTransition} {e : ValidationEvidence}
    {cap : Capability} {state : ProtectedState} {evidence : EvidenceStore} (h : Machine.Reaches D.machine allowed s)
    (hk : s.authorizing k = .idle) (ha : D.authority.admission D.pf c now = .ok d)
    (ht : s.state.transitionForAuthorization D.pf c cost = (.ok t,state))
    (he : ProtectedAuthority.EvidenceFor D.pf D.authority d c t now e) (hc : s.evidence.commit D.pf e = .ok evidence)
    (hcap : ProtectedAuthority.CapabilityFor D.pf D.authority d c t e now cap)
    (hreserve : allowed s (.reserve k c cost now)) (hcommit : ∀ s, allowed s (.commitEvidence k))
    (hissue : ∀ s, allowed s (.issue k)) :
    Machine.Reaches D.machine allowed (s.afterAuthorize D k c e cap state evidence) := by
  have h1 := h.step hreserve (Step.reserve hk ha ht)
  have h2 := h1.step (hcommit _) (Step.commitEvidence (k := k) (by simp)
    (ProtectedAuthority.evidence_eq_ok.mpr he) hc)
  have h3 := h2.step (hissue _) (Step.issue (k := k) (by simp) (ProtectedAuthority.capability_eq_ok.mpr hcap))
  simpa only [afterAuthorize,Function.update_idem] using h3

theorem reaches_afterAuthorize {c : CandidateAct} {cost now : Int} {cap : Capability} {state : ProtectedState}
    {evidence : EvidenceStore} (h : Machine.Reaches D.machine allowed s) (hk : s.authorizing k = .idle)
    (hauth : D.authority.authorize D.pf s.state s.evidence c cost now = (.ok cap,state,evidence))
    (hreserve : allowed s (.reserve k c cost now)) (hcommit : ∀ s, allowed s (.commitEvidence k))
    (hissue : ∀ s, allowed s (.issue k)) :
    ∃ e, Machine.Reaches D.machine allowed (s.afterAuthorize D k c e cap state evidence) := by
  obtain ⟨d,t,e,ha,ht,he,hc,hcap⟩ := ProtectedAuthority.authorize_eq_ok.mp hauth
  exact ⟨e,reaches_authorized h hk ha ht he hc hcap hreserve hcommit hissue⟩

/-- The system after the claim of a call of `effectuate`. -/
def afterClaim (s : System) (D : Deployment) (k : Nat) (x : EffectuateArgs) : System :=
  { s with
    consumption := (D.sinks x.sink).claimed s.consumption x.cap x.now
    effectuating := update s.effectuating k (.claimed x x.cap.descriptorDigest) }

/-- The system after the commit of a call of `effectuate`. -/
def afterCommit (s : System) (D : Deployment) (k : Nat) (x : EffectuateArgs) (record : EffectRecord) : System :=
  { s with
    consumption := (D.sinks x.sink).claimed s.consumption x.cap x.now
    effectors := update s.effectors (D.boundTo x.sink) { s.effectors (D.boundTo x.sink) with
      records := (s.effectors (D.boundTo x.sink)).records ++ [record] }
    effectuating := update s.effectuating k
      (.committed x x.cap.descriptorDigest record (s.effectors (D.boundTo x.sink)).records.length) }

variable {x : EffectuateArgs} {record : EffectRecord}

theorem afterCommit_effectuating : (s.afterCommit D k x record).effectuating k =
    .committed x x.cap.descriptorDigest record (s.effectors (D.boundTo x.sink)).records.length := by
  simp only [afterCommit,Function.update_self]

theorem afterCommit_effect : ((s.afterCommit D k x record).effectuating k).effect? =
    some (x,record,(s.effectors (D.boundTo x.sink)).records.length) := by
  rw [afterCommit_effectuating]
  rfl

theorem afterCommit_effectuating_of_ne {j : Nat} (h : j ≠ k) :
    (s.afterCommit D k x record).effectuating j = s.effectuating j :=
  Function.update_of_ne h ..

theorem reaches_afterClaim (h : Machine.Reaches D.machine allowed s) (hk : s.effectuating k = .idle)
    (hc : Commits D.pf (D.sinks x.sink) s.evidence s.state s.consumption (s.effectors (D.boundTo x.sink))
      x.candidate x.cap x.now x.presentationProof record)
    (hverify : allowed s (.verify k x))
    (hclaim : allowed { s with effectuating := update s.effectuating k (.verified x x.cap.descriptorDigest) }
      (.claim k)) : Machine.Reaches D.machine allowed (s.afterClaim D k x) := by
  have h1 := h.step hverify (Step.verify hk (FinalitySink.verify_eq_ok.mpr ⟨hc.verified,rfl⟩))
  have h2 := h1.step hclaim (Step.claim (Function.update_self ..)
    (ConsumptionStore.claim_eq_ok.mpr ⟨hc.unclaimed,rfl⟩))
  simpa only [afterClaim,FinalitySink.claimed,Function.update_idem] using h2

theorem step_afterCommit
    (hc : Commits D.pf (D.sinks x.sink) s.evidence s.state s.consumption (s.effectors (D.boundTo x.sink))
      x.candidate x.cap x.now x.presentationProof record) :
    Step D (s.afterClaim D k x) (.commit k) (s.afterCommit D k x record) := by
  have hcommit := GuardedEffector.commit_ok.mpr ⟨hc.marker,hc.working,hc.record,rfl⟩
  have hs := Step.commit (D := D) (s := s.afterClaim D k x) (k := k)
    (d := x.cap.descriptorDigest) (Function.update_self ..) hcommit
  simpa only [afterClaim,afterCommit,Function.update_idem] using hs

theorem reaches_afterCommit (h : Machine.Reaches D.machine allowed s) (hk : s.effectuating k = .idle)
    (hc : Commits D.pf (D.sinks x.sink) s.evidence s.state s.consumption (s.effectors (D.boundTo x.sink))
      x.candidate x.cap x.now x.presentationProof record)
    (hverify : allowed s (.verify k x))
    (hclaim : allowed { s with effectuating := update s.effectuating k (.verified x x.cap.descriptorDigest) }
      (.claim k)) (hcommit : ∀ s, allowed s (.commit k)) :
    Machine.Reaches D.machine allowed (s.afterCommit D k x record) :=
  (reaches_afterClaim h hk hc hverify hclaim).step (hcommit _) (step_afterCommit hc)

end System

/-- The sample authority with a plain sink 0 and strict sinks elsewhere, all bound to
one effector. -/
def sampleDeployment : Deployment where
  pf := samplePlatform
  authority := sampleAuthority
  sinks i := sampleSink sampleAuthority.authenticator none (i ≠ 0)
  boundTo _ := 0
  presenters _ := samplePresenter

def sampleSystem : System where
  state := sampleState
  evidence := sampleEvidenceStore
  consumption := {}
  effectors _ := sampleEffector
  authorizing _ := .idle
  effectuating _ := .idle
  signed := []

theorem sampleSystem_initial : sampleSystem.Initial where
  nonces _ := rfl
  transitions _ := rfl
  evidence _ := rfl
  claims _ := rfl
  records _ := rfl
  authorizing _ := rfl
  effectuating _ := rfl
  signed := rfl

def sampleArgs (cap : Capability) : EffectuateArgs := ⟨0,sampleAct (py "n") .none,cap,300,none⟩

/-- The system after the sample act was authorized and took effect. -/
def sampleEffective (e : ValidationEvidence) (cap : Capability) (state : ProtectedState) (store : EvidenceStore)
    (record : EffectRecord) : System :=
  (sampleSystem.afterAuthorize sampleDeployment 0 (sampleAct (py "n") .none) e cap state store).afterCommit
    sampleDeployment 0 (sampleArgs cap) record

section
variable {e : ValidationEvidence} {cap : Capability} {state : ProtectedState} {store : EvidenceStore}

theorem sampleEffective_effectors {record : EffectRecord} : (sampleEffective e cap state store record).effectors 0 =
    { sampleEffector with records := [record] } := by
  simp [sampleEffective,System.afterCommit,sampleArgs,System.afterAuthorize,sampleSystem,sampleDeployment,sampleEffector]

theorem sampleEffective_unclaimed (record : EffectRecord) {id : PyStr} (h : id ≠ cap.capabilityId) :
    (sampleEffective e cap state store record).consumption.claims id = none := by
  simp [sampleEffective,System.afterCommit,FinalitySink.claimed,sampleArgs,System.afterAuthorize,sampleSystem,
    Function.update_of_ne h]

theorem sampleEffective_effect {record : EffectRecord} : ((sampleEffective e cap state store record).effectuating 0).effect? =
    some (sampleArgs cap,record,0) :=
  System.afterCommit_effect

end

theorem sample_reaches_effect (allowed : System → Action → Prop)
    (hreserve : allowed sampleSystem (.reserve 0 (sampleAct (py "n") .none) 1 200))
    (hevidence : ∀ s, allowed s (.commitEvidence 0)) (hissue : ∀ s, allowed s (.issue 0))
    (hverify : ∀ s x, (VerKey.ed25519 [1],Artifact.capability x.cap) ∈ s.signed →
      samplePlatform.Accepts x.cap.unsigned → allowed s (.verify 0 x))
    (hclaim : ∀ s, (∀ id, s.consumption.claims id = none) → allowed s (.claim 0))
    (hcommit : ∀ s, allowed s (.commit 0)) :
    ∃ e cap state store record, sampleAuthority.authorize samplePlatform sampleState sampleEvidenceStore
        (sampleAct (py "n") .none) 1 200 = (.ok cap,state,store) ∧
      Commits samplePlatform (sampleSink sampleAuthority.authenticator none false) store state {} sampleEffector
        (sampleAct (py "n") .none) cap 300 none record ∧
      Machine.Reaches sampleDeployment.machine allowed (sampleEffective e cap state store record) := by
  obtain ⟨cap,state,store,record,hauth,hc⟩ := FinalitySink.sample_commits sampleAuthority.authenticator none
    (py "n") .none .none (Authenticator.Paired.trusts (Authenticator.signer_paired _ _))
    (py_isText _) ⟨_,rfl⟩ rfl
  have h0 : Machine.Reaches sampleDeployment.machine allowed sampleSystem := .init sampleSystem_initial
  obtain ⟨e,h1⟩ := System.reaches_afterAuthorize h0 (k := 0) rfl hauth hreserve hevidence hissue
  have h2 := System.reaches_afterCommit h1 (k := 0) (x := sampleArgs cap) rfl hc
    (hverify _ _ (List.mem_cons_self ..) (Authenticator.verify_eq_true hc.verified.signature).2)
    (hclaim _ fun _ => rfl) hcommit
  exact ⟨e,cap,state,store,record,hauth,hc,h2⟩

end ExecutionFinality
