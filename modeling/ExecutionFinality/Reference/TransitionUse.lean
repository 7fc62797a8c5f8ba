import ExecutionFinality.Reference.SequentialRuns
import ExecutionFinality.Reference.SystemInvariants

/-! When a protected-state transition yields at most one effect, with an adversary who
signs capabilities of its own under the authority key. -/
namespace ExecutionFinality
open FinalitySink (Commits)
open Function (update)
open Platform

/-- A claim is made for a transition only when the store holds no claim for it under
another capability identifier; the nonce of a claim tells its transition. -/
def TransitionUnspent (s : System) : Action → Prop
  | .claim k => ∀ x d, s.effectuating k = .verified x d → ∀ id sinkId boundaryId nonce t,
    s.consumption.claims id = some (sinkId,boundaryId,nonce,t) →
      s.state.nonces nonce = some x.cap.transitionId → id = x.cap.capabilityId
  | _ => True

variable {D : Deployment} {allowed : System → Action → Prop} {s s' : System}

/-- The nonce of a verified capability is entered for the transition it names. -/
def NoncesNamed (s : System) : Prop :=
  ∀ k x, (s.effectuating k).args? = some x → s.state.nonces x.cap.nonce = some x.cap.transitionId

theorem noncesNamed_preserved : Machine.Preserved D.machine allowed NoncesNamed where
  init s h := fun k _ hk => by simp [h.effectuating,Effectuating.args?] at hk
  step := by
    intro s a s' _ h _ hs k x hk
    rcases hs.args?_cases hk with hk | ⟨_,hv⟩
    · exact hs.nonces (h k x hk)
    · obtain ⟨_,_,_,_,_,_,_,_,hn⟩ := ProtectedState.verifyTransition_eq_true.mp hv.transition
      exact hs.nonces (hv.nonce ▸ hn)

/-- No two calls claim for one transition. -/
def ClaimsDistinct (s : System) : Prop :=
  ∀ j k x y, (s.effectuating j).claim? = some x → (s.effectuating k).claim? = some y →
    x.cap.transitionId = y.cap.transitionId → j = k

theorem claimsDistinct_preserved : Machine.Preserved D.machine TransitionUnspent ClaimsDistinct where
  init s h := fun j _ _ _ hj => by simp [h.effectuating,Effectuating.claim?] at hj
  step := by
    intro s a s' hr h hunspent hs j k x y hj hk ht
    -- A claim already made for this transition carries this capability's identifier.
    have fresh {j k : Nat} {x y : EffectuateArgs} {d : PyStr} (hunspent : TransitionUnspent s (.claim k))
        (hj : (s.effectuating j).claim? = some x) (hk : s.effectuating k = .verified y d)
        (hfree : s.consumption.claims y.cap.capabilityId = none) : x.cap.transitionId ≠ y.cap.transitionId := by
      intro ht
      have hclaim := hr.invariant claimsMatch_preserved j x hj
      have hnonce := hr.invariant noncesNamed_preserved j x (Effectuating.args?_of_claim? hj)
      rw [hunspent y d hk _ _ _ _ _ hclaim (ht ▸ hnonce),hfree] at hclaim
      cases hclaim
    rcases hs.claim?_cases hj with hj | ⟨rfl,_,hj,hjfree,_⟩ <;> rcases hs.claim?_cases hk with hk | ⟨hjk,_,hk,hkfree,_⟩
    · exact h j k x y hj hk ht
    · exact absurd ht (fresh (hjk ▸ hunspent) hj hk hkfree)
    · exact absurd ht.symm (fresh hunspent hk hj hjfree)
    · cases hjk
      rfl

/-- While no claim is made for a spent transition, a transition yields one effect. -/
theorem transition_effect_unique (h : Machine.Reaches D.machine TransitionUnspent s) {j k : Nat}
    {x y : EffectuateArgs} {r q : EffectRecord} {i l : Nat} (hj : (s.effectuating j).effect? = some (x,r,i))
    (hk : (s.effectuating k).effect? = some (y,q,l)) (ht : x.cap.transitionId = y.cap.transitionId) : j = k :=
  h.invariant claimsDistinct_preserved j k x y (Effectuating.claim?_of_effect? hj)
    (Effectuating.claim?_of_effect? hk) ht

theorem transitionId_ne {pf : Platform} (hcollision : pf.NoCollision) {state state' next next' : ProtectedState}
    {c c' : CandidateAct} {cost cost' : Int} {t t' : StateTransition}
    (ht : state.transitionForAuthorization pf c cost = (.ok t,next))
    (ht' : state'.transitionForAuthorization pf c' cost' = (.ok t',next'))
    (hnonce : ¬ SameText pf.nfc c.nonce c'.nonce) : t.transitionId ≠ t'.transitionId := by
  intro hid
  obtain ⟨_,hr,_⟩ := ProtectedState.transitionForAuthorization_ok ht
  obtain ⟨_,hr',_⟩ := ProtectedState.transitionForAuthorization_ok ht'
  obtain ⟨_,_,hsha⟩ := hr.transitionId
  obtain ⟨_,_,hsha'⟩ := hr'.transitionId
  have hsame := ProtectedState.sameText_of_transitionId hcollision (hid ▸ hsha) hsha'
  rw [hr.nonce,hr'.nonce] at hsame
  exact hnonce hsame

/-- Two acts take effect, whose transitions the theorem tells apart. -/
theorem transition_effect_unique_sample : ∃ (s : System) (x y : EffectuateArgs) (r q : EffectRecord),
    Machine.Reaches sampleDeployment.machine TransitionUnspent s ∧
    (s.effectuating 0).effect? = some (x,r,0) ∧ (s.effectuating 1).effect? = some (y,q,1) ∧
    x.cap.transitionId ≠ y.cap.transitionId := by
  obtain ⟨e,cap,state,store,record,hauth,_,h⟩ := sample_reaches_effect TransitionUnspent trivial (fun _ => trivial)
    (fun _ => trivial) (fun _ _ _ _ => trivial) (fun s hnone x d _ id _ _ _ _ hid => by simp [hnone] at hid)
    (fun _ => trivial)
  obtain ⟨cap',state',store',hauth'⟩ := exists_sample_authorize_next (show py "m" ≠ py "n" by decide) (py_isText _) hauth
  obtain ⟨_,t,_,_,htr,_,_,hcap⟩ := ProtectedAuthority.authorize_eq_ok.mp hauth
  obtain ⟨_,t',_,_,htr',_,_,hcap'⟩ := ProtectedAuthority.authorize_eq_ok.mp hauth'
  obtain ⟨record',hrecord'⟩ := sampleEffector_newRecord
    (sampleAct_accepted (py "m") .none (py_isText _) ⟨_,rfl⟩) [record] (show 1 < 10^9 by decide)
  obtain ⟨e',h1⟩ := System.reaches_afterAuthorize h (k := 1) rfl hauth' trivial (fun _ => trivial) (fun _ => trivial)
  let s := (sampleEffective e cap state store record).afterAuthorize sampleDeployment 1 (sampleAct (py "m") .none) e' cap'
    state' store'
  let y : EffectuateArgs := ⟨0,sampleAct (py "m") .none,cap',300,none⟩
  have hids : cap'.capabilityId ≠ cap.capabilityId :=
    hcap'.capabilityId_ne samplePlatform_noCollision hcap (by decide)
  have hc : Commits samplePlatform (sampleSink sampleAuthority.authenticator none false) store' state' s.consumption
      (s.effectors 0) (sampleAct (py "m") .none) cap' 300 none record' := by
    change Commits _ _ _ _ _ ((sampleEffective e cap state store record).effectors 0) _ _ _ _ _
    rw [sampleEffective_effectors]
    exact ⟨sample_verified (Authenticator.signer_paired _ _).trusts hauth' (by decide) (by decide) rfl,
      sampleEffective_unclaimed record hids,rfl,rfl,hrecord'⟩
  have hunspent : TransitionUnspent
      { s with effectuating := update s.effectuating 1 (.verified y y.cap.descriptorDigest) } (.claim 1) := by
    intro x d hx id sinkId boundaryId nonce claimedAt hclaim hnonce
    change update s.effectuating 1 _ 1 = _ at hx
    rw [Function.update_self] at hx
    cases hx
    by_cases hid : id = cap.capabilityId
    · -- The one claim is for the first act, whose transition is another one.
      have hfirst : s.consumption.claims cap.capabilityId = some (py "sink",py "boundary",cap.nonce,300) :=
        Function.update_self ..
      rw [hid,hfirst] at hclaim
      cases hclaim
      obtain ⟨_,_,hnonces,_⟩ := ProtectedState.transitionForAuthorization_ok htr
      obtain ⟨_,_,hnonces',_⟩ := ProtectedState.transitionForAuthorization_ok htr'
      change state'.nonces cap.nonce = some cap'.transitionId at hnonce
      rw [hcap.nonce,hcap'.transitionId,hnonces',Function.update_of_ne (by decide),hnonces,Function.update_self] at hnonce
      exact absurd (Option.some.inj hnonce) (transitionId_ne samplePlatform_noCollision htr htr' (by decide))
    · exact absurd ((sampleEffective_unclaimed record hid).symm.trans hclaim) nofun
  have h2 := System.reaches_afterCommit h1 (k := 1) (x := y) rfl hc trivial hunspent fun _ => trivial
  have hfirst : ((s.afterCommit sampleDeployment 1 y record').effectuating 0).effect? = some (sampleArgs cap,record,0) := by
    rw [System.afterCommit_effectuating_of_ne (by decide)]
    exact sampleEffective_effect
  have hsecond : ((s.afterCommit sampleDeployment 1 y record').effectuating 1).effect? = some (y,record',1) := by
    rw [System.afterCommit_effect]
    change some (y,record',((sampleEffective e cap state store record).effectors 0).records.length) = _
    rw [sampleEffective_effectors]
    rfl
  exact ⟨_,sampleArgs cap,y,record,record',h2,hfirst,hsecond,fun ht =>
    absurd (transition_effect_unique h2 hfirst hsecond ht) (by decide)⟩

/-- Nothing in `verify` ties the capability identifier to what it identifies: under any
other identifier, signed anew, the capability verifies as before. -/
theorem FinalitySink.Verified.reidentified {pf : Platform} {sink : FinalitySink} {evidence : EvidenceStore}
    {state : ProtectedState} {c : CandidateAct} {cap : Capability} {now : Int} {id signature : PyStr}
    (h : Verified pf sink evidence state c cap now none)
    (hs : sink.authenticator.verify pf { cap with capabilityId := id }.unsigned signature cap.keyId = .ok true) :
    Verified pf sink evidence state c { cap with capabilityId := id,signature } now none := by
  obtain ⟨e,he,h1,h2,h3,h4,h5,h6,h7⟩ := h.evidence
  exact {
    status := h.status
    effectClass := h.effectClass
    candidateSink := h.candidateSink
    capSink := h.capSink
    candidateBoundary := h.candidateBoundary
    capBoundary := h.capBoundary
    candidateEpoch := h.candidateEpoch
    capEpoch := h.capEpoch
    scope := h.scope
    supported := h.supported
    nonce := h.nonce
    issued := h.issued
    expires := h.expires
    outlives := h.outlives
    signature := hs
    presentation := fun hreq => by
      obtain ⟨_,_,hp,_⟩ := h.presentation hreq
      cases hp
    candidateDigest := h.candidateDigest
    descriptorDigest := h.descriptorDigest
    evidence := ⟨e,he,⟨h1,h2,h3,h4,h5,h6,h7⟩⟩
    transition := h.transition }

private theorem not_isHex_K : ¬ IsHex (py "K") := by
  rintro ⟨b,hb⟩
  have hK : 'K' ∈ hexChars b := PyStr.ofChars_injective hb ▸ List.mem_singleton.mpr rfl
  obtain ⟨d,hd,he⟩ := digit_of_mem_hexChars hK
  have digit : ∀ d < 16, 'K' ≠ Nat.digitChar d := by decide
  exact digit d hd he

private theorem exists_resignature {pf : Platform} {a : Authenticator} (cap : Capability)
    (hkey : cap.keyId = a.keyId) (hpaired : a.Paired pf) (hsign : a.CanSign) (haccepts : pf.Accepts cap.unsigned) :
    ∃ signature, a.sign pf cap.unsigned = .ok signature ∧
      a.verify pf cap.unsigned signature cap.keyId = .ok true := by
  obtain ⟨signature,h⟩ := Authenticator.exists_sign.mpr ⟨hsign,haccepts⟩
  rw [hkey]
  exact ⟨signature,h,Authenticator.verify_sign hpaired h⟩

/-- A re-signed capability under an identifier of the adversary spends the transition
a second time. -/
theorem transition_effect_counterexample : ∃ (s : System) (x y : EffectuateArgs) (r q : EffectRecord),
    Machine.Reaches sampleDeployment.machine (fun _ _ => True) s ∧
    (s.effectuating 0).effect? = some (x,r,0) ∧ (s.effectuating 1).effect? = some (y,q,1) ∧
    x.cap.transitionId = y.cap.transitionId ∧ s.state.transitions x.cap.transitionId ≠ none := by
  obtain ⟨e,cap,state,store,record,hauth,hc,h⟩ := sample_reaches_effect (fun _ _ => True) trivial
    (fun _ => trivial) (fun _ => trivial) (fun _ _ _ _ => trivial) (fun _ _ => trivial) (fun _ => trivial)
  obtain ⟨_,_,_,_,_,_,_,hcap⟩ := ProtectedAuthority.authorize_eq_ok.mp hauth
  have haccepts : samplePlatform.Accepts { cap with capabilityId := py "K" }.unsigned :=
    (Capability.accepts_iff sampleNfc_fixesAscii).mpr ⟨py_isText _,
      ((Capability.accepts_iff sampleNfc_fixesAscii).mp (Authenticator.verify_eq_true hc.verified.signature).2).2⟩
  obtain ⟨signature,hsign,hverify⟩ := exists_resignature (a := sampleAuthority.authenticator)
    { cap with capabilityId := py "K" } hcap.keyId (Authenticator.signer_paired _ _)
    (fun _ _ => (nomatch ·)) haccepts
  obtain ⟨record',hrecord'⟩ := sampleEffector_newRecord
    (sampleAct_accepted (py "n") .none (py_isText _) ⟨_,rfl⟩) [record] (show 1 < 10^9 by decide)
  have hne : py "K" ≠ cap.capabilityId := fun he => not_isHex_K (he ▸ isHex_of_sha256Hex hcap.capabilityId)
  let x : EffectuateArgs := ⟨0,sampleAct (py "n") .none,{ cap with capabilityId := py "K",signature },300,none⟩
  have hc' : Commits samplePlatform (sampleSink sampleAuthority.authenticator none false) store state
      (sampleEffective e cap state store record).consumption ((sampleEffective e cap state store record).effectors 0)
      x.candidate x.cap 300 none record' := by
    rw [sampleEffective_effectors]
    exact ⟨hc.verified.reidentified hverify,sampleEffective_unclaimed record hne,rfl,rfl,hrecord'⟩
  have h1 := h.step trivial (Step.resign (a := sampleAuthority.authenticator)
    (m := .capability { cap with capabilityId := py "K" }) hsign)
  have h2 := System.reaches_afterCommit h1 (k := 1) (x := x) rfl hc' trivial trivial fun _ => trivial
  obtain ⟨t,ht,_⟩ := ProtectedState.verifyTransition_eq_true.mp hc.verified.transition
  refine ⟨_,sampleArgs cap,x,record,record',h2,?_,?_,rfl,fun hnone => ?_⟩
  · rw [System.afterCommit_effectuating_of_ne (by decide)]
    exact sampleEffective_effect
  · rw [System.afterCommit_effect]
    change some (x,record',((sampleEffective e cap state store record).effectors 0).records.length) = _
    rw [sampleEffective_effectors]
    rfl
  · change state.transitions cap.transitionId = none at hnone
    rw [ht] at hnone
    cases hnone

end ExecutionFinality
