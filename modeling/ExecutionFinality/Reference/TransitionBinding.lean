import ExecutionFinality.Library.PointUpdates
import ExecutionFinality.Reference.ProtectedRuns

/-! When the transition behind an accepted act was made for that act. -/
namespace ExecutionFinality
open Platform
open Function (update)

namespace ProtectedRun
variable {pf : Platform} {s s' : ProtectedRun} {a : ProtectedCall} {store : EvidenceStore} {sink : FinalitySink}
  {p : CandidateAct} {cap : Capability} {now : Int} {proof : Option PresentationProof} {d : PyStr}

/-- Every stored transition was made by a call of the log and is stored under its identifier. -/
def TransitionsLogged (s : ProtectedRun) : Prop :=
  ∀ id t, s.state.transitions id = some t → t.transitionId = id ∧ ∃ x ∈ s.log, x.transition = t

theorem TransitionsLogged.step (h : TransitionsLogged s) (hs : ProtectedStep pf s a s') : TransitionsLogged s' := by
  cases hs with
  | refuse hr =>
    intro id t ht
    rw [(ProtectedState.transitionForAuthorization_error hr).2] at ht
    exact h id t ht
  | snapshot b =>
    intro id t ht
    rw [ProtectedState.snapshot,ProtectedState.getSource_transitions] at ht
    exact h id t ht
  | configureSource => exact h
  | @reserve c cost t' state hr =>
    obtain ⟨_,_,_,htransitions⟩ := ProtectedState.transitionForAuthorization_ok hr
    intro id t ht
    dsimp only at ht ⊢
    rw [htransitions] at ht
    rcases update_cases ht with ⟨rfl,hv⟩ | ⟨_,ht⟩
    · cases hv
      exact ⟨rfl,_,List.mem_append_right _ (List.mem_singleton.mpr rfl),rfl⟩
    · obtain ⟨heq,x,hx,hxt⟩ := h id t ht
      exact ⟨heq,x,List.mem_append_left _ hx,hxt⟩

/-- The stored transition of an accepted capability was made for the accepted act exactly when
the transition with the digest of the act hashes to its identifier. -/
theorem accepted_transition_iff (hcollision : pf.NoCollision) (hnfc : pf.nfc.FixesAscii)
    (h : Machine.Reaches (machine pf) (fun _ _ => True) s)
    (hv : sink.verify pf store s.state p cap now proof = .ok d) :
    (∃ x ∈ s.log, s.state.transitions cap.transitionId = some x.transition ∧
      x.candidate.digest pf = p.digest pf) ↔
    ∃ t, s.state.transitions cap.transitionId = some t ∧
      pf.sha256Hex (.fields .dict (ProtectedState.transitionCore t cap.candidateDigest)) = .ok cap.transitionId := by
  have hp := (FinalitySink.verify_eq_ok.mp hv).1.candidateDigest
  have hstored : TransitionsLogged s := h.invariant {
    init := fun _ hs _ _ ht => by simp [hs.2.2.1] at ht
    step := fun _ _ _ _ hi _ hs => hi.step hs }
  have hlog : LogRecorded pf s := h.invariant {
    init := fun _ hs _ hx => by simp [hs.2.2.2] at hx
    step := fun _ _ _ _ hi _ hs => hi.step hs }
  constructor
  · rintro ⟨x,hx,ht,hdigest⟩
    obtain ⟨e,he,hid⟩ := (hlog x hx).1.transitionId
    cases Except.ok.inj (he.symm.trans (hdigest.trans hp))
    exact ⟨x.transition,ht,(hstored _ _ ht).1 ▸ hid⟩
  · rintro ⟨t,ht,hid⟩
    obtain ⟨heq,x,hx,rfl⟩ := hstored _ _ ht
    obtain ⟨e',he',hid'⟩ := (hlog x hx).1.transitionId
    have hdigest : e' = cap.candidateDigest := ProtectedState.digest_eq_of_transitionId hcollision hnfc
      (isHex_of_sha256Hex he') (isHex_of_sha256Hex hp) (heq ▸ hid') hid
    exact ⟨x,hx,ht,he'.trans (hdigest ▸ hp.symm)⟩

/-- The sample call of `transition_for_authorization`, on the act that is then authorized -/
private theorem exists_sampleRun : ∃ cap state store t, sampleAuthority.authorize samplePlatform sampleState
      sampleEvidenceStore (sampleAct (py "n") .none) 1 200 = (.ok cap,state,store) ∧
    Machine.Reaches (machine samplePlatform) (fun _ _ => True) ⟨state,[⟨sampleAct (py "n") .none,1,t,
      (sampleState.snapshot (py "agent")).1,(state.snapshot (py "agent")).1⟩]⟩ ∧
    ProtectedState.Reserves samplePlatform (sampleAct (py "n") .none) t ∧
    state.nonces (py "n") = some t.transitionId ∧ state.transitions t.transitionId = some t := by
  obtain ⟨cap,state,store,hauth⟩ := exists_sample_authorize "n"
  obtain ⟨_,t,_,_,ht,_⟩ := ProtectedAuthority.authorize_eq_ok.mp hauth
  obtain ⟨_,hr,hnonces,htransitions⟩ := ProtectedState.transitionForAuthorization_ok ht
  have h0 : Machine.Reaches (machine samplePlatform) (fun _ _ => True) ⟨sampleState,[]⟩ :=
    .init ⟨fun _ => rfl,fun _ => rfl,fun _ => rfl,rfl⟩
  refine ⟨cap,state,store,t,hauth,h0.step trivial (ProtectedStep.reserve ht),hr,?_,?_⟩
  · rw [hnonces]
    exact Function.update_self ..
  · rw [htransitions]
    exact Function.update_self ..

theorem accepted_transition_sample : ∃ (s : ProtectedRun) (cap : Capability) (store : EvidenceStore) (d : PyStr),
    (sampleSink sampleAuthority.authenticator none false).verify samplePlatform store s.state
      (sampleAct (py "n") .none) cap 300 none = .ok d ∧
    ∃ x ∈ s.log, s.state.transitions cap.transitionId = some x.transition ∧
      x.candidate.digest samplePlatform = (sampleAct (py "n") .none).digest samplePlatform := by
  obtain ⟨cap,state,store,t,hauth,hreach,hr,_,ht⟩ := exists_sampleRun
  obtain ⟨_,t',_,_,ht',_,_,hcap⟩ := ProtectedAuthority.authorize_eq_ok.mp hauth
  have hv : (sampleSink sampleAuthority.authenticator none false).verify samplePlatform store state
      (sampleAct (py "n") .none) cap 300 none = .ok cap.descriptorDigest :=
    sample_verify (Authenticator.signer_paired _ _).trusts hauth
  obtain ⟨_,hr',_,htransitions⟩ := ProtectedState.transitionForAuthorization_ok ht'
  obtain ⟨e,he,hid⟩ := hr'.transitionId
  refine ⟨⟨state,_⟩,cap,store,_,hv,(accepted_transition_iff samplePlatform_noCollision sampleNfc_fixesAscii hreach
    hv).mpr ⟨t',?_,?_⟩⟩
  · rw [htransitions,hcap.transitionId]
    exact Function.update_self ..
  · cases Except.ok.inj (he.symm.trans hcap.candidateDigest)
    exact hcap.transitionId ▸ hid

/-- Evidence and a capability that the authority key signs for another act with the nonce, source
and epoch of a reserved one are accepted on the transition of the reserved act. -/
theorem accepted_transition_of_another_act : ∃ (s : ProtectedRun) (t : StateTransition) (e : ValidationEvidence)
    (cap : Capability) (store : EvidenceStore) (d : PyStr),
    Machine.Reaches (machine samplePlatform) (fun _ _ => True) s ∧
    sampleEvidenceStore.commit samplePlatform e = .ok store ∧
    (sampleSink sampleAuthority.authenticator none false).verify samplePlatform store s.state
      (sampleAct (py "n") (.bool true)) cap 300 none = .ok d ∧
    s.state.transitions cap.transitionId = some t ∧
    ¬ ∃ x ∈ s.log, s.state.transitions cap.transitionId = some x.transition ∧
      x.candidate.digest samplePlatform = (sampleAct (py "n") (.bool true)).digest samplePlatform := by
  obtain ⟨cap₀,state,store₀,t,hauth,hreach,hr,hnonce,ht⟩ := exists_sampleRun
  have hadmissible := sampleAct_admissible (py "n") (.bool true) (py_isText _) ⟨_,rfl⟩
  obtain ⟨_,_,hid⟩ := hr.transitionId
  have hidt : t.transitionId.IsText := (isHex_of_sha256Hex hid).scalars
  obtain ⟨d,hd,hda⟩ := HCAD.accepts sampleNfc_fixesAscii hadmissible.accepted none none (by simp) (by simp)
  obtain ⟨e,he⟩ := exists_evidence sampleNfc_fixesAscii hda hadmissible.accepted hidt hadmissible.authorityId
    hadmissible.keyId hadmissible.canSign hadmissible.nowPrints
  obtain ⟨cap,hcap⟩ := exists_capability sampleNfc_fixesAscii hda hadmissible.accepted hidt
    (isHex_of_sha256Hex he.evidenceId).scalars hadmissible.authorityId hadmissible.keyId hadmissible.canSign
    hadmissible.nowPrints hadmissible.expiresPrints
  have hserves : Serves samplePlatform sampleAuthority (sampleSink sampleAuthority.authenticator none false)
      (sampleAct (py "n") (.bool true)) := sampleSink_serves (Authenticator.signer_paired _ _).trusts _ _
  have hcommit : sampleEvidenceStore.commit samplePlatform e = .ok { sampleEvidenceStore with
      records := update sampleEvidenceStore.records e.evidenceId (some e) } :=
    EvidenceStore.commit_eq_ok.mpr ⟨rfl,he.keyId ▸ hadmissible.trusts _ _ he.signature,rfl,rfl⟩
  have htransition : state.verifyTransition t.transitionId (sampleAct (py "n") (.bool true)) = true :=
    ProtectedState.verifyTransition_eq_true.mpr
      ⟨t,ht,hr.nonce,hr.source,hr.policyEpoch,hr.version,hr.quota,hr.budget,hnonce⟩
  have hverified : FinalitySink.Verified samplePlatform (sampleSink sampleAuthority.authenticator none false)
      { sampleEvidenceStore with records := update sampleEvidenceStore.records e.evidenceId (some e) } state
      (sampleAct (py "n") (.bool true)) cap 300 none := made_verified hd rfl he hcap (Function.update_self ..)
    htransition hserves rfl (show (200 : Int) - 1000000000 ≤ 300 by decide) (sample_expires hcap (by decide)) (by rintro ⟨⟩)
  refine ⟨⟨state,_⟩,t,e,cap,_,_,hreach,hcommit,FinalitySink.verify_eq_ok.mpr ⟨hverified,rfl⟩,hcap.transitionId ▸ ht,?_⟩
  rintro ⟨x,hx,_,hdigest⟩
  cases List.mem_singleton.mp hx
  obtain ⟨e',he',_⟩ := hr.transitionId
  have hsame := samplePlatform_noCollision.sameNormal he' (hdigest ▸ he')
  obtain ⟨j,hj,hj'⟩ := hsame.value "payload" (v := .none) (w := .bool true) (by simp [CandidateAct.fields,sampleAct])
    (by simp [CandidateAct.fields,sampleAct])
  cases PyVal.normal_iff.mpr hj
  cases (show (.ok (.bool true) : Except Exn Json) = .ok .null from hj')

end ProtectedRun
end ExecutionFinality
