import ExecutionFinality.Reference.NonceReuse
import ExecutionFinality.Reference.TransitionUse

/-! How long an issued capability is accepted, by the clock and under later activity. -/
namespace ExecutionFinality
open Function (update)
open Platform

/-- What the policy decision says about the time of admission. -/
theorem Policy.window_of_validate {p : Policy} {c : CandidateAct} {now : Int} (h : (p.validate c now).1 = true) :
    c.issuedAtNs - p.maxFutureSkewNs ≤ now ∧ now ≤ c.issuedAtNs + c.freshnessNs := by
  constructor
  · by_contra hs
    simp [Policy.validate,Policy.checks,lt_of_not_ge hs] at h
  · by_contra hs
    simp [Policy.validate,Policy.checks,lt_of_not_ge hs] at h

/-- Right after `authorize` a matching sink accepts the capability exactly in its window, in
which the time of issue lies. -/
theorem issued_window {pf : Platform} {a : ProtectedAuthority} {state state' : ProtectedState}
    {store store' : EvidenceStore} {c : CandidateAct} {cap : Capability} {cost now : Int} {s : FinalitySink}
    (h : a.authorize pf state store c cost now = (.ok cap,state',store')) (httl : 0 ≤ a.capabilityTtlNs)
    (hs : Serves pf a s c) (hproof : s.requirePresentationProof = false) :
    (∀ t proof d, s.verify pf store' state' c cap t proof = .ok d ↔
      (now - s.maxClockSkewNs ≤ t ∧ t ≤ min (c.issuedAtNs + c.freshnessNs) (now + a.capabilityTtlNs)) ∧
        d = cap.descriptorDigest) ∧
    (0 ≤ s.maxClockSkewNs →
      now - s.maxClockSkewNs ≤ now ∧ now ≤ min (c.issuedAtNs + c.freshnessNs) (now + a.capabilityTtlNs)) ∧
    c.issuedAtNs - a.policy.maxFutureSkewNs ≤ now := by
  obtain ⟨_,_,_,hadm,_,_,_,hcap⟩ := ProtectedAuthority.authorize_eq_ok.mp h
  obtain ⟨hfuture,hstale⟩ := Policy.window_of_validate (ProtectedAuthority.admission_eq_ok.mp hadm).2
  refine ⟨fun t proof d => ?_,fun hskew => ⟨by omega,le_min hstale (by omega)⟩,hfuture⟩
  rw [FinalitySink.verify_eq_ok]
  refine and_congr_left fun _ => ⟨fun hv => ⟨hcap.issuedAtNs ▸ hv.issued,hcap.expiresAtNs ▸ hv.expires⟩,?_⟩
  rintro ⟨hissued,hexpires⟩
  exact issued_verified h hs rfl hissued (hcap.expiresAtNs ▸ hexpires)
    fun hreq => absurd hreq (by rw [hproof]; decide)

/-- The sample capability of time 200 is accepted from one second before up to time 1100. -/
theorem issued_window_sample : ∃ cap state store,
    sampleAuthority.authorize samplePlatform sampleState sampleEvidenceStore (sampleAct (py "n") .none) 1 200 =
      (.ok cap,state,store) ∧
    ∀ t proof d, (sampleSink sampleAuthority.authenticator none false).verify samplePlatform store state
      (sampleAct (py "n") .none) cap t proof = .ok d ↔ (-999999800 ≤ t ∧ t ≤ 1100) ∧ d = cap.descriptorDigest := by
  obtain ⟨cap,state,store,hauth⟩ := exists_sample_authorize "n"
  exact ⟨cap,state,store,hauth,(issued_window hauth (by decide)
    (sampleSink_serves (Authenticator.signer_paired _ _).trusts _ _) rfl).1⟩

/-! The transition that a capability names is the one made for its candidate. -/

/-- The candidate of a call and the transition that it has made. -/
def Authorizing.transition? : Authorizing → Option (CandidateAct × PyStr)
  | .reserved c _ _ t | .evidenced c _ _ t _ => some (c,t.transitionId)
  | .returned c _ cap => some (c,cap.transitionId)
  | _ => none

variable {D : Deployment} {allowed : System → Action → Prop} {s s' : System}

def TransitionsMatch (D : Deployment) (s : System) : Prop :=
  ∀ k c id, (s.authorizing k).transition? = some (c,id) →
    ∃ t, ProtectedState.Reserves D.pf c t ∧ t.transitionId = id

theorem transitionsMatch_preserved : Machine.Preserved D.machine allowed (TransitionsMatch D) where
  init s h := fun k _ _ hk => by simp [h.authorizing,Authorizing.transition?] at hk
  step := by
    intro s a s' _ h _ hs
    have kept {k : Nat} {p : Authorizing} (hp : ∀ y, p.transition? = some y → (s.authorizing k).transition? = some y)
        (j : Nat) (c : CandidateAct) (id : PyStr) (hj : (update s.authorizing k p j).transition? = some (c,id)) :
        ∃ t, ProtectedState.Reserves D.pf c t ∧ t.transitionId = id := by
      rcases proj_update_cases hj with ⟨_,hv⟩ | ⟨_,hv⟩
      · exact h k c id (hp _ hv)
      · exact h j c id hv
    cases hs with
    | refuse | failEvidence => exact kept fun _ hy => (nomatch hy)
    | commitEvidence hk => exact kept fun _ hy => by rw [hk]; exact hy
    | issue hk hc =>
      apply kept
      intro _ hy
      rw [Authorizing.transition?,(ProtectedAuthority.capability_eq_ok.mp hc).transitionId] at hy
      rw [hk]
      exact hy
    | reserve hk ha ht =>
      intro j c id hj
      rcases proj_update_cases hj with ⟨_,hv⟩ | ⟨_,hv⟩
      · cases hv
        exact ⟨_,(ProtectedState.transitionForAuthorization_ok ht).2.1,rfl⟩
      · exact h j c id hv
    | _ => exact h

/-- A recorded transition is under the digest of its core with some candidate digest. -/
def TransitionsRecorded (D : Deployment) (s : System) : Prop :=
  ∀ id t, s.state.transitions id = some t →
    ∃ d, IsHex d ∧ D.pf.sha256Hex (.fields .dict (ProtectedState.transitionCore t d)) = .ok id

theorem transitionsRecorded_preserved : Machine.Preserved D.machine allowed (TransitionsRecorded D) where
  init s h := fun id t hid => by simp [h.transitions] at hid
  step := by
    intro s a s' _ h _ hs
    cases hs with
    | refuse hk ha ht =>
      intro id t hid
      rw [(ProtectedState.transitionForAuthorization_error ht).2] at hid
      exact h id t hid
    | @reserve k c cost now d t state hk ha ht =>
      intro id t' hid
      obtain ⟨_,hr,_,htransitions⟩ := ProtectedState.transitionForAuthorization_ok ht
      dsimp only at hid
      rw [htransitions] at hid
      rcases update_cases hid with ⟨rfl,ht⟩ | ⟨_,hid⟩
      · cases ht
        obtain ⟨d,hd,hsha⟩ := hr.transitionId
        exact ⟨d,isHex_of_sha256Hex hd,hsha⟩
      · exact h id t' hid
    | _ => exact h

/-- The call reserves the act of `c` once more under another spelling of its nonce, at the cost
and from the counters of its transition `t`. -/
def Repeats (pf : Platform) (c : CandidateAct) (t : StateTransition) (s : System) : Action → Prop
  | .reserve _ c' cost _ => c'.nonce ≠ c.nonce ∧ s.state.nonces c'.nonce = none ∧ pf.SameNormal c.value c'.value ∧
      (s.state.getSource c'.source).1 = ⟨t.beforeVersion,t.quotaBefore,t.budgetBefore⟩ ∧
      t.budgetAfter = t.budgetBefore - cost
  | _ => False

/-- One act reserved from the same counters at the same cost is one transition, however its
nonce and its source are spelled. -/
theorem ProtectedState.nextTransition_transitionId_eq {pf : Platform} {st : SourceState} {c c' : CandidateAct}
    {cost : Int} {t t' : StateTransition} (h : pf.SameNormal c.value c'.value)
    (ht : nextTransition pf st c cost = .ok t) (ht' : nextTransition pf st c' cost = .ok t') :
    t.transitionId = t'.transitionId := by
  simp only [nextTransition,CheckChains.bind_eq_ok,CheckChains.pure_eq_ok] at ht ht'
  obtain ⟨d,hd,i,hi,rfl⟩ := ht
  obtain ⟨d',hd',i',hi',rfl⟩ := ht'
  cases Except.ok.inj (hd.symm.trans (h.sha256Hex_eq.trans hd'))
  have field (name : String) {v w : PyVal} (hv : (name,v) ∈ c.fields) (hw : (name,w) ∈ c'.fields) :
      v.normalize pf.nfc false = w.normalize pf.nfc false := by
    obtain ⟨j,hj,hj'⟩ := h.value name hv hw
    exact hj.trans hj'.symm
  have hcore : (PyVal.fields .dict (transitionCore ⟨[],c.nonce,c.source,st.version,st.version + 1,st.quota,
      st.quota - 1,st.budget,st.budget - cost,c.policyEpoch⟩ d)).normalize pf.nfc false =
      (PyVal.fields .dict (transitionCore ⟨[],c'.nonce,c'.source,st.version,st.version + 1,st.quota,
      st.quota - 1,st.budget,st.budget - cost,c'.policyEpoch⟩ d)).normalize pf.nfc false := by
    apply PyVal.normalize_fields_congr
    simp [transitionCore,field "nonce" (v := .str c.nonce) (w := .str c'.nonce) (by simp [CandidateAct.fields])
      (by simp [CandidateAct.fields]),field "source" (v := .str c.source) (w := .str c'.source)
      (by simp [CandidateAct.fields]) (by simp [CandidateAct.fields]),field "policy_epoch" (v := .int c.policyEpoch)
      (w := .int c'.policyEpoch) (by simp [CandidateAct.fields]) (by simp [CandidateAct.fields])]
  rw [Platform.sha256Hex,Platform.canonicalBytes,hcore] at hi
  exact Except.ok.inj (hi.symm.trans hi')

/-- A step that does not repeat the act leaves its transition as it is recorded. -/
theorem Step.transitions {c : CandidateAct} {t t₀ : StateTransition} {a : Action} (hcollision : D.pf.NoCollision)
    (hnfc : D.pf.nfc.FixesAscii) (hrec : TransitionsRecorded D s) (hr : ProtectedState.Reserves D.pf c t₀)
    (hn : s.state.nonces c.nonce ≠ none) (ht : s.state.transitions t₀.transitionId = some t)
    (hno : ¬ Repeats D.pf c t s a) (hs : Step D s a s') : s'.state.transitions t₀.transitionId = some t := by
  cases hs with
  | refuse hk ha hf =>
    rw [(ProtectedState.transitionForAuthorization_error hf).2]
    exact ht
  | @reserve k c' cost now d t' state hk ha hf =>
    obtain ⟨hnew,hr',_,htransitions⟩ := ProtectedState.transitionForAuthorization_ok hf
    dsimp only
    rw [htransitions,Function.update_of_ne,ht]
    intro hid
    obtain ⟨_,_,_,_,hnext,_⟩ := ProtectedState.transitionForAuthorization_eq_ok.mp hf
    obtain ⟨hbv,hbq,hbb⟩ := ProtectedState.nextTransition_before hnext
    obtain ⟨-,-,hab⟩ := ProtectedState.nextTransition_after hnext
    obtain ⟨d₀,hd₀,hsha₀⟩ := hr.transitionId
    obtain ⟨d',hd',hsha'⟩ := hr'.transitionId
    obtain ⟨e,-,hsha⟩ := hrec _ _ ht
    rw [← hid] at hsha'
    have hsame := hcollision.sameNormal hsha hsha'
    have int (name : String) {m n : Int} (hm : (name,PyVal.int m) ∈ ProtectedState.transitionCore t e)
        (hn : (name,PyVal.int n) ∈ ProtectedState.transitionCore t' d') : m = n :=
      hsame.int name hm hn
    have hdigest : d₀ = d' := ProtectedState.digest_eq_of_transitionId hcollision hnfc (isHex_of_sha256Hex hd₀)
      (isHex_of_sha256Hex hd') hsha₀ hsha'
    refine hno ⟨?_,hnew,hcollision.sameNormal hd₀ (hdigest ▸ hd'),?_,?_⟩
    · intro he
      rw [he] at hnew
      exact hn hnew
    · have hv := int "before_version" (m := t.beforeVersion) (n := t'.beforeVersion)
        (by simp [ProtectedState.transitionCore]) (by simp [ProtectedState.transitionCore])
      have hq := int "quota_before" (m := t.quotaBefore) (n := t'.quotaBefore)
        (by simp [ProtectedState.transitionCore]) (by simp [ProtectedState.transitionCore])
      have hb := int "budget_before" (m := t.budgetBefore) (n := t'.budgetBefore)
        (by simp [ProtectedState.transitionCore]) (by simp [ProtectedState.transitionCore])
      rw [hv,hq,hb,hbv,hbq,hbb]
    · have hb := int "budget_before" (m := t.budgetBefore) (n := t'.budgetBefore)
        (by simp [ProtectedState.transitionCore]) (by simp [ProtectedState.transitionCore])
      have ha := int "budget_after" (m := t.budgetAfter) (n := t'.budgetAfter)
        (by simp [ProtectedState.transitionCore]) (by simp [ProtectedState.transitionCore])
      rw [ha,hb,hab,hbb]
  | _ => exact ht

/-- What `verify` looks up in the stores for a capability stands as it stood. -/
structure Standing (c : CandidateAct) (cap : Capability) (t : StateTransition) (s s' : System) : Prop where
  evidence : ∀ e, s.evidence.records cap.evidenceId = some e → s'.evidence.records cap.evidenceId = some e
  transition : s'.state.transitions cap.transitionId = some t
  nonce : s'.state.nonces c.nonce = some cap.transitionId

theorem Standing.verified {c : CandidateAct} {cap : Capability} {t : StateTransition} {sink : FinalitySink}
    {now : Int} {proof : Option PresentationProof} (h : Standing c cap t s s')
    (ht : s.state.transitions cap.transitionId = some t)
    (hv : sink.Verified D.pf s.evidence s.state c cap now proof) :
    sink.Verified D.pf s'.evidence s'.state c cap now proof := by
  obtain ⟨e,he,hsupports⟩ := hv.evidence
  obtain ⟨t',ht',hfields⟩ := ProtectedState.verifyTransition_eq_true.mp hv.transition
  cases ht.symm.trans ht'
  obtain ⟨h1,h2,h3,h4,h5,h6,-⟩ := hfields
  exact { hv with
    evidence := ⟨e,h.evidence e he,hsupports⟩
    transition := ProtectedState.verifyTransition_eq_true.mpr ⟨t,h.transition,h1,h2,h3,h4,h5,h6,h.nonce⟩ }

/-- While no call repeats its act under another spelling of the nonce, a returned capability
is accepted as it was right after `authorize`, whatever runs in between. -/
theorem outstanding_capability_kept (hcollision : D.pf.NoCollision) (hnfc : D.pf.nfc.FixesAscii)
    (h : Machine.Reaches D.machine (fun _ _ => True) s) {k : Nat} {c : CandidateAct} {e : ValidationEvidence}
    {cap : Capability} {tr : StateTransition} (hk : s.authorizing k = .returned c e cap) {sink : FinalitySink}
    {now : Int} {proof : Option PresentationProof} {d : PyStr}
    (hv : sink.verify D.pf s.evidence s.state c cap now proof = .ok d)
    (ht : s.state.transitions cap.transitionId = some tr)
    (h' : Machine.Reaches (D.machine.startingAt s) (fun s a => ¬ Repeats D.pf c tr s a) s') :
    sink.verify D.pf s'.evidence s'.state c cap now proof = .ok d ∧
      s'.state.transitions cap.transitionId = some tr ∧ s'.state.nonces c.nonce = some cap.transitionId := by
  obtain ⟨hverified,rfl⟩ := FinalitySink.verify_eq_ok.mp hv
  obtain ⟨_,ht₁,_,_,_,_,_,_,hn⟩ := ProtectedState.verifyTransition_eq_true.mp hverified.transition
  cases ht.symm.trans ht₁
  obtain ⟨t₀,hr,hid⟩ := h.invariant transitionsMatch_preserved k c cap.transitionId (by rw [hk]; rfl)
  have standing : Standing c cap tr s s' := by
    induction h' with
    | init h' =>
      cases h'
      exact ⟨fun _ he => he,ht,hn⟩
    | @step s₁ s₂ a h₁ ha hs ih =>
      refine ⟨fun e he => hs.evidence (ih.evidence e he),?_,?_⟩
      · have hrec := (h.append h₁).invariant transitionsRecorded_preserved
        have hkept := Step.transitions hcollision hnfc hrec hr (by rw [ih.nonce]; exact nofun)
          (hid ▸ ih.transition) ha hs
        exact hid ▸ hkept
      · exact hs.nonces ih.nonce
  exact ⟨FinalitySink.verify_eq_ok.mpr ⟨standing.verified ht hverified,rfl⟩,standing.transition,standing.nonce⟩

theorem outstanding_capability_kept_sample : ∃ (s s' : System) (e : ValidationEvidence) (cap : Capability)
    (tr : StateTransition), Machine.Reaches sampleDeployment.machine (fun _ _ => True) s ∧
    s.authorizing 0 = .returned (sampleAct (py "n") .none) e cap ∧
    s.state.transitions cap.transitionId = some tr ∧ (s'.state.getSource (py "agent")).1 = ⟨0,5,5⟩ ∧
    (sampleSink sampleAuthority.authenticator none false).verify samplePlatform s'.evidence s'.state
      (sampleAct (py "n") .none) cap 300 none = .ok cap.descriptorDigest ∧
    s'.state.transitions cap.transitionId = some tr ∧
    s'.state.nonces (py "n") = some cap.transitionId := by
  obtain ⟨cap,state,store,hauth⟩ := exists_sample_authorize "n"
  have h0 : Machine.Reaches sampleDeployment.machine (fun _ _ => True) sampleSystem := .init sampleSystem_initial
  obtain ⟨e,h1⟩ := System.reaches_afterAuthorize h0 (k := 0) rfl hauth trivial (fun _ => trivial)
    (fun _ => trivial)
  have hv : (sampleSink sampleAuthority.authenticator none false).verify samplePlatform store state
      (sampleAct (py "n") .none) cap 300 none = .ok cap.descriptorDigest :=
    sample_verify (Authenticator.signer_paired _ _).trusts hauth
  obtain ⟨tr,ht,_⟩ := ProtectedState.verifyTransition_eq_true.mp (FinalitySink.verify_eq_ok.mp hv).1.transition
  have hno (s : System) : ¬ Repeats samplePlatform (sampleAct (py "n") .none) tr s
      (.configureSource (py "agent") 5 5) := fun h => h
  have hkept := outstanding_capability_kept samplePlatform_noCollision sampleNfc_fixesAscii h1
    System.afterAuthorize_authorizing hv ht
    (Machine.reaches_of_step (hno _) (Step.configureSource (py "agent") 5 5))
  exact ⟨_,_,e,cap,tr,h1,System.afterAuthorize_authorizing,ht,by
    simp [ProtectedState.getSource,ProtectedState.configureSource],hkept⟩

/-- One act under two spellings of its nonce, from the same counters: the second
authorization overwrites the transition of the first, whose capability is refused from then on. -/
theorem outstanding_capability_lost : ∃ cap state store cap' state' store',
    sampleAuthority.authorize samplePlatform sampleState sampleEvidenceStore (sampleAct (py "K") .none) 1 200 =
      (.ok cap,state,store) ∧
    (sampleSink sampleAuthority.authenticator none false).verify samplePlatform store state
      (sampleAct (py "K") .none) cap 300 none = .ok cap.descriptorDigest ∧
    sampleAuthority.authorize samplePlatform (state.configureSource (py "agent") 1000 1000) store
      (sampleAct (py "\u212A") .none) 1 201 = (.ok cap',state',store') ∧
    ∀ d, (sampleSink sampleAuthority.authenticator none false).verify samplePlatform store' state'
      (sampleAct (py "K") .none) cap 300 none ≠ .ok d := by
  obtain ⟨cap,state,store,hauth⟩ := exists_sample_authorize "K"
  have hagent : ((state.configureSource (py "agent") 1000 1000).getSource (py "agent")).1 = ⟨0,1000,1000⟩ := by
    simp [ProtectedState.getSource,ProtectedState.configureSource]
  have hadmissible : Admissible samplePlatform sampleAuthority (state.configureSource (py "agent") 1000 1000) store
      (sampleAct (py "\u212A") .none) 1 201 :=
    next_admissible (by decide) (py_isText _) hauth rfl hagent (by decide) (by decide) fun n hn => prints_of_lt
      ((show ∀ n ∈ [(0 : Int),0 + 1,1000,1000 - 1,1000,1000 - 1], n.natAbs < 10^9 by decide) n hn)
  obtain ⟨cap',state',store',hauth'⟩ := hadmissible.authorize sampleNfc_fixesAscii
  refine ⟨cap,state,store,cap',state',store',hauth,sample_verify (Authenticator.signer_paired _ _).trusts hauth,hauth',
    fun d hd => ?_⟩
  obtain ⟨_,t,_,_,htr,_,_,hcap⟩ := ProtectedAuthority.authorize_eq_ok.mp hauth
  obtain ⟨_,t',_,_,htr',_,_,_⟩ := ProtectedAuthority.authorize_eq_ok.mp hauth'
  obtain ⟨_,_,_,_,hnext,_⟩ := ProtectedState.transitionForAuthorization_eq_ok.mp htr
  obtain ⟨_,_,_,_,hnext',_⟩ := ProtectedState.transitionForAuthorization_eq_ok.mp htr'
  have hid : t.transitionId = t'.transitionId := by
    rw [show (sampleAct (py "\u212A") .none).source = py "agent" from rfl,hagent] at hnext'
    exact ProtectedState.nextTransition_transitionId_eq ⟨_,rfl,rfl⟩ hnext hnext'
  obtain ⟨_,hr',_,htransitions⟩ := ProtectedState.transitionForAuthorization_ok htr'
  obtain ⟨t₁,ht₁,hnonce,_⟩ := ProtectedState.verifyTransition_eq_true.mp (FinalitySink.verify_eq_ok.mp hd).1.transition
  rw [htransitions,hcap.transitionId,hid,Function.update_self] at ht₁
  cases ht₁
  rw [hr'.nonce] at hnonce
  exact absurd hnonce (by decide)

end ExecutionFinality
