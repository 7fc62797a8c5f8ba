import ExecutionFinality.Reference.Anticipation

/-! Every interleaving of calls of `authorize` and `effectuate` is equivalent to a sequential one: a
call of `authorize` takes effect where it reserves its transition, a call of `effectuate` where it commits. -/
namespace ExecutionFinality
open Function (update)
open Platform

variable {D : Deployment} {allowed : System → Action → Prop} {s s' : System} {a : Action}

/-- The reservation is recorded under an identifier that no transition has. -/
def RecordedFreshly (D : Deployment) (s : System) : Action → Prop
  | .reserve _ c cost _ => ∀ t state, s.state.transitionForAuthorization D.pf c cost = (.ok t,state) →
      s.state.transitions t.transitionId = none
  | _ => True

/-- The nonce of a recorded transition is entered. -/
def TransitionsEntered (s : System) : Prop :=
  ∀ id t, s.state.transitions id = some t → s.state.nonces t.nonce ≠ none

theorem transitionsEntered_preserved : Machine.Preserved D.machine allowed TransitionsEntered where
  init s h := fun id t hid => by simp [h.transitions] at hid
  step := by
    intro s a s' _ h _ hs id t hid
    have old (hid : s.state.transitions id = some t) : s'.state.nonces t.nonce ≠ none := by
      obtain ⟨n,hn⟩ := Option.ne_none_iff_exists'.mp (h id t hid)
      rw [hs.nonces hn]
      exact Option.some_ne_none n
    cases hs with
    | refuse hk ha ht =>
      rw [(ProtectedState.transitionForAuthorization_error ht).2] at hid
      exact old hid
    | reserve hk ha ht =>
      obtain ⟨_,hr,hnonces,htransitions⟩ := ProtectedState.transitionForAuthorization_ok ht
      dsimp only at hid
      rw [htransitions] at hid
      rcases update_cases hid with ⟨rfl,ht⟩ | ⟨_,hid⟩
      · cases ht
        simp [hnonces,hr.nonce]
      · exact old hid
    | _ => exact h id t hid

/-- While no nonce is respelled, no transition is overwritten. -/
theorem recordedFreshly_of_spelledOnce (hcollision : D.pf.NoCollision) (hrec : TransitionsRecorded D s)
    (hentered : TransitionsEntered s) (ha : NonceSpelledOnce D s a) : RecordedFreshly D s a := by
  cases a with
  | reserve k c cost now =>
    intro t state ht
    obtain ⟨hnew,hr,_⟩ := ProtectedState.transitionForAuthorization_ok ht
    obtain ⟨d,_,hsha⟩ := hr.transitionId
    by_contra hold
    obtain ⟨t',ht'⟩ := Option.ne_none_iff_exists'.mp hold
    obtain ⟨d',_,hsha'⟩ := hrec _ _ ht'
    have hsame := ProtectedState.sameText_of_transitionId hcollision hsha' hsha
    rw [hr.nonce] at hsame
    have he := ha t'.nonce (hentered _ _ ht') hsame
    exact hentered _ _ ht' (he ▸ hnew)
  | _ => trivial

/-- What `verify` has accepted it still accepts when evidence is added and the transition stays. -/
theorem FinalitySink.Verified.mono {pf : Platform} {sink : FinalitySink} {store store' : EvidenceStore}
    {state state' : ProtectedState} {c : CandidateAct} {cap : Capability} {now : Int} {proof : Option PresentationProof}
    (h : sink.Verified pf store state c cap now proof)
    (hstore : ∀ e, store.records cap.evidenceId = some e → store'.records cap.evidenceId = some e)
    (hstate : state'.verifyTransition cap.transitionId c = true) : sink.Verified pf store' state' c cap now proof := by
  obtain ⟨e,he,hsupports⟩ := h.evidence
  exact { h with evidence := ⟨e,hstore e he,hsupports⟩, transition := hstate }

/-- A transition that is not overwritten is verified as before. -/
theorem Step.verifyTransition (hs : Step D s a s') (ha : RecordedFreshly D s a) {id : PyStr} {c : CandidateAct}
    (h : s.state.verifyTransition id c = true) : s'.state.verifyTransition id c = true := by
  obtain ⟨t,ht,h1,h2,h3,h4,h5,h6,hn⟩ := ProtectedState.verifyTransition_eq_true.mp h
  refine ProtectedState.verifyTransition_eq_true.mpr ⟨t,?_,h1,h2,h3,h4,h5,h6,hs.nonces hn⟩
  cases hs with
  | refuse hk hadm hf =>
    rw [(ProtectedState.transitionForAuthorization_error hf).2]
    exact ht
  | reserve hk hadm hf =>
    obtain ⟨_,_,_,htransitions⟩ := ProtectedState.transitionForAuthorization_ok hf
    dsimp only
    rw [htransitions]
    exact update_kept (by simp [ha _ _ hf]) ht
  | _ => exact ht

/-- What a call was verified with is still verified, by the stores as they are now. -/
def StillVerified (D : Deployment) (s : System) : Prop :=
  ∀ k x, (s.effectuating k).args? = some x →
    (D.sinks x.sink).Verified D.pf s.evidence s.state x.candidate x.cap x.now x.presentationProof

theorem stillVerified_preserved : Machine.Preserved D.machine (RecordedFreshly D) (StillVerified D) where
  init s h := fun k _ hk => by simp [h.effectuating,Effectuating.args?] at hk
  step := by
    intro s a s' _ h ha hs k x hk
    have kept (hv : (D.sinks x.sink).Verified D.pf s.evidence s.state x.candidate x.cap x.now x.presentationProof) :
        (D.sinks x.sink).Verified D.pf s'.evidence s'.state x.candidate x.cap x.now x.presentationProof :=
      hv.mono (fun e he => hs.evidence he) (hs.verifyTransition ha hv.transition)
    rcases hs.args?_cases hk with hk | ⟨_,hv⟩
    · exact kept (h k x hk)
    · exact kept hv

/-- The calls that have been verified are among the calls made. -/
theorem callsMade_preserved (calls : Action → Prop) (hcalls : ∀ s a, allowed s a → calls a) :
    Machine.Preserved D.machine allowed fun s => ∀ k x, (s.effectuating k).args? = some x → calls (.verify k x) where
  init s h := fun k _ hk => by simp [h.effectuating,Effectuating.args?] at hk
  step := by
    intro s a s' _ h ha hs k x hk
    rcases hs.args?_cases hk with hk | ⟨rfl,_⟩
    · exact h k x hk
    · exact hcalls _ _ ha

/-- The interleaved system is simulated backwards by the sequential one: what is under way may still
commit its evidence or use its claim, and each way it goes on has its sequential past. -/
theorem sequential_simulates (calls : Action → Prop) :
    Machine.BackwardSimulates D.machine (fun s a => RecordedFreshly D s a ∧ calls a) D.sequential
      (SequentialSystem.Makes calls) (fun s q => ∃ early late, Anticipates D early late s q) where
  init := by
    rintro s q hinit ⟨early,late,h⟩
    have hnone (k : Nat) : D.pending? (s.authorizing k) = none := by rw [hinit.authorizing]; rfl
    constructor
    · rw [h.state]; exact hinit.nonces
    · rw [h.state]; exact hinit.transitions
    · intro i
      cases hi : q.evidence.records i with
      | none => rfl
      | some e =>
        rcases (h.records i e).mp hi with hold | ⟨_,k,_,hk⟩
        · cases (hinit.evidence i).symm.trans hold
        · cases (hnone k).symm.trans hk
    · intro i
      refine (h.claimed i fun k _ hk => ?_).trans (hinit.claims i)
      rw [hinit.effectuating] at hk
      cases hk
    · rw [h.effectors]; exact hinit.records
    · intro k
      rw [h.authorized,hinit.authorizing]
      rfl
    · intro k
      rw [h.effectuated,hinit.effectuating]
      rfl
  step := by
    rintro s a s' q hr ⟨hfresh,hcall⟩ hs ⟨early,late,h⟩
    have hverified : StillVerified D s := (hr.mono fun _ _ h => h.1).invariant stillVerified_preserved
    have hmade := hr.invariant (callsMade_preserved calls fun _ _ h => h.2)
    have hdescriptor := hr.invariant descriptorsMatch_preserved
    have hclaims := hr.invariant claimsMatch_preserved
    have howned := hr.invariant claimsOwned_preserved
    have verified (k : Nat) (x : EffectuateArgs) (hx : (s.effectuating k).args? = some x)
        (hstate : q.state = s.state) (hrecords : ∀ e, s.evidence.records x.cap.evidenceId = some e →
          q.evidence.records x.cap.evidenceId = some e) :
        (D.sinks x.sink).Verified D.pf q.evidence q.state x.candidate x.cap x.now x.presentationProof :=
      (hverified k x hx).mono hrecords (hstate ▸ (hverified k x hx).transition)
    have same (h : Anticipates D early late s q) : ∃ q₀, (∃ early late, Anticipates D early late s q₀) ∧
        Machine.Reaches (D.sequential.startingAt q₀) (SequentialSystem.Makes calls) q :=
      ⟨q,⟨early,late,h⟩,.init rfl⟩
    cases hs with
    | @reserve k c cost now d t state hk ha ht =>
      have hstate : q.state = state := h.state
      rw [← hstate] at ht
      have hresult := h.authorized k
      dsimp only at hresult
      rw [Function.update_self] at hresult
      cases hearly : early k with
      | false =>
        rw [hearly] at hresult
        exact ⟨_,⟨_,_,h.begin_failing hk hearly⟩,Anticipates.reaches_uncommitted ha ht hresult hcall⟩
      | true =>
        obtain ⟨e,he,_,hsignature⟩ := h.committable k hearly
        have hrecord := (h.records e.evidenceId e).mpr (.inr ⟨rfl,k,hearly,he⟩)
        rw [← h.authenticator] at hsignature
        dsimp only at he
        rw [Function.update_self,Anticipates.pending?_reserved] at he
        rw [hearly] at hresult
        simp only [Deployment.authorizeResult,he,if_true] at hresult
        exact ⟨_,⟨_,_,h.reserve_committing hk hearly he⟩,
          Anticipates.reaches_committing ha ht he hsignature hrecord hresult hcall⟩
    | @refuse k c cost now d e state hk ha ht =>
      have hstate : q.state = state := h.state
      rw [← hstate] at ht
      have hresult := h.authorized k
      dsimp only at hresult
      rw [Function.update_self] at hresult
      cases hearly : early k with
      | false => exact ⟨_,⟨_,_,h.begin_failing hk hearly⟩,Anticipates.reaches_refused ha ht hresult hcall⟩
      | true =>
        obtain ⟨_,he,_⟩ := h.committable k hearly
        dsimp only at he
        rw [Function.update_self] at he
        cases he
    | commitEvidence hk he hc => exact ⟨q,⟨_,_,h.commitEvidence hk he hc⟩,.init rfl⟩
    | @failEvidence k c now d t e exn hk he hc =>
      have hearly : early k = false := by
        by_contra hearly
        obtain ⟨_,he,_⟩ := h.committable k (Bool.not_eq_false _ ▸ hearly)
        dsimp only at he
        rw [Function.update_self] at he
        cases he
      refine same (h.frame rfl rfl rfl rfl (fun j hj => ?_) (fun j => ?_) (fun _ => rfl) fun _ => rfl)
      · dsimp only
        rw [Function.update_of_ne]
        rintro rfl
        cases hearly.symm.trans hj
      · dsimp only
        by_cases hj : j = k
        · subst hj
          rw [Function.update_self,hk,hearly]
          rfl
        · rw [Function.update_of_ne hj]
    | issue hk hc =>
      refine same (h.frame rfl rfl rfl rfl (fun j _ => proj_update (by rw [hk]; rfl) j)
        (fun j => proj_update (g := D.authorizeResult (early j)) ?_ j) (fun _ => rfl) fun _ => rfl)
      simp only [Deployment.authorizeResult,hk,hc]
      rfl
    | verify hk =>
      exact same (h.frame rfl rfl rfl rfl (fun _ _ => rfl) (fun _ => rfl) (proj_update (by rw [hk]; rfl))
        fun j => proj_update (g := D.effectuateResult (late j)) (by rw [hk]; rfl) j)
    | @receipt k x y record i r hk hr =>
      have hy : y = x.cap.descriptorDigest := hdescriptor k x y (by rw [hk]; rfl)
      refine same (h.frame rfl rfl rfl rfl (fun _ _ => rfl) (fun _ => rfl) (proj_update (by rw [hk]; rfl))
        fun j => proj_update (g := D.effectuateResult (late j)) ?_ j)
      rw [hk,hy]
      rfl
    | prove => exact same (h.frame rfl rfl rfl rfl (fun _ _ => rfl) (fun _ => rfl) (fun _ => rfl) fun _ => rfl)
    | resign => exact same (h.frame rfl rfl rfl rfl (fun _ _ => rfl) (fun _ => rfl) (fun _ => rfl) fun _ => rfl)
    | @claim k x y consumption hk hc =>
      obtain ⟨hfree,rfl⟩ := ConsumptionStore.claim_eq_ok.mp hc
      cases hlate : late k with
      | true => exact same (h.claim_late hk hfree hlate)
      | false =>
        obtain ⟨hbefore,hclaim,hresult⟩ := h.claim_now hk hfree hclaims hlate
        have hx : (s.effectuating k).args? = some x := by rw [hk]; rfl
        have hv := verified k x hx h.state fun e he => (h.records _ e).mpr (.inl he)
        exact ⟨_,⟨_,_,hbefore⟩,SequentialSystem.reaches_of_beforeBurned (hmade k x hx) hv hclaim hresult⟩
    | @commit k x y record effector hk hc =>
      obtain ⟨hbefore,hclaim⟩ := h.commit hk rfl hclaims howned
      obtain ⟨hm,hf,hrecord,rfl⟩ := GuardedEffector.commit_ok.mp hc
      have hx : (s.effectuating k).args? = some x := by rw [hk]; rfl
      have hcommits : FinalitySink.Commits D.pf (D.sinks x.sink) q.evidence q.state
          ⟨update q.consumption.claims x.cap.capabilityId none⟩ (s.effectors (D.boundTo x.sink)) x.candidate x.cap x.now
          x.presentationProof record :=
        ⟨verified k x hx h.state fun e he => (h.records _ e).mpr (.inl he),Function.update_self ..,hm,hf,hrecord⟩
      have hresult := h.effectuated k
      dsimp only at hresult
      rw [Function.update_self,Deployment.effectuateResult,hdescriptor k x y (by rw [hk]; rfl)] at hresult
      have heffectuate := hcommits.effectuate_eq
      rw [SequentialSystem.claimed_again hclaim] at heffectuate
      exact ⟨_,⟨_,_,hbefore⟩,SequentialSystem.reaches_of_beforeEffectuate (hmade k x hx) heffectuate h.effectors hresult⟩
    | @failCommit k x y exn effector hk hc =>
      obtain ⟨hbefore,hclaim⟩ := h.commit hk rfl hclaims howned
      have hx : (s.effectuating k).args? = some x := by rw [hk]; rfl
      have hresult := h.effectuated k
      dsimp only at hresult
      rw [Function.update_self] at hresult
      have hfree : (⟨update q.consumption.claims x.cap.capabilityId none⟩ : ConsumptionStore).claims x.cap.capabilityId =
          none := Function.update_self ..
      have heffectuate := SequentialSystem.effectuate_of_failed
        (verified k x hx h.state fun e he => (h.records _ e).mpr (.inl he)) hfree hc
      rw [SequentialSystem.claimed_again hclaim] at heffectuate
      exact ⟨_,⟨_,_,hbefore⟩,SequentialSystem.reaches_of_beforeEffectuate (hmade k x hx) heffectuate h.effectors hresult⟩
    | configureSource source quota budget =>
      obtain ⟨state,evidence,consumption,effectors,authorized,effectuated⟩ := q
      cases h.state
      exact ⟨⟨s.state,evidence,consumption,effectors,authorized,effectuated⟩,⟨early,late,{ h with state := rfl }⟩,
        Machine.reaches_of_step (a := .configureSource source quota budget) (SequentialSystem.makes_of_none rfl)
          (.configureSource ..)⟩
    | setFailCommits b =>
      obtain ⟨state,evidence,consumption,effectors,authorized,effectuated⟩ := q
      obtain ⟨authenticator,records,failCommits⟩ := evidence
      cases h.failCommits
      exact ⟨⟨state,⟨authenticator,records,s.evidence.failCommits⟩,consumption,effectors,authorized,effectuated⟩,
        ⟨early,late,{ h with failCommits := rfl }⟩,
        Machine.reaches_of_step (a := .setFailCommits b) (SequentialSystem.makes_of_none rfl) (.setFailCommits ..)⟩
    | setFailNext i =>
      obtain ⟨state,evidence,consumption,effectors,authorized,effectuated⟩ := q
      cases h.effectors
      exact ⟨⟨state,evidence,consumption,s.effectors,authorized,effectuated⟩,⟨early,late,{ h with effectors := rfl }⟩,
        Machine.reaches_of_step (a := .setFailNext i) (SequentialSystem.makes_of_none rfl) (.setFailNext ..)⟩

/-- While no nonce is respelled, every interleaving leaves the stores, and has returned from its calls
what they return, as a run of the same calls one after the other. -/
theorem interleavings_serialize (hcollision : D.pf.NoCollision) {calls : Action → Prop}
    (h : Machine.Reaches D.machine (fun s a => NonceSpelledOnce D s a ∧ calls a) s) :
    Machine.Reaches D.sequential (SequentialSystem.Makes calls) (s.results D) := by
  have hfresh : Machine.Reaches D.machine (fun s a => RecordedFreshly D s a ∧ calls a) s := by
    induction h with
    | init h => exact .init h
    | step h ha hs ih =>
      have hfresh := recordedFreshly_of_spelledOnce hcollision (h.invariant transitionsRecorded_preserved)
        (h.invariant transitionsEntered_preserved) ha.1
      exact ih.step ⟨hfresh,ha.2⟩ hs
  refine hfresh.simulate (sequential_simulates calls) ⟨fun _ => false,fun _ => false,?_⟩
  constructor <;> simp [System.results]

/-- The reservations of the sample run -/
def SampleReserves (a : Action) : Prop :=
  ∀ k c cost now, a = .reserve k c cost now → c = sampleAct (py "n") .none ∨ c = sampleAct (py "m") .none

/-- While a first call of `authorize` is under way, a second one returns, and the call of `effectuate` that uses its
capability commits between the last two phases of the first. -/
theorem interleavings_serialize_sample : ∃ (s s' : System) (cap cap' : Capability) (record : EffectRecord),
    Machine.Reaches sampleDeployment.machine (fun _ _ => True) s ∧
    (∃ d t, s.authorizing 0 = .reserved (sampleAct (py "n") .none) 200 d t) ∧
    (∃ x d, s.effectuating 0 = .claimed x d ∧ x.cap = cap') ∧
    Machine.Reaches (sampleDeployment.machine.startingAt s) (fun _ _ => True) s' ∧
    Machine.Reaches sampleDeployment.sequential (SequentialSystem.Makes SampleReserves) (s'.results sampleDeployment) ∧
    (s'.effectors 0).records = [record] ∧ (s'.results sampleDeployment).authorized 0 = some (some cap) ∧
    (s'.results sampleDeployment).authorized 1 = some (some cap') := by
  obtain ⟨cap,state,store,cap',state',store',hauth,hauth'⟩ := exists_sample_authorize_two "n" "m" (by decide)
  obtain ⟨d,t,e,hadm,htr,he,hcommit,hcap⟩ := ProtectedAuthority.authorize_eq_ok.mp hauth
  obtain ⟨d',t',e',hadm',htr',he',hcommit',hcap'⟩ := ProtectedAuthority.authorize_eq_ok.mp hauth'
  obtain ⟨hfail,hverify,_,hstore⟩ := EvidenceStore.commit_eq_ok.mp hcommit
  obtain ⟨_,hverify',_,_⟩ := EvidenceStore.commit_eq_ok.mp hcommit'
  rw [hstore] at hverify'
  have hids : e.evidenceId ≠ e'.evidenceId := he.evidenceId_ne samplePlatform_noCollision he' (by decide)
  -- The evidence of the second call comes first.
  let evidence : EvidenceStore :=
    { sampleEvidenceStore with records := update sampleEvidenceStore.records e'.evidenceId (some e') }
  have hcommit₁ : sampleEvidenceStore.commit samplePlatform e' = .ok evidence :=
    EvidenceStore.commit_eq_ok.mpr ⟨rfl,hverify',rfl,rfl⟩
  have hcommit₂ : evidence.commit samplePlatform e =
      .ok { evidence with records := update evidence.records e.evidenceId (some e) } :=
    EvidenceStore.commit_eq_ok.mpr ⟨hfail,hverify,Function.update_of_ne hids ..,rfl⟩
  have hauth₁ := ProtectedAuthority.authorize_eq_ok.mpr ⟨d',t',e',hadm',htr',he',hcommit₁,hcap'⟩
  obtain ⟨record,hrecord⟩ := sampleEffector_newRecord
    (sampleAct_accepted (py "m") .none (py_isText _) ⟨_,rfl⟩) [] (by decide)
  let x : EffectuateArgs := ⟨0,sampleAct (py "m") .none,cap',300,none⟩
  have hverified : FinalitySink.Verified samplePlatform (sampleSink sampleAuthority.authenticator none false) evidence state'
      (sampleAct (py "m") .none) cap' 300 none :=
    sample_verified (Authenticator.signer_paired _ _).trusts hauth₁ (by decide) (by decide) rfl
  let allowed (s : System) (a : Action) : Prop := NonceSpelledOnce sampleDeployment s a ∧ SampleReserves a
  have free (s : System) (a : Action) (ha : ∀ k c cost now, a ≠ .reserve k c cost now) : allowed s a := by
    cases a with
    | reserve k c cost now => exact absurd rfl (ha k c cost now)
    | _ => exact ⟨trivial,nofun⟩
  have h0 : Machine.Reaches sampleDeployment.machine allowed sampleSystem := .init sampleSystem_initial
  have hfirst : allowed sampleSystem (.reserve 0 (sampleAct (py "n") .none) 1 200) :=
    ⟨fun n hn => absurd rfl hn,by rintro _ _ _ _ ⟨⟩; exact .inl rfl⟩
  have h1 := h0.step hfirst (Step.reserve (k := 0) rfl hadm htr)
  have h2 := System.reaches_authorized h1 (k := 1) rfl hadm' htr' he' hcommit₁ hcap'
    ⟨sample_spelledOnce htr rfl,by rintro _ _ _ _ ⟨⟩; exact .inr rfl⟩ (fun s => free s _ nofun) (fun s => free s _ nofun)
  let reserved : System :=
    { sampleSystem with state, authorizing := update sampleSystem.authorizing 0 (.reserved (sampleAct (py "n") .none) 200 d t) }
  let s := (reserved.afterAuthorize sampleDeployment 1 (sampleAct (py "m") .none) e' cap' state' evidence).afterClaim
    sampleDeployment 0 x
  have h3 : Machine.Reaches sampleDeployment.machine allowed s :=
    System.reaches_afterClaim h2 (k := 0) (x := x) rfl ⟨hverified,rfl,rfl,rfl,hrecord⟩ (free _ _ nofun) (free _ _ nofun)
  have hreserved : s.authorizing 0 = .reserved (sampleAct (py "n") .none) 200 d t := rfl
  have hclaimed : s.effectuating 0 = .claimed x x.cap.descriptorDigest := rfl
  have hstart : Machine.Reaches (sampleDeployment.machine.startingAt s) allowed s := .init rfl
  have h4 := hstart.step (free _ (.commitEvidence 0) nofun)
    (Step.commitEvidence hreserved (ProtectedAuthority.evidence_eq_ok.mpr he) hcommit₂)
  have h5 := h4.step (free _ (.commit 0) nofun)
    (Step.commit hclaimed (GuardedEffector.commit_ok.mpr ⟨rfl,rfl,hrecord,rfl⟩))
  have h6 := h5.step (free _ (.issue 0) nofun)
    (Step.issue (by simp) (ProtectedAuthority.capability_eq_ok.mpr hcap))
  exact ⟨s,_,cap,cap',record,h3.mono fun _ _ _ => trivial,⟨d,t,hreserved⟩,⟨x,_,hclaimed,rfl⟩,h6.mono fun _ _ _ => trivial,
    interleavings_serialize samplePlatform_noCollision (h3.trans h6),rfl,rfl,rfl⟩

end ExecutionFinality
