import ExecutionFinality.Reference.SequentialRuns
import ExecutionFinality.Reference.SystemInvariants

/-! The non-bearer profile: an effect at a sink that requires a presentation proof was
preceded by the presenter's own signature over that effect. -/
namespace ExecutionFinality
open FinalitySink (Commits Verified Presented)
open Function (update)
open Platform

/-- A registry accepts only proofs whose bytes were signed before under the registered
key, and proofs are signed in `Presenter.prove` only; all else may be signed at will. -/
def ProofUnforged (D : Deployment) (s : System) : Action → Prop
  | .verify _ x => ∀ registry p v, (D.sinks x.sink).presenterVerifier = some registry →
    x.presentationProof = some p → registry.verifiers p.presenterKeyId = some v →
    v.verify D.pf p.unsigned p.signature p.presenterKeyId = .ok true → SignedBefore D s v.verKey p.unsigned
  | .resign _ m => ∀ p, m ≠ .proof p
  | _ => True

variable {D : Deployment} {allowed : System → Action → Prop} {s s' : System}

/-- Every signed proof was made by `prove`, by the holder of the key. -/
def ProofsProved (D : Deployment) (s : System) : Prop :=
  ∀ key p, (key,.proof p) ∈ s.signed → ∃ i, (D.presenters i).authenticator.signKey D.pf = some key ∧
    (D.presenters i).prove D.pf p.capabilityId p.candidateDigest p.sinkId p.boundaryId p.nonce
      p.presentedAtNs = .ok p

theorem proofsProved_preserved : Machine.Preserved D.machine (ProofUnforged D) (ProofsProved D) where
  init s h := fun _ _ hm => by simp [h.signed] at hm
  step := by
    intro s a s' _ h ha hs key p hm
    rcases hs.signed_cases hm with hm | hproved | ⟨_,rfl⟩
    · exact h key p hm
    · exact hproved
    · exact absurd rfl (ha p)

/-- Only a proof has the encoding of a proof. -/
theorem Artifact.eq_proof {pf : Platform} {m : Artifact} {p : PresentationProof}
    (h : pf.SameNormal m.unsigned p.unsigned) : ∃ p', m = .proof p' := by
  cases m with
  | proof p' => exact ⟨p',rfl⟩
  | evidence e => exact absurd h.length (by simp [ValidationEvidence.core,PresentationProof.fields])
  | capability cap => exact absurd h.length (by simp [Capability.core,PresentationProof.fields])
  | receipt r => exact absurd h.length (by simp [SinkReceipt.core,PresentationProof.fields])

/-- A signed proof for this call: the registered presenter that the candidate names
signed this capability, act, sink, boundary and nonce, within the freshness of the sink. -/
structure SignedPresentation (D : Deployment) (s : System) (x : EffectuateArgs) (v : Authenticator)
    (p : PresentationProof) : Prop where
  registered : ∃ registry id, (D.sinks x.sink).presenterVerifier = some registry ∧
    x.candidate.presenterKeyId? = some id ∧ registry.verifiers id = some v
  signed : (v.verKey,.proof p) ∈ s.signed
  capabilityId : SameText D.pf.nfc p.capabilityId x.cap.capabilityId
  candidateDigest : ∃ d, x.candidate.digest D.pf = .ok d ∧ SameText D.pf.nfc p.candidateDigest d
  sinkId : SameText D.pf.nfc p.sinkId (D.sinks x.sink).context.sinkId
  boundaryId : SameText D.pf.nfc p.boundaryId (D.sinks x.sink).context.boundaryId
  nonce : SameText D.pf.nfc p.nonce x.candidate.nonce
  fresh : |x.now - p.presentedAtNs| ≤ (D.sinks x.sink).presentationFreshnessNs

/-- A proof that `verify` accepts was signed as one for this call. -/
theorem FinalitySink.Presented.signedPresentation {x : EffectuateArgs} {proof : PresentationProof}
    {registry : PresenterVerifierRegistry} (hproof : x.presentationProof = some proof)
    (hregistry : (D.sinks x.sink).presenterVerifier = some registry)
    (h : Presented D.pf (D.sinks x.sink) x.candidate x.cap x.now proof registry) {k : Nat}
    (ha : ProofUnforged D s (.verify k x)) : ∃ v p, SignedPresentation D s x v p := by
  obtain ⟨v,hv,hs⟩ := PresenterVerifierRegistry.verify_eq_true.mp h.signature
  obtain ⟨m,b,hm,hmb,hpb⟩ := ha registry proof v hregistry hproof hv hs
  have hn := sameNormal_of_canonicalBytes hmb hpb
  obtain ⟨p,rfl⟩ := Artifact.eq_proof hn
  have text (key : String) {s t : PyStr} (hs : (key,.str s) ∈ p.fields) (ht : (key,.str t) ∈ proof.fields) :
      SameText D.pf.nfc s t := hn.text key hs ht
  have hat : p.presentedAtNs = proof.presentedAtNs := hn.int "presented_at_ns"
    (by simp [PresentationProof.fields]) (by simp [PresentationProof.fields])
  exact ⟨v,p,{
    registered := ⟨registry,_,hregistry,h.presenter,hv⟩
    signed := hm
    capabilityId := h.capabilityId ▸ text "capability_id" (by simp [PresentationProof.fields])
      (by simp [PresentationProof.fields])
    candidateDigest := ⟨_,h.candidateDigest,text "candidate_digest" (by simp [PresentationProof.fields])
      (by simp [PresentationProof.fields])⟩
    sinkId := h.sinkId ▸ text "sink_id" (by simp [PresentationProof.fields]) (by simp [PresentationProof.fields])
    boundaryId := h.boundaryId ▸ text "boundary_id" (by simp [PresentationProof.fields])
      (by simp [PresentationProof.fields])
    nonce := h.nonce ▸ text "nonce" (by simp [PresentationProof.fields]) (by simp [PresentationProof.fields])
    fresh := hat ▸ h.fresh }⟩

/-- Every verified call at a strict sink has its signed proof. -/
def CallsPresented (D : Deployment) (s : System) : Prop :=
  ∀ k x, (s.effectuating k).args? = some x → (D.sinks x.sink).requirePresentationProof = true →
    ∃ v p, SignedPresentation D s x v p

theorem callsPresented_preserved : Machine.Preserved D.machine (ProofUnforged D) (CallsPresented D) where
  init s h := fun k _ hk => by simp [h.effectuating,Effectuating.args?] at hk
  step := by
    intro s a s' _ h ha hs k x hk hstrict
    have later {v : Authenticator} {p : PresentationProof} (hp : SignedPresentation D s x v p) :
        ∃ v p, SignedPresentation D s' x v p := ⟨v,p,{ hp with signed := hs.signed hp.signed }⟩
    rcases hs.args?_cases hk with hk | ⟨rfl,hv⟩
    · obtain ⟨v,p,hp⟩ := h k x hk hstrict
      exact later hp
    · obtain ⟨proof,registry,hproof,hregistry,hp⟩ := hv.presentation hstrict
      obtain ⟨v,p,hp⟩ := FinalitySink.Presented.signedPresentation hproof hregistry hp ha
      exact later hp

/-- When a strict sink commits an effect, the registered presenter that the candidate
names has already signed a proof for it, through `prove`. -/
theorem strict_effect_presented (h : Machine.Reaches D.machine (ProofUnforged D) s) {k : Nat}
    (hs : Step D s (.commit k) s') {x : EffectuateArgs} {r : EffectRecord} {position : Nat}
    (he : (s'.effectuating k).effect? = some (x,r,position))
    (hstrict : (D.sinks x.sink).requirePresentationProof = true) : ∃ v p i, SignedPresentation D s x v p ∧
      (D.presenters i).authenticator.signKey D.pf = some v.verKey ∧
      (D.presenters i).prove D.pf p.capabilityId p.candidateDigest p.sinkId p.boundaryId p.nonce
        p.presentedAtNs = .ok p := by
  have hargs : (s.effectuating k).args? = some x := by
    rcases hs.args?_cases (Effectuating.args?_of_claim? (Effectuating.claim?_of_effect? he)) with hargs | ⟨⟨⟩,_⟩
    exact hargs
  obtain ⟨v,p,hp⟩ := h.invariant callsPresented_preserved k x hargs hstrict
  obtain ⟨i,hkey,hprove⟩ := h.invariant proofsProved_preserved _ _ hp.signed
  exact ⟨v,p,i,hp,hkey,hprove⟩

/-- A proof that the sample presenter makes satisfies a strict sample sink. -/
private theorem exists_sample_proof {cap : Capability} {nonce : PyStr} {payload : PyVal} (hn : nonce.IsText)
    (hid : IsHex cap.capabilityId)
    (hd : (sampleAct nonce payload).digest samplePlatform = .ok cap.candidateDigest) : ∃ p registry,
    samplePresenter.prove samplePlatform cap.capabilityId cap.candidateDigest (py "sink") (py "boundary") nonce 300 =
      .ok p ∧ (sampleSink sampleAuthority.authenticator none true).presenterVerifier = some registry ∧
    Presented samplePlatform (sampleSink sampleAuthority.authenticator none true) (sampleAct nonce payload) cap 300 p
      registry := by
  let p : PresentationProof := ⟨cap.capabilityId,cap.candidateDigest,py "sink",py "boundary",nonce,300,
    py "presenter",[]⟩
  have haccepts : samplePlatform.Accepts p.unsigned := by
    refine (accepts_fields sampleNfc_fixesAscii
      (by simp only [PresentationProof.fields,KeyedEntries.keys,List.map_cons,List.map_nil]; decide)).mpr ?_
    simp only [PresentationProof.fields,List.forall_mem_cons,accepts_text,accepts_int]
    exact ⟨hid.scalars,(isHex_of_sha256Hex hd).scalars,py_isText _,py_isText _,hn,
      prints_of_lt (show (300 : Int).natAbs < 10^9 by decide),py_isText _,by simp⟩
  obtain ⟨signature,hs⟩ := Authenticator.exists_sign.mpr
    ⟨show samplePresenter.authenticator.CanSign by rintro _ _ ⟨⟩,haccepts⟩
  refine ⟨{ p with signature },_,CheckChains.bind_eq_ok.mpr ⟨_,hs,rfl⟩,rfl,{
    presenter := rfl
    capabilityId := rfl
    candidateDigest := hd
    sinkId := rfl
    boundaryId := rfl
    nonce := rfl
    fresh := (show |(300 : Int) - 300| ≤ 2000000000 by decide)
    signature := PresenterVerifierRegistry.verify_eq_true.mpr ⟨_,rfl,?_⟩ }⟩
  exact Authenticator.verify_sign (Authenticator.signer_paired _ _) hs

theorem strict_effect_presented_sample : ∃ (s s' : System) (x : EffectuateArgs) (r : EffectRecord),
    Machine.Reaches sampleDeployment.machine (ProofUnforged sampleDeployment) s ∧
    Step sampleDeployment s (.commit 0) s' ∧ (s'.effectuating 0).effect? = some (x,r,0) ∧
    (sampleDeployment.sinks x.sink).requirePresentationProof = true ∧
    ∃ v p i, SignedPresentation sampleDeployment s x v p ∧
      (sampleDeployment.presenters i).authenticator.signKey samplePlatform = some v.verKey ∧
      (sampleDeployment.presenters i).prove samplePlatform p.capabilityId p.candidateDigest p.sinkId p.boundaryId
        p.nonce p.presentedAtNs = .ok p := by
  have htrust : Authenticator.Trusts samplePlatform sampleAuthority.authenticator sampleAuthority.authenticator :=
    (Authenticator.signer_paired _ _).trusts
  obtain ⟨cap,state,store,record,hauth,hc⟩ := FinalitySink.sample_commits _ none (py "n") .none .none htrust
    (py_isText _) ⟨_,rfl⟩ rfl
  obtain ⟨_,_,_,_,_,_,_,hcap⟩ := ProtectedAuthority.authorize_eq_ok.mp hauth
  obtain ⟨p,registry,hprove,hregistry,hp⟩ := exists_sample_proof (py_isText _)
    (isHex_of_sha256Hex hcap.capabilityId) hcap.candidateDigest
  have hverified : Verified samplePlatform (sampleSink sampleAuthority.authenticator none true) store state
      (sampleAct (py "n") .none) cap 300 (some p) := by
    refine issued_verified hauth (sampleSink_serves htrust _ _) rfl
      (show (200 : Int) - 1000000000 ≤ 300 by decide) hc.verified.expires ?_
    exact fun _ => ⟨p,registry,rfl,hregistry,hp⟩
  have hc' : Commits samplePlatform (sampleSink sampleAuthority.authenticator none true) store state {}
      sampleEffector (sampleAct (py "n") .none) cap 300 (some p) record :=
    { hc with verified := hverified }
  have h0 : Machine.Reaches sampleDeployment.machine (ProofUnforged sampleDeployment) sampleSystem :=
    .init sampleSystem_initial
  obtain ⟨e,h1⟩ := System.reaches_afterAuthorize h0 (k := 0) rfl hauth trivial (fun _ => trivial)
    (fun _ => trivial)
  have h2 := h1.step (by trivial) (Step.prove (i := 0) hprove)
  let x : EffectuateArgs := ⟨1,sampleAct (py "n") .none,cap,300,some p⟩
  have h3 := System.reaches_afterClaim h2 (k := 0) (x := x) rfl hc' (by
    -- The one registered key is the one under which the proof was just signed.
    intro r q v hr hq hv hs
    cases hr
    cases hq
    obtain ⟨b,hb⟩ := (Authenticator.verify_eq_true hs).2
    refine ⟨.proof p,b,?_,hb,hb⟩
    dsimp only at hv
    split at hv
    · cases hv
      exact List.mem_cons_self
    · cases hv) (by trivial)
  have hpresented := strict_effect_presented h3 (System.step_afterCommit hc') System.afterCommit_effect rfl
  exact ⟨_,_,x,record,h3,System.step_afterCommit hc',System.afterCommit_effect,rfl,hpresented⟩

end ExecutionFinality
