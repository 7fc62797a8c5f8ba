import ExecutionFinality.Reference.SequentialRuns
import ExecutionFinality.Reference.SystemInvariants

/-! When one act is authorized at most once: the nonce is looked up as it is spelled,
the act is identified by its normalized form. -/
namespace ExecutionFinality
open Function (update)
open Platform

/-- No call of `authorize` presents another spelling of a nonce already entered. -/
def NonceSpelledOnce (D : Deployment) (s : System) : Action → Prop
  | .reserve _ c _ _ => ∀ n, s.state.nonces n ≠ none → SameText D.pf.nfc n c.nonce → n = c.nonce
  | _ => True

variable {D : Deployment} {s : System}

/-- Reserved nonces are entered in the state, and no two calls reserve one nonce. -/
structure ReservationsDistinct (D : Deployment) (s : System) : Prop where
  entered : ∀ k c, (s.authorizing k).reserved? = some c → s.state.nonces c.nonce ≠ none
  distinct : ∀ j k c c', (s.authorizing j).reserved? = some c → (s.authorizing k).reserved? = some c' →
    SameText D.pf.nfc c.nonce c'.nonce → j = k

theorem reservationsDistinct_preserved :
    Machine.Preserved D.machine (NonceSpelledOnce D) (ReservationsDistinct D) where
  init s h := by
    constructor <;> intros <;> simp_all [h.authorizing,Authorizing.reserved?]
  step := by
    intro s a s' _ h hone hs
    constructor
    · intro k c hk
      rcases hs.reserved?_cases hk with hk | ⟨_,_,hentered⟩
      · obtain ⟨t,ht⟩ := Option.ne_none_iff_exists'.mp (h.entered k c hk)
        rw [hs.nonces ht]
        exact Option.some_ne_none t
      · exact hentered
    · -- A nonce entered before is spelled differently only when its text is different.
      have fresh {j k : Nat} {c c' : CandidateAct} {cost now : Int} (hone : NonceSpelledOnce D s (.reserve k c' cost now))
          (hj : (s.authorizing j).reserved? = some c) (hnew : s.state.nonces c'.nonce = none) :
          ¬ SameText D.pf.nfc c.nonce c'.nonce := by
        intro hst
        have hin := h.entered j c hj
        rw [hone _ hin hst] at hin
        exact hin hnew
      intro j k c c' hj hk hst
      rcases hs.reserved?_cases hj with hj | ⟨⟨_,_,rfl⟩,hj,_⟩ <;>
        rcases hs.reserved?_cases hk with hk | ⟨⟨_,_,hjk⟩,hk,_⟩
      · exact h.distinct j k c c' hj hk hst
      · exact absurd hst (fresh (hjk ▸ hone) hj hk)
      · exact absurd hst.symm (fresh hone hk hj)
      · cases hjk
        rfl

theorem sameText_nonce (hcollision : D.pf.NoCollision) {c c' : CandidateAct} {d : PyStr}
    (h : c.digest D.pf = .ok d) (h' : c'.digest D.pf = .ok d) : SameText D.pf.nfc c.nonce c'.nonce :=
  (hcollision.sameNormal h h').text "nonce" (by simp [CandidateAct.fields]) (by simp [CandidateAct.fields])

/-- While no nonce is respelled, no two successful authorizations and no two committed
evidence records are for one candidate digest. -/
theorem act_authorized_once (hcollision : D.pf.NoCollision)
    (h : Machine.Reaches D.machine (NonceSpelledOnce D) s) :
    (∀ j k c c' e e' cap cap', s.authorizing j = .returned c e cap → s.authorizing k = .returned c' e' cap' →
      c.digest D.pf = c'.digest D.pf → j = k) ∧
    ∀ i j e e', s.evidence.records i = some e → s.evidence.records j = some e' → e.decision = .allow →
      e'.decision = .allow → e.candidateDigest = e'.candidateDigest → i = j := by
  have hm := h.invariant authorizingMatch_preserved
  have hr := h.invariant reservationsDistinct_preserved
  have evidence_digest (k : Nat) (e : ValidationEvidence) (he : (s.authorizing k).evidence? = some e) :
      ∃ c, (s.authorizing k).reserved? = some c ∧ c.digest D.pf = .ok e.candidateDigest := by
    cases hk : s.authorizing k with
    | evidenced c now d t e' =>
      rw [hk] at he
      cases he
      exact ⟨c,rfl,(hm.evidenced _ _ _ _ _ _ hk).candidateDigest⟩
    | returned c e' cap =>
      rw [hk] at he
      cases he
      obtain ⟨_,_,_,hfor,_⟩ := hm.returned _ _ _ _ hk
      exact ⟨c,rfl,hfor.candidateDigest⟩
    | _ =>
      rw [hk] at he
      cases he
  constructor
  · intro j k c c' e e' cap cap' hj hk hd
    obtain ⟨_,_,_,hfor,_⟩ := hm.returned _ _ _ _ hj
    exact hr.distinct j k c c' (by rw [hj]; rfl) (by rw [hk]; rfl)
      (sameText_nonce hcollision hfor.candidateDigest (hd ▸ hfor.candidateDigest))
  · intro i j e e' hi hj _ _ hd
    obtain ⟨rfl,k,hk⟩ := hm.known i e hi
    obtain ⟨rfl,l,hl⟩ := hm.known j e' hj
    obtain ⟨c,hc,hcd⟩ := evidence_digest k e hk
    obtain ⟨c',hc',hcd'⟩ := evidence_digest l e' hl
    cases hr.distinct k l c c' hc hc' (sameText_nonce hcollision hcd (hd ▸ hcd'))
    rw [hk] at hl
    cases hl
    rfl

/-- The second of two acts is no respelling of the first. -/
theorem sample_spelledOnce {t : StateTransition} {state : ProtectedState} (htr : sampleState.transitionForAuthorization
    samplePlatform (sampleAct (py "n") .none) 1 = (.ok t,state)) (hs : s.state = state) :
    NonceSpelledOnce sampleDeployment s (.reserve 1 (sampleAct (py "m") .none) 1 201) := by
  intro n hn hsame
  obtain ⟨_,_,hnonces,_⟩ := ProtectedState.transitionForAuthorization_ok htr
  rw [hs,hnonces] at hn
  by_cases hne : n = py "n"
  · rw [hne] at hsame
    exact absurd hsame (by decide)
  · exact absurd (Function.update_of_ne hne ..) hn

/-- Two acts are authorized, which the theorem tells apart by their digests and by their evidence. -/
theorem act_authorized_once_sample : ∃ (s : System) (e e' : ValidationEvidence) (cap cap' : Capability),
    Machine.Reaches sampleDeployment.machine (NonceSpelledOnce sampleDeployment) s ∧
    s.authorizing 0 = .returned (sampleAct (py "n") .none) e cap ∧
    s.authorizing 1 = .returned (sampleAct (py "m") .none) e' cap' ∧
    (sampleAct (py "n") .none).digest samplePlatform ≠ (sampleAct (py "m") .none).digest samplePlatform ∧
    s.evidence.records e.evidenceId = some e ∧ s.evidence.records e'.evidenceId = some e' ∧
    e.candidateDigest ≠ e'.candidateDigest := by
  obtain ⟨cap,state,store,cap',state',store',hauth,hauth'⟩ := exists_sample_authorize_two "n" "m" (by decide)
  obtain ⟨d,t,e,hadm,htr,he,hcommit,hcap⟩ := ProtectedAuthority.authorize_eq_ok.mp hauth
  obtain ⟨d',t',e',hadm',htr',he',hcommit',hcap'⟩ := ProtectedAuthority.authorize_eq_ok.mp hauth'
  have h0 : Machine.Reaches sampleDeployment.machine (NonceSpelledOnce sampleDeployment) sampleSystem :=
    .init sampleSystem_initial
  have h1 := System.reaches_authorized h0 (k := 0) rfl hadm htr he hcommit hcap (fun n hn => absurd rfl hn)
    (fun _ => trivial) (fun _ => trivial)
  have h2 := System.reaches_authorized h1 (k := 1) (System.afterAuthorize_authorizing_of_ne (by decide)) hadm' htr' he'
    hcommit' hcap' (sample_spelledOnce htr rfl) (fun _ => trivial) (fun _ => trivial)
  obtain ⟨honce,hevidence⟩ := act_authorized_once (D := sampleDeployment) samplePlatform_noCollision h2
  let s := sampleSystem.afterAuthorize sampleDeployment 0 (sampleAct (py "n") .none) e cap state store
  have hreturned : (s.afterAuthorize sampleDeployment 1 (sampleAct (py "m") .none) e' cap' state' store').authorizing 0 =
      .returned (sampleAct (py "n") .none) e cap :=
    (System.afterAuthorize_authorizing_of_ne (by decide)).trans System.afterAuthorize_authorizing
  obtain ⟨_,_,_,hstore⟩ := EvidenceStore.commit_eq_ok.mp hcommit
  obtain ⟨_,_,_,hstore'⟩ := EvidenceStore.commit_eq_ok.mp hcommit'
  have hids : e.evidenceId ≠ e'.evidenceId := he.evidenceId_ne samplePlatform_noCollision he' (by decide)
  have hrecord : store'.records e.evidenceId = some e := by simp [hstore',hstore,Function.update_of_ne hids]
  have hrecord' : store'.records e'.evidenceId = some e' := by simp [hstore']
  exact ⟨_,e,e',cap,cap',h2,hreturned,System.afterAuthorize_authorizing,
    fun hd => absurd (honce 0 1 _ _ _ _ _ _ hreturned System.afterAuthorize_authorizing hd) (by decide),hrecord,hrecord',
    fun hd => hids (hevidence _ _ e e' hrecord hrecord' he.decision he'.decision hd)⟩

/-- One act under two spellings of its nonce is authorized twice. -/
theorem act_authorized_twice_counterexample : ∃ (s : System) (e e' : ValidationEvidence) (cap cap' : Capability)
    (d : PyStr), Machine.Reaches sampleDeployment.machine (fun _ _ => True) s ∧
    s.authorizing 0 = .returned (sampleAct (py "K") .none) e cap ∧
    s.authorizing 1 = .returned (sampleAct (py "\u212A") .none) e' cap' ∧
    (sampleAct (py "K") .none).digest samplePlatform = .ok d ∧
    (sampleAct (py "\u212A") .none).digest samplePlatform = .ok d ∧
    cap.capabilityId ≠ cap'.capabilityId := by
  obtain ⟨cap,state,store,cap',state',store',hauth,hauth'⟩ := exists_sample_authorize_two "K" "\u212A" (by decide)
  have h0 : Machine.Reaches sampleDeployment.machine (fun _ _ => True) sampleSystem :=
    .init sampleSystem_initial
  obtain ⟨e,h1⟩ := System.reaches_afterAuthorize h0 (k := 0) rfl hauth trivial (fun _ => trivial)
    (fun _ => trivial)
  obtain ⟨e',h2⟩ := System.reaches_afterAuthorize h1 (k := 1) (System.afterAuthorize_authorizing_of_ne (by decide))
    hauth' trivial (fun _ => trivial) (fun _ => trivial)
  obtain ⟨_,_,_,_,_,_,_,hcap⟩ := ProtectedAuthority.authorize_eq_ok.mp hauth
  obtain ⟨_,_,_,_,_,_,_,hcap'⟩ := ProtectedAuthority.authorize_eq_ok.mp hauth'
  have hdigest : (sampleAct (py "\u212A") .none).digest samplePlatform =
      (sampleAct (py "K") .none).digest samplePlatform := by
    have hn : samplePlatform.SameNormal (sampleAct (py "\u212A") .none).value (sampleAct (py "K") .none).value :=
      ⟨_,rfl,rfl⟩
    exact hn.sha256Hex_eq
  refine ⟨_,e,e',cap,cap',_,h2,(System.afterAuthorize_authorizing_of_ne (by decide)).trans
    System.afterAuthorize_authorizing,System.afterAuthorize_authorizing,hcap.candidateDigest,
    hdigest.trans hcap.candidateDigest,hcap.capabilityId_ne samplePlatform_noCollision hcap' (by decide)⟩

end ExecutionFinality
