import ExecutionFinality.Reference.Sink

/-! When `authorize` succeeds, and that a matching sink accepts what it issued. -/
namespace ExecutionFinality
open KeyedEntries (keys)
open Platform

/-- A string without surrogates. -/
def PyStr.IsText (s : PyStr) : Prop := ∃ cs, s.scalars = some cs

theorem py_isText (s : String) : (py s).IsText := ⟨_,PyStr.scalars_ofChars _⟩

theorem PyVal.LiteralKeys.tail {k : String} {ks : List String} (h : LiteralKeys (k :: ks)) : LiteralKeys ks :=
  ⟨(List.nodup_cons.mp h.1).2,fun l hl => h.2 l (List.mem_cons_of_mem _ hl)⟩

section Accepted
variable {pf : Platform} (hnfc : pf.nfc.FixesAscii)
include hnfc

theorem CandidateAct.accepts_iff {c : CandidateAct} : pf.Accepts c.value ↔
    c.actId.IsText ∧ c.actClass.IsText ∧ c.effectClass.IsText ∧ c.source.IsText ∧ c.destination.IsText ∧
    c.purpose.IsText ∧ c.jurisdiction.IsText ∧ pf.Prints c.policyEpoch ∧ c.nonce.IsText ∧
    pf.Prints c.issuedAtNs ∧ pf.Prints c.freshnessNs ∧ c.sinkId.IsText ∧ c.boundaryId.IsText ∧
    (∀ x ∈ c.scope, x.IsText) ∧ pf.Accepts c.payload ∧ c.runtimeEvidenceDigest.IsText ∧
    pf.Accepts (.dict c.authorityContext) := by
  have hs : c.status.value.IsText := by cases c.status <;> exact py_isText _
  rw [CandidateAct.value,accepts_fields hnfc c.literalKeys]
  simp only [CandidateAct.fields,List.forall_mem_cons,List.forall_mem_map,accepts_text,accepts_int,accepts_seq]
  simp only [PyStr.IsText] at hs ⊢
  simp [hs]

theorem HCAD.accepts {c : CandidateAct} (hc : pf.Accepts c.value) (sinkId boundaryId : Option PyStr)
    (hs : ∀ s, sinkId = some s → s.IsText) (hb : ∀ s, boundaryId = some s → s.IsText) :
    ∃ d, buildHcad pf c sinkId boundaryId = .ok d ∧ pf.Accepts (.fields .dataclass d.fields) := by
  obtain ⟨h1,h2,h3,h4,h5,h6,h7,h8,h9,h10,h11,h12,h13,h14,hp,h16,_⟩ := (CandidateAct.accepts_iff hnfc).mp hc
  obtain ⟨p,hpd⟩ := exists_sha256Hex.mpr hp
  have hsink : (sinkId.getD c.sinkId).IsText := by cases sinkId <;> simp_all
  have hboundary : (boundaryId.getD c.boundaryId).IsText := by cases boundaryId <;> simp_all
  have hdigest : p.IsText := (isHex_of_sha256Hex hpd).scalars
  have hschema : (py "finality-hcad/v1").IsText := py_isText _
  refine ⟨_,by simp only [buildHcad,CandidateAct.payloadDigest,hpd]; rfl,?_⟩
  rw [accepts_fields hnfc (HCAD.literalKeys _)]
  simp only [HCAD.fields,List.forall_mem_cons,List.forall_mem_map,accepts_text,accepts_int,accepts_seq]
  simp only [PyStr.IsText] at *
  simp_all

theorem ValidationEvidence.accepts_iff {e : ValidationEvidence} : pf.Accepts e.unsigned ↔
    e.evidenceId.IsText ∧ pf.Accepts (.fields .dict e.core) := by
  rw [ValidationEvidence.unsigned,accepts_fields hnfc e.literalKeys,accepts_fields hnfc e.literalKeys.tail,
    List.forall_mem_cons,accepts_text]
  rfl

theorem Capability.accepts_iff {cap : Capability} : pf.Accepts cap.unsigned ↔
    cap.capabilityId.IsText ∧ pf.Accepts (.fields .dict cap.core) := by
  rw [Capability.unsigned,accepts_fields hnfc cap.literalKeys,accepts_fields hnfc cap.literalKeys.tail,
    List.forall_mem_cons,accepts_text]
  rfl

theorem SinkReceipt.accepts_iff {r : SinkReceipt} : pf.Accepts r.unsigned ↔
    r.receiptId.IsText ∧ pf.Accepts (.fields .dict r.core) := by
  rw [SinkReceipt.unsigned,accepts_fields hnfc r.literalKeys,accepts_fields hnfc r.literalKeys.tail,
    List.forall_mem_cons,accepts_text]
  rfl

end Accepted

/-- What the next transition of a source prints. -/
def SourceState.Prints (pf : Platform) (st : SourceState) (cost : Int) : Prop :=
  ∀ n ∈ [st.version,st.version + 1,st.quota,st.quota - 1,st.budget,st.budget - cost], pf.Prints n

/-- The conditions under which `authorize` issues a capability. -/
structure Admissible (pf : Platform) (a : ProtectedAuthority) (state : ProtectedState) (store : EvidenceStore)
    (c : CandidateAct) (cost now : Int) : Prop where
  accepted : pf.Accepts c.value
  policy : (a.policy.validate c now).1 = true
  costPositive : 0 < cost
  nonce : state.nonces c.nonce = none
  quota : 1 ≤ (state.getSource c.source).1.quota
  budget : cost ≤ (state.getSource c.source).1.budget
  source : (state.getSource c.source).1.Prints pf cost
  authorityId : a.authorityId.IsText
  keyId : a.authenticator.keyId.IsText
  canSign : a.authenticator.CanSign
  trusts : Authenticator.Trusts pf store.authenticator a.authenticator
  commits : store.failCommits = false
  evidence : ∀ d t e, ProtectedAuthority.EvidenceFor pf a d c t now e → store.records e.evidenceId = none
  nowPrints : pf.Prints now
  expiresPrints : pf.Prints (min (c.issuedAtNs + c.freshnessNs) (now + a.capabilityTtlNs))

section Issued
variable {pf : Platform} (hnfc : pf.nfc.FixesAscii) {a : ProtectedAuthority} {state : ProtectedState}
  {store : EvidenceStore} {c : CandidateAct} {cost now : Int}
include hnfc

theorem ProtectedState.exists_nextTransition {st : SourceState} (hc : pf.Accepts c.value)
    (hst : st.Prints pf cost) : ∃ t, nextTransition pf st c cost = .ok t := by
  obtain ⟨d,hd⟩ := exists_sha256Hex.mpr hc
  have hdt := (isHex_of_sha256Hex hd).scalars
  obtain ⟨_,_,_,h4,_,_,_,h8,h9,_⟩ := (CandidateAct.accepts_iff hnfc).mp hc
  simp only [SourceState.Prints,List.forall_mem_cons] at hst
  have hcore (t : StateTransition) (hn : t.nonce = c.nonce) (hs : t.source = c.source)
      (hp : t.policyEpoch = c.policyEpoch)
      (hi : ∀ n ∈ [t.beforeVersion,t.afterVersion,t.quotaBefore,t.quotaAfter,t.budgetBefore,t.budgetAfter],
        pf.Prints n) : pf.Accepts (.fields .dict (transitionCore t d)) := by
    refine (accepts_fields hnfc ?_).mpr ?_
    · simp only [keys,transitionCore,List.map_cons,List.map_nil]
      decide
    · simp only [List.forall_mem_cons] at hi
      simp only [transitionCore,List.forall_mem_cons,accepts_text,accepts_int,hn,hs,hp]
      simp only [PyStr.IsText] at *
      simp_all
  obtain ⟨i,hi⟩ := exists_sha256Hex.mpr (hcore ⟨[],c.nonce,c.source,st.version,st.version + 1,st.quota,
    st.quota - 1,st.budget,st.budget - cost,c.policyEpoch⟩ rfl rfl rfl (by simpa using hst))
  exact ⟨_,by simp only [nextTransition,CandidateAct.digest,hd,CheckChains.ok_bind,hi]; rfl⟩

theorem exists_evidence {d : HCAD} {t : StateTransition} (hd : pf.Accepts (.fields .dataclass d.fields))
    (hc : pf.Accepts c.value) (ht : t.transitionId.IsText) (ha : a.authorityId.IsText)
    (hk : a.authenticator.keyId.IsText) (hs : a.authenticator.CanSign) (hn : pf.Prints now) :
    ∃ e, ProtectedAuthority.EvidenceFor pf a d c t now e := by
  obtain ⟨dd,hdd⟩ := exists_sha256Hex.mpr hd
  obtain ⟨cd,hcd⟩ := exists_sha256Hex.mpr hc
  obtain ⟨_,_,_,_,_,_,_,hp,_⟩ := (CandidateAct.accepts_iff hnfc).mp hc
  let e : ValidationEvidence := ⟨[],a.authorityId,dd,cd,t.transitionId,c.policyEpoch,.allow,[],now,[],
    a.authenticator.keyId⟩
  have he : pf.Accepts (.fields .dict e.core) := by
    have hdt := (isHex_of_sha256Hex hdd).scalars
    have hct := (isHex_of_sha256Hex hcd).scalars
    have hallow := PyStr.scalars_ofChars "ALLOW".toList
    apply (accepts_fields hnfc e.literalKeys.tail).mpr
    simp only [ValidationEvidence.core,List.forall_mem_cons,accepts_text,accepts_int,accepts_strs]
    simp only [PyStr.IsText] at *
    simp_all [e,Decision.value,py]
  obtain ⟨i,hi⟩ := exists_sha256Hex.mpr he
  have hu : pf.Accepts { e with evidenceId := i }.unsigned :=
    (ValidationEvidence.accepts_iff hnfc).mpr ⟨(isHex_of_sha256Hex hi).scalars,he⟩
  obtain ⟨sig,hsig⟩ := Authenticator.exists_sign.mpr ⟨hs,hu⟩
  refine ⟨{ e with evidenceId := i,signature := sig },rfl,hdd,hcd,rfl,rfl,rfl,rfl,rfl,rfl,?_,?_⟩
  · exact hi
  · exact hsig

theorem exists_capability {d : HCAD} {t : StateTransition} {e : ValidationEvidence}
    (hd : pf.Accepts (.fields .dataclass d.fields)) (hc : pf.Accepts c.value) (ht : t.transitionId.IsText)
    (he : e.evidenceId.IsText) (ha : a.authorityId.IsText) (hk : a.authenticator.keyId.IsText)
    (hs : a.authenticator.CanSign) (hn : pf.Prints now)
    (hx : pf.Prints (min (c.issuedAtNs + c.freshnessNs) (now + a.capabilityTtlNs))) :
    ∃ cap, ProtectedAuthority.CapabilityFor pf a d c t e now cap := by
  obtain ⟨dd,hdd⟩ := exists_sha256Hex.mpr hd
  obtain ⟨cd,hcd⟩ := exists_sha256Hex.mpr hc
  obtain ⟨_,_,_,_,_,_,_,hp,hno,_,_,hsi,hbi,hsc,_⟩ := (CandidateAct.accepts_iff hnfc).mp hc
  let cap : Capability := ⟨[],a.authorityId,cd,dd,c.sinkId,c.boundaryId,c.nonce,c.scope,c.policyEpoch,
    e.evidenceId,t.transitionId,now,min (c.issuedAtNs + c.freshnessNs) (now + a.capabilityTtlNs),
    a.authenticator.keyId,[]⟩
  have hcap : pf.Accepts (.fields .dict cap.core) := by
    have hdt := (isHex_of_sha256Hex hdd).scalars
    have hct := (isHex_of_sha256Hex hcd).scalars
    apply (accepts_fields hnfc cap.literalKeys.tail).mpr
    simp only [Capability.core,List.forall_mem_cons,accepts_text,accepts_int,accepts_strs]
    simp only [PyStr.IsText] at *
    simp_all [cap]
  obtain ⟨i,hi⟩ := exists_sha256Hex.mpr hcap
  have hu : pf.Accepts { cap with capabilityId := i }.unsigned :=
    (Capability.accepts_iff hnfc).mpr ⟨(isHex_of_sha256Hex hi).scalars,hcap⟩
  obtain ⟨sig,hsig⟩ := Authenticator.exists_sign.mpr ⟨hs,hu⟩
  refine ⟨{ cap with capabilityId := i,signature := sig },rfl,hcd,hdd,rfl,rfl,rfl,rfl,rfl,rfl,rfl,rfl,rfl,rfl,
    ?_,?_⟩
  · exact hi
  · exact hsig

/-- An admissible candidate is issued a capability. -/
theorem Admissible.authorize (h : Admissible pf a state store c cost now) :
    ∃ cap state' store', a.authorize pf state store c cost now = (.ok cap,state',store') := by
  obtain ⟨d,hd,hda⟩ := HCAD.accepts hnfc h.accepted none none (by simp) (by simp)
  obtain ⟨t,ht⟩ := ProtectedState.exists_nextTransition hnfc h.accepted h.source
  obtain ⟨_,_,hti⟩ := (ProtectedState.nextTransition_reserves h.costPositive ht).transitionId
  have htt : t.transitionId.IsText := (isHex_of_sha256Hex hti).scalars
  obtain ⟨e,he⟩ := exists_evidence hnfc hda h.accepted htt h.authorityId h.keyId h.canSign h.nowPrints
  obtain ⟨cap,hcap⟩ := exists_capability hnfc hda h.accepted htt (isHex_of_sha256Hex he.evidenceId).scalars
    h.authorityId h.keyId h.canSign h.nowPrints h.expiresPrints
  have htr := ProtectedState.transitionForAuthorization_eq_ok.mpr
    ⟨h.costPositive,h.nonce,h.quota,h.budget,ht,rfl⟩
  have hstore : store.authenticator.verify pf e.unsigned e.signature e.keyId = .ok true :=
    he.keyId ▸ h.trusts _ _ he.signature
  exact ⟨cap,_,_,ProtectedAuthority.authorize_eq_ok.mpr ⟨d,t,e,ProtectedAuthority.admission_eq_ok.mpr ⟨hd,h.policy⟩,
    htr,he,EvidenceStore.commit_eq_ok.mpr ⟨h.commits,hstore,h.evidence _ _ _ he,rfl⟩,hcap⟩⟩

end Issued

section Accepting
variable {pf : Platform} {a : ProtectedAuthority} {state state' : ProtectedState}
  {store store' : EvidenceStore} {c : CandidateAct} {cap : Capability} {cost now : Int}

/-- What the policy decision says about an admitted candidate. -/
theorem Policy.nonEffective_of_validate {p : Policy} (h : (p.validate c now).1 = true) :
    c.status = .nonEffective := by
  by_contra hs
  simp [Policy.validate,Policy.checks,hs] at h

private theorem digest_payload {q : PyVal} (h : c.payload.normalize pf.nfc false = q.normalize pf.nfc false) :
    ({ c with payload := q } : CandidateAct).digest pf = c.digest pf := by
  have hn : ({ c with payload := q } : CandidateAct).value.normalize pf.nfc false =
      c.value.normalize pf.nfc false :=
    PyVal.normalize_fields_congr (by simp [CandidateAct.fields,h])
  rw [CandidateAct.digest,CandidateAct.digest,sha256Hex,sha256Hex,canonicalBytes,canonicalBytes,hn]

/-- A sink in place for a candidate whose capability was issued at `now`. -/
structure Serves (pf : Platform) (a : ProtectedAuthority) (s : FinalitySink) (c : CandidateAct) : Prop where
  effectClass : c.effectClass = s.context.effectClass
  sinkId : c.sinkId = s.context.sinkId
  boundaryId : c.boundaryId = s.context.boundaryId
  policyEpoch : c.policyEpoch = s.context.policyEpoch
  scope : ∀ x ∈ c.scope, x ∈ s.context.supportedScopes
  trusts : Authenticator.Trusts pf s.authenticator a.authenticator

/-- A capability and its evidence, made for one candidate and one transition, pass every check
of a matching sink over stores that hold the evidence and a transition of the candidate. -/
theorem made_verified {d : HCAD} {tr : StateTransition} {e : ValidationEvidence} {s : FinalitySink} {q : PyVal}
    {made t : Int} {proof : Option PresentationProof} (hd : buildHcad pf c none none = .ok d)
    (hstatus : c.status = .nonEffective) (he : ProtectedAuthority.EvidenceFor pf a d c tr made e)
    (hcap : ProtectedAuthority.CapabilityFor pf a d c tr e now cap) (hstored : store.records e.evidenceId = some e)
    (htransition : state.verifyTransition tr.transitionId c = true) (hs : Serves pf a s c)
    (hq : c.payload.normalize pf.nfc false = q.normalize pf.nfc false)
    (hissued : now - s.maxClockSkewNs ≤ t) (hexpires : t ≤ cap.expiresAtNs)
    (hproof : s.requirePresentationProof = true → ∃ p registry, proof = some p ∧
      s.presenterVerifier = some registry ∧
      FinalitySink.Presented pf s { c with payload := q } cap t p registry) :
    FinalitySink.Verified pf s store state { c with payload := q } cap t proof := by
  have hdescriptor : buildHcad pf { c with payload := q } (some s.context.sinkId) (some s.context.boundaryId) =
      .ok d := by
    rw [← hd]
    simp only [buildHcad,CandidateAct.payloadDigest,sha256Hex,canonicalBytes,hq,hs.sinkId,hs.boundaryId,
      Option.getD_some,Option.getD_none]
  exact {
    status := hstatus
    effectClass := hs.effectClass
    candidateSink := hs.sinkId
    capSink := hcap.sinkId.trans hs.sinkId
    candidateBoundary := hs.boundaryId
    capBoundary := hcap.boundaryId.trans hs.boundaryId
    candidateEpoch := hs.policyEpoch
    capEpoch := hcap.policyEpoch.trans hs.policyEpoch
    scope := hcap.scope.symm
    supported := hcap.scope ▸ hs.scope
    nonce := hcap.nonce
    issued := hcap.issuedAtNs ▸ hissued
    expires := hexpires
    outlives := by rw [hcap.expiresAtNs]; exact min_le_left _ _
    signature := hcap.keyId ▸ hs.trusts _ _ hcap.signature
    presentation := hproof
    candidateDigest := (digest_payload hq).trans hcap.candidateDigest
    descriptorDigest := ⟨d,hdescriptor,hcap.descriptorDigest⟩
    evidence := ⟨e,hcap.evidenceId ▸ hstored,{
      signature := he.keyId ▸ hs.trusts _ _ he.signature
      decision := he.decision
      authorityId := he.authorityId.trans hcap.authorityId.symm
      candidateDigest := Except.ok.inj (he.candidateDigest.symm.trans hcap.candidateDigest)
      descriptorDigest := Except.ok.inj (he.descriptorDigest.symm.trans hcap.descriptorDigest)
      transitionId := he.transitionId.trans hcap.transitionId.symm
      policyEpoch := he.policyEpoch.trans hcap.policyEpoch.symm }⟩
    transition := hcap.transitionId ▸ htransition }

/-- What `authorize` issues passes every check of a matching sink in its time window,
with the payload of the candidate or any payload of the same normal form. -/
theorem issued_verified {s : FinalitySink} {q : PyVal} {t : Int} {proof : Option PresentationProof}
    (h : a.authorize pf state store c cost now = (.ok cap,state',store')) (hs : Serves pf a s c)
    (hq : c.payload.normalize pf.nfc false = q.normalize pf.nfc false)
    (hissued : now - s.maxClockSkewNs ≤ t) (hexpires : t ≤ cap.expiresAtNs)
    (hproof : s.requirePresentationProof = true → ∃ p registry, proof = some p ∧
      s.presenterVerifier = some registry ∧
      FinalitySink.Presented pf s { c with payload := q } cap t p registry) :
    FinalitySink.Verified pf s store' state' { c with payload := q } cap t proof := by
  obtain ⟨d,tr,e,hadm,htr,he,hcommit,hcap⟩ := ProtectedAuthority.authorize_eq_ok.mp h
  obtain ⟨hd,hpolicy⟩ := ProtectedAuthority.admission_eq_ok.mp hadm
  obtain ⟨-,hr,hnonces,htransitions⟩ := ProtectedState.transitionForAuthorization_ok htr
  obtain ⟨-,-,-,rfl⟩ := EvidenceStore.commit_eq_ok.mp hcommit
  have htransition : state'.verifyTransition tr.transitionId c = true :=
    ProtectedState.verifyTransition_eq_true.mpr ⟨tr,by simp [htransitions],hr.nonce,hr.source,
      hr.policyEpoch,hr.version,hr.quota,hr.budget,by simp [hnonces]⟩
  exact made_verified hd (Policy.nonEffective_of_validate hpolicy) he hcap (Function.update_self ..) htransition hs hq
    hissued hexpires hproof

end Accepting
/-! A closed instance: an authority with an Ed25519 key, an act it admits, and a sink
and an effector for the act. -/

def sampleAct (nonce : PyStr) (payload : PyVal) : CandidateAct where
  actId := py "act-1"
  actClass := py "transfer"
  effectClass := py "payment"
  source := py "agent"
  destination := py "ledger"
  purpose := py "settlement"
  jurisdiction := py "EU"
  policyEpoch := 7
  nonce := nonce
  issuedAtNs := 100
  freshnessNs := 1000
  sinkId := py "sink"
  boundaryId := py "boundary"
  scope := [py "pay"]
  payload := payload
  runtimeEvidenceDigest := py "measured"
  authorityContext := [(.str (py "presenter_key_id"),.str (py "presenter"))]

def sampleAuthority : ProtectedAuthority where
  authorityId := py "authority"
  policy := {
    policyEpoch := 7
    allowedPurposes := {py "settlement"}
    allowedJurisdictions := {py "EU"}
    allowedSinks := {py "sink"}
    allowedBoundaries := {py "boundary"}
    allowedEffectClasses := {py "payment"}
    allowedScopes := {py "pay"} }
  authenticator := .signer samplePlatform (py "authority-key") [1]

def sampleState : ProtectedState := {}

def sampleEvidenceStore : EvidenceStore where
  authenticator := sampleAuthority.authenticator

theorem sampleAct_accepted (nonce : PyStr) (payload : PyVal) (hn : nonce.IsText)
    (hp : samplePlatform.Accepts payload) : samplePlatform.Accepts (sampleAct nonce payload).value := by
  have hctx : samplePlatform.Accepts (.fields .dict [("presenter_key_id",.str (py "presenter"))]) := by
    apply (accepts_fields sampleNfc_fixesAscii (by simp only [keys,List.map_cons,List.map_nil]; decide)).mpr
    intro f hf
    cases List.mem_singleton.mp hf
    exact accepts_text.mpr (py_isText _)
  refine (CandidateAct.accepts_iff sampleNfc_fixesAscii).mpr ⟨py_isText _,py_isText _,py_isText _,py_isText _,
    py_isText _,py_isText _,py_isText _,prints_of_lt (show (7 : Int).natAbs < 10^9 by decide),hn,
    prints_of_lt (show (100 : Int).natAbs < 10^9 by decide),
    prints_of_lt (show (1000 : Int).natAbs < 10^9 by decide),py_isText _,py_isText _,?_,hp,py_isText _,hctx⟩
  intro x hx
  cases List.mem_singleton.mp hx
  exact py_isText _

theorem sampleAct_validates (nonce : PyStr) (payload : PyVal) (now : Int) (hlow : -999999900 ≤ now)
    (hhigh : now ≤ 1100) : (sampleAuthority.policy.validate (sampleAct nonce payload) now).1 = true := by
  have h1 : ¬ now < 100 - 1000000000 := by omega
  have h2 : ¬ now > 100 + 1000 := by omega
  simp only [Policy.validate,Policy.checks,sampleAuthority,sampleAct,h1,h2]
  rfl

theorem sampleAct_admissible (nonce : PyStr) (payload : PyVal) (hn : nonce.IsText)
    (hp : samplePlatform.Accepts payload) :
    Admissible samplePlatform sampleAuthority sampleState sampleEvidenceStore (sampleAct nonce payload) 1 200 where
  accepted := sampleAct_accepted nonce payload hn hp
  policy := sampleAct_validates nonce payload 200 (by decide) (by decide)
  costPositive := by decide
  nonce := rfl
  quota := (show (1 : Int) ≤ 1000 by decide)
  budget := (show (1 : Int) ≤ 1000 by decide)
  source := fun n hn => prints_of_lt
    ((show ∀ n ∈ [(0 : Int),0 + 1,1000,1000 - 1,1000,1000 - 1], n.natAbs < 10^9 by decide) n hn)
  authorityId := py_isText _
  keyId := py_isText _
  canSign := fun _ _ => (nomatch ·)
  trusts := (Authenticator.signer_paired _ _).trusts
  commits := rfl
  evidence := fun _ _ _ _ => rfl
  nowPrints := prints_of_lt (by decide)
  expiresPrints := prints_of_lt (show (min ((100 : Int) + 1000) (200 + 5000000000)).natAbs < 10^9 by decide)

theorem exists_sample_authorize (nonce : String) : ∃ cap state store, sampleAuthority.authorize samplePlatform
    sampleState sampleEvidenceStore (sampleAct (py nonce) .none) 1 200 = (.ok cap,state,store) :=
  (sampleAct_admissible (py nonce) .none (py_isText _) ⟨_,rfl⟩).authorize sampleNfc_fixesAscii

/-- The counters of the sample source after its first act -/
theorem agent_afterAuthorize {nonce : PyStr} {payload : PyVal} {cap : Capability} {state : ProtectedState}
    {store : EvidenceStore} (hauth : sampleAuthority.authorize samplePlatform sampleState sampleEvidenceStore
      (sampleAct nonce payload) 1 200 = (.ok cap,state,store)) :
    (state.getSource (py "agent")).1 = ⟨1,999,999⟩ := by
  obtain ⟨_,t,_,_,htr,_⟩ := ProtectedAuthority.authorize_eq_ok.mp hauth
  obtain ⟨_,hr,_⟩ := ProtectedState.transitionForAuthorization_ok htr
  obtain ⟨_,_,_,_,ht,rfl⟩ := ProtectedState.transitionForAuthorization_eq_ok.mp htr
  obtain ⟨hv,hq,hb⟩ := ProtectedState.nextTransition_after ht
  have hs := ProtectedState.getSource_record (sampleState.getSource (py "agent")).2 t
  rw [hr.source,hv,hq,hb] at hs
  exact congrArg Prod.fst hs

/-- After one act the sample authority still admits an act of another nonce, as long as the counters of the
source allow it. -/
theorem next_admissible {nonce nonce' : PyStr} (hne : nonce' ≠ nonce) (htext : nonce'.IsText) {cap : Capability}
    {state state' : ProtectedState} {store : EvidenceStore} (hauth : sampleAuthority.authorize samplePlatform sampleState
      sampleEvidenceStore (sampleAct nonce .none) 1 200 = (.ok cap,state,store)) (hnonces' : state'.nonces = state.nonces)
    {st : SourceState} (hst : (state'.getSource (py "agent")).1 = st) (hquota : 1 ≤ st.quota) (hbudget : 1 ≤ st.budget)
    (hprints : st.Prints samplePlatform 1) :
    Admissible samplePlatform sampleAuthority state' store (sampleAct nonce' .none) 1 201 := by
  obtain ⟨d,t,e,_,htr,he,hcommit,_⟩ := ProtectedAuthority.authorize_eq_ok.mp hauth
  obtain ⟨_,_,hnonces,_⟩ := ProtectedState.transitionForAuthorization_ok htr
  obtain ⟨_,_,_,rfl⟩ := EvidenceStore.commit_eq_ok.mp hcommit
  have hfirst := sampleAct_admissible nonce' .none htext ⟨_,rfl⟩
  exact {
    accepted := hfirst.accepted
    policy := sampleAct_validates _ _ 201 (by decide) (by decide)
    costPositive := by decide
    nonce := by
      rw [hnonces',hnonces]
      exact Function.update_of_ne hne ..
    quota := hst ▸ hquota
    budget := hst ▸ hbudget
    source := hst ▸ hprints
    authorityId := hfirst.authorityId
    keyId := hfirst.keyId
    canSign := hfirst.canSign
    trusts := hfirst.trusts
    commits := rfl
    evidence := fun _ _ _ he' =>
      Function.update_of_ne (he'.evidenceId_ne samplePlatform_noCollision he (by decide)) ..
    nowPrints := prints_of_lt (by decide)
    expiresPrints := prints_of_lt (show (min ((100 : Int) + 1000) (201 + 5000000000)).natAbs < 10^9 by decide) }

theorem exists_sample_authorize_next {nonce nonce' : PyStr} (hne : nonce' ≠ nonce) (htext : nonce'.IsText)
    {cap : Capability} {state : ProtectedState} {store : EvidenceStore} (hauth : sampleAuthority.authorize samplePlatform
      sampleState sampleEvidenceStore (sampleAct nonce .none) 1 200 = (.ok cap,state,store)) :
    ∃ cap' state' store', sampleAuthority.authorize samplePlatform state store (sampleAct nonce' .none) 1 201 =
      (.ok cap',state',store') :=
  (next_admissible hne htext hauth rfl (agent_afterAuthorize hauth) (by decide) (by decide) fun n hn => prints_of_lt
    ((show ∀ n ∈ [(1 : Int),1 + 1,999,999 - 1,999,999 - 1], n.natAbs < 10^9 by decide) n hn)).authorize
    sampleNfc_fixesAscii

/-- The sample authority authorizes two acts, one after the other. -/
theorem exists_sample_authorize_two (nonce nonce' : String) (hne : py nonce' ≠ py nonce) :
    ∃ cap state store cap' state' store',
      sampleAuthority.authorize samplePlatform sampleState sampleEvidenceStore (sampleAct (py nonce) .none) 1 200 =
        (.ok cap,state,store) ∧
      sampleAuthority.authorize samplePlatform state store (sampleAct (py nonce') .none) 1 201 =
        (.ok cap',state',store') := by
  obtain ⟨cap,state,store,hauth⟩ := exists_sample_authorize nonce
  obtain ⟨cap',state',store',hauth'⟩ := exists_sample_authorize_next hne (py_isText _) hauth
  exact ⟨cap,state,store,cap',state',store',hauth,hauth'⟩

theorem sample_expires {d : HCAD} {nonce : PyStr} {payload : PyVal} {t : StateTransition} {e : ValidationEvidence}
    {cap : Capability} {now : Int} (h : ProtectedAuthority.CapabilityFor samplePlatform sampleAuthority d
      (sampleAct nonce payload) t e now cap) (hnow : 0 ≤ now) : 300 ≤ cap.expiresAtNs := by
  rw [h.expiresAtNs]
  exact (show (300 : Int) ≤ min (100 + 1000) (now + 5000000000) by omega)

def samplePresenter : Presenter := ⟨.signer samplePlatform (py "presenter") [2]⟩

/-- A sink for the sample act, for a choice of its verification and receipt keys. -/
def sampleSink (authenticator : Authenticator) (receiptAuthenticator? : Option Authenticator) (strict : Bool) :
    FinalitySink where
  context := {
    sinkId := py "sink"
    boundaryId := py "boundary"
    policyEpoch := 7
    supportedScopes := {py "pay"}
    effectClass := py "payment" }
  authenticator := authenticator
  marker := 0
  receiptAuthenticator? := receiptAuthenticator?
  presenterVerifier := some ⟨fun id => if id = py "presenter" then some samplePresenter.authenticator else none⟩
  requirePresentationProof := strict

theorem sampleSink_serves {authenticator : Authenticator} {receipt : Option Authenticator} {strict : Bool}
    (h : Authenticator.Trusts samplePlatform authenticator sampleAuthority.authenticator) (nonce : PyStr)
    (payload : PyVal) : Serves samplePlatform sampleAuthority (sampleSink authenticator receipt strict)
      (sampleAct nonce payload) where
  effectClass := rfl
  sinkId := rfl
  boundaryId := rfl
  policyEpoch := rfl
  scope := fun _ hx => Finset.mem_singleton.mpr (List.mem_singleton.mp hx)
  trusts := h

/-- At time 300 the sample sink accepts the sample act, with any payload of one normal form. -/
theorem sample_verified {authenticator : Authenticator} {receipt : Option Authenticator} {nonce : PyStr}
    {payload q : PyVal} {cap : Capability} {state₀ state : ProtectedState} {store₀ store : EvidenceStore} {now : Int}
    (htrust : Authenticator.Trusts samplePlatform authenticator sampleAuthority.authenticator)
    (hauth : sampleAuthority.authorize samplePlatform state₀ store₀ (sampleAct nonce payload) 1 now =
      (.ok cap,state,store)) (hlow : 0 ≤ now) (hhigh : now ≤ 300)
    (hq : payload.normalize samplePlatform.nfc false = q.normalize samplePlatform.nfc false) :
    FinalitySink.Verified samplePlatform (sampleSink authenticator receipt false) store state (sampleAct nonce q) cap
      300 none := by
  obtain ⟨_,_,_,_,_,_,_,hcap⟩ := ProtectedAuthority.authorize_eq_ok.mp hauth
  exact issued_verified hauth (sampleSink_serves htrust nonce payload) hq
    (show now - 1000000000 ≤ 300 by omega) (sample_expires hcap hlow) (by rintro ⟨⟩)

theorem sample_verify {authenticator : Authenticator} {receipt : Option Authenticator} {nonce : PyStr} {payload : PyVal}
    {cap : Capability} {state : ProtectedState} {store : EvidenceStore}
    (htrust : Authenticator.Trusts samplePlatform authenticator sampleAuthority.authenticator)
    (hauth : sampleAuthority.authorize samplePlatform sampleState sampleEvidenceStore (sampleAct nonce payload)
      1 200 = (.ok cap,state,store)) : (sampleSink authenticator receipt false).verify samplePlatform store state
        (sampleAct nonce payload) cap 300 none = .ok cap.descriptorDigest :=
  FinalitySink.verify_eq_ok.mpr ⟨sample_verified htrust hauth (by decide) (by decide) rfl,rfl⟩

def sampleEffector : GuardedEffector where
  channel := py "payment-ledger"
  marker := 0

theorem sampleEffector_newRecord {c : CandidateAct} (hc : samplePlatform.Accepts c.value)
    (records : List EffectRecord) (hr : records.length < 10^9) :
    ∃ record, ({ sampleEffector with records } : GuardedEffector).newRecord samplePlatform c = .ok record := by
  obtain ⟨d,hd⟩ := exists_sha256Hex.mpr hc
  have href : samplePlatform.Accepts (.fields .dict [("channel",.str sampleEffector.channel),
      ("candidate_digest",.str d),("ordinal",.int records.length)]) := by
    apply (accepts_fields sampleNfc_fixesAscii (by simp only [keys,List.map_cons,List.map_nil]; decide)).mpr
    simp only [List.forall_mem_cons,accepts_text,accepts_int]
    exact ⟨py_isText _,(isHex_of_sha256Hex hd).scalars,prints_of_lt hr,by simp⟩
  obtain ⟨ref,href⟩ := exists_sha256Hex.mpr href
  exact ⟨⟨_,d,ref,c.payload⟩,GuardedEffector.newRecord_eq_ok.mpr ⟨hd,rfl,rfl,href⟩⟩

end ExecutionFinality
