import ExecutionFinality.Reference.Issuance

/-! What one call of `effectuate` can do to the stores, and what it returns. -/
namespace ExecutionFinality
open Platform
open Function (update)

namespace FinalitySink
variable {pf : Platform} {s : FinalitySink} {evidenceStore : EvidenceStore} {protectedState : ProtectedState}
  {consumption consumption' : ConsumptionStore} {effector effector' : GuardedEffector}
  {candidate : CandidateAct} {cap : Capability} {now : Int} {proof : Option PresentationProof}
  {out : Except Exn SinkReceipt}

/-- The claim that a verified call makes. -/
def claimed (s : FinalitySink) (consumption : ConsumptionStore) (cap : Capability) (now : Int) :
    ConsumptionStore :=
  ⟨update consumption.claims cap.capabilityId (some (s.context.sinkId,s.context.boundaryId,cap.nonce,now))⟩

/-- The call gets past verification, the claim and the commit. -/
structure Commits (pf : Platform) (s : FinalitySink) (evidenceStore : EvidenceStore)
    (protectedState : ProtectedState) (consumption : ConsumptionStore) (effector : GuardedEffector)
    (candidate : CandidateAct) (cap : Capability) (now : Int) (proof : Option PresentationProof)
    (record : EffectRecord) : Prop where
  verified : Verified pf s evidenceStore protectedState candidate cap now proof
  unclaimed : consumption.claims cap.capabilityId = none
  marker : s.marker = effector.marker
  working : effector.failNext = false
  record : effector.newRecord pf candidate = .ok record

theorem Commits.effectuate_eq {record : EffectRecord}
    (h : Commits pf s evidenceStore protectedState consumption effector candidate cap now proof record) :
    s.effectuate pf evidenceStore protectedState consumption effector candidate cap now proof =
      (s.receipt pf candidate cap cap.descriptorDigest record now,s.claimed consumption cap now,
        { effector with records := effector.records ++ [record] }) := by
  have hclaim : consumption.claim cap.capabilityId s.context.sinkId s.context.boundaryId cap.nonce now =
      .ok (s.claimed consumption cap now) := ConsumptionStore.claim_eq_ok.mpr ⟨h.unclaimed,rfl⟩
  have hcommit := GuardedEffector.commit_ok.mpr ⟨h.marker,h.working,h.record,rfl⟩
  simp only [FinalitySink.effectuate,verify_eq_ok.mpr ⟨h.verified,rfl⟩,hclaim,hcommit]

/-- A call is refused with the stores untouched, fails at the effector with the
claim made and no record added, or commits one record. -/
theorem effectuate_cases
    (h : s.effectuate pf evidenceStore protectedState consumption effector candidate cap now proof =
      (out,consumption',effector')) :
    ((∃ e, out = .error e) ∧ consumption' = consumption ∧ effector' = effector) ∨
    ((∃ e, out = .error e) ∧ Verified pf s evidenceStore protectedState candidate cap now proof ∧
      consumption.claims cap.capabilityId = none ∧ consumption' = s.claimed consumption cap now ∧
      effector'.records = effector.records) ∨
    (∃ record, Commits pf s evidenceStore protectedState consumption effector candidate cap now proof record ∧
      out = s.receipt pf candidate cap cap.descriptorDigest record now ∧
      consumption' = s.claimed consumption cap now ∧
      effector' = { effector with records := effector.records ++ [record] }) := by
  unfold FinalitySink.effectuate at h
  split at h
  · cases h
    exact .inl ⟨⟨_,rfl⟩,rfl,rfl⟩
  rename_i d hok
  obtain ⟨hv,rfl⟩ := verify_eq_ok.mp hok
  split at h
  · cases h
    exact .inl ⟨⟨_,rfl⟩,rfl,rfl⟩
  rename_i hok'
  obtain ⟨hc,rfl⟩ := ConsumptionStore.claim_eq_ok.mp hok'
  split at h
  · rename_i he
    cases h
    exact .inr (.inl ⟨⟨_,rfl⟩,hv,hc,rfl,GuardedEffector.commit_error he⟩)
  · rename_i record effector'' he
    simp only [Prod.mk.injEq] at h
    obtain ⟨rfl,rfl,rfl⟩ := h
    obtain ⟨hm,hf,hr,rfl⟩ := GuardedEffector.commit_ok.mp he
    exact .inr (.inr ⟨record,⟨hv,hc,hm,hf,hr⟩,rfl,rfl,rfl⟩)

/-- The payload that takes effect is the authorized one, unless a byte string in one
of the two payloads stands where the other has a mapping. -/
theorem effect_payload_sameData_iff (hcollision : pf.NoCollision) {a : ProtectedAuthority}
    {state state' : ProtectedState} {store store' : EvidenceStore} {c : CandidateAct} {cost issued : Int}
    (hauth : a.authorize pf state store c cost issued = (.ok cap,state',store'))
    (heff : s.effectuate pf evidenceStore protectedState consumption effector candidate cap now proof =
      (out,consumption',effector'))
    {record : EffectRecord} (hrec : effector'.records = effector.records ++ [record]) :
    SameData pf.nfc record.payload c.payload ↔ ¬ TagClash pf.nfc candidate.payload c.payload := by
  obtain ⟨d,tr,e,_,_,_,_,hcap⟩ := ProtectedAuthority.authorize_eq_ok.mp hauth
  rcases effectuate_cases heff with ⟨_,_,rfl⟩ | ⟨_,_,_,_,hsame⟩ | ⟨record',hcommit,_,_,rfl⟩
  · simp at hrec
  · simp [hsame] at hrec
  cases List.singleton_inj.mp (List.append_cancel_left hrec)
  obtain ⟨_,_,hpayload,_⟩ := GuardedEffector.newRecord_eq_ok.mp hcommit.record
  rw [hpayload]
  -- One candidate digest means one normal form of the payload field.
  have hsame := (hcollision.sameNormal hcommit.verified.candidateDigest hcap.candidateDigest).value "payload"
    (v := candidate.payload) (w := c.payload) (by simp [CandidateAct.fields])
    (by simp [CandidateAct.fields])
  obtain ⟨j,hi,hj⟩ := hsame
  exact ⟨fun h => PyVal.not_tagClash_of_sameData _ _ j j h hi hj,PyVal.sameData_of_normalize_eq _ _ j hi hj⟩

/-- The sample act, authorized with one payload and presented with another of the
same normal form, takes effect. -/
theorem sample_commits (authenticator : Authenticator) (receipt : Option Authenticator) (nonce : PyStr)
    (payload q : PyVal) (htrust : Authenticator.Trusts samplePlatform authenticator sampleAuthority.authenticator)
    (hn : nonce.IsText) (hp : samplePlatform.Accepts payload)
    (hq : payload.normalize samplePlatform.nfc false = q.normalize samplePlatform.nfc false) :
    ∃ cap state store record, sampleAuthority.authorize samplePlatform sampleState sampleEvidenceStore
        (sampleAct nonce payload) 1 200 = (.ok cap,state,store) ∧
      Commits samplePlatform (sampleSink authenticator receipt false) store state {} sampleEffector
        (sampleAct nonce q) cap 300 none record := by
  obtain ⟨cap,state,store,hauth⟩ := (sampleAct_admissible nonce payload hn hp).authorize sampleNfc_fixesAscii
  have hq' : samplePlatform.Accepts q := by
    obtain ⟨b,hb⟩ := hp
    exact ⟨b,by rwa [canonicalBytes,← hq]⟩
  obtain ⟨record,hrecord⟩ := sampleEffector_newRecord (sampleAct_accepted nonce q hn hq') [] (by decide)
  exact ⟨cap,state,store,record,hauth,sample_verified htrust hauth (by decide) (by decide) hq,rfl,rfl,rfl,hrecord⟩

theorem effect_payload_sameData_sample : ∃ cap state store consumption effector out record,
    sampleAuthority.authorize samplePlatform sampleState sampleEvidenceStore
      (sampleAct (py "n") (.tuple [.int 5])) 1 200 = (.ok cap,state,store) ∧
    (sampleSink sampleAuthority.authenticator none false).effectuate samplePlatform store state {} sampleEffector
      (sampleAct (py "n") (.list [.int 5])) cap 300 none = (out,consumption,effector) ∧
    effector.records = [record] ∧
    (SameData sampleNfc record.payload (.tuple [.int 5]) ↔
      ¬ TagClash sampleNfc (.list [.int 5]) (.tuple [.int 5])) := by
  obtain ⟨cap,state,store,record,hauth,h⟩ := sample_commits sampleAuthority.authenticator none (py "n")
    (.tuple [.int 5]) (.list [.int 5]) (Authenticator.signer_paired _ _).trusts (py_isText _)
    (by simpa using prints_of_lt (n := 5) (by decide)) rfl
  exact ⟨cap,state,store,_,_,_,record,hauth,h.effectuate_eq,rfl,
    effect_payload_sameData_iff samplePlatform_noCollision hauth h.effectuate_eq rfl⟩

/-- A byte string was authorized, the dictionary that spells its tagged form takes effect. -/
theorem effect_payload_tag_counterexample : ∃ cap state store consumption effector out record,
    sampleAuthority.authorize samplePlatform sampleState sampleEvidenceStore
      (sampleAct (py "n") (.bytes [255])) 1 200 = (.ok cap,state,store) ∧
    (sampleSink sampleAuthority.authenticator none false).effectuate samplePlatform store state {} sampleEffector
      (sampleAct (py "n") (.dict [(.str (py "$bytes_hex"),.str (py "ff"))])) cap 300 none =
        (out,consumption,effector) ∧
    effector.records = [record] ∧ ¬ SameData sampleNfc record.payload (.bytes [255]) := by
  obtain ⟨cap,state,store,record,hauth,h⟩ := sample_commits sampleAuthority.authenticator none (py "n")
    (.bytes [255]) (.dict [(.str (py "$bytes_hex"),.str (py "ff"))]) (Authenticator.signer_paired _ _).trusts
    (py_isText _)
    ⟨_,rfl⟩ rfl
  refine ⟨cap,state,store,_,_,_,record,hauth,h.effectuate_eq,rfl,?_⟩
  rw [(GuardedEffector.newRecord_eq_ok.mp h.record).2.2.1]
  exact id

/-- A receipt as `effectuate` makes it for a committed record. -/
structure ReceiptFor (pf : Platform) (s : FinalitySink) (candidate : CandidateAct) (cap : Capability)
    (descriptorDigest : PyStr) (record : EffectRecord) (now : Int) (r : SinkReceipt) : Prop where
  capabilityId : r.capabilityId = cap.capabilityId
  candidateDigest : candidate.digest pf = .ok r.candidateDigest
  descriptorDigest : r.descriptorDigest = descriptorDigest
  sinkId : r.sinkId = s.context.sinkId
  boundaryId : r.boundaryId = s.context.boundaryId
  transitionId : r.transitionId = cap.transitionId
  scope : r.scope = cap.scope
  effectStatus : r.effectStatus = py "EFFECTIVE"
  committedAtNs : r.committedAtNs = now
  effectReference : r.effectReference = some record.effectReference
  keyId : r.keyId = s.receiptAuthenticator.keyId
  receiptId : pf.sha256Hex (.fields .dict r.core) = .ok r.receiptId
  signature : s.receiptAuthenticator.sign pf r.unsigned = .ok r.signature

theorem receipt_eq_ok {d : PyStr} {record : EffectRecord} {r : SinkReceipt} :
    s.receipt pf candidate cap d record now = .ok r ↔ ReceiptFor pf s candidate cap d record now r := by
  simp only [receipt,CheckChains.bind_eq_ok,CheckChains.pure_eq_ok]
  constructor
  · rintro ⟨c,hc,i,hi,g,hg,rfl⟩
    exact ⟨rfl,hc,rfl,rfl,rfl,rfl,rfl,rfl,rfl,rfl,rfl,hi,hg⟩
  · intro h
    obtain ⟨ri,ci,cd,dd,si,bi,ti,sc,es,ca,er,sg,ki⟩ := r
    obtain ⟨h1,hc,h2,h3,h4,h5,h6,h7,h8,h9,h10,hi,hg⟩ := h
    dsimp only at h1 h2 h3 h4 h5 h6 h7 h8 h9 h10
    subst h1 h2 h3 h4 h5 h6 h7 h8 h9 h10
    exact ⟨_,hc,_,hi,_,hg,rfl⟩

/-- What a receipt needs beyond the checks and the commit that came before it. -/
structure ReceiptReady (pf : Platform) (s : FinalitySink) (now : Int) : Prop where
  canSign : s.receiptAuthenticator.CanSign
  keyId : s.receiptAuthenticator.keyId.IsText
  now : pf.Prints now

/-- After a commit the receipt is made exactly when its key can sign and its key
identifier and its time can be encoded. -/
theorem Commits.exists_receipt_iff (hnfc : pf.nfc.FixesAscii) {record : EffectRecord}
    (h : Commits pf s evidenceStore protectedState consumption effector candidate cap now proof record) :
    (∃ r, s.receipt pf candidate cap cap.descriptorDigest record now = .ok r) ↔ ReceiptReady pf s now := by
  simp only [receipt_eq_ok]
  constructor
  · rintro ⟨r,hr⟩
    obtain ⟨hs,hu⟩ := Authenticator.exists_sign.mp ⟨_,hr.signature⟩
    have hcore := ((SinkReceipt.accepts_iff hnfc).mp hu).2
    refine ⟨hs,?_,?_⟩
    · rw [← hr.keyId]
      exact accepts_text.mp (hcore.field (f := ("key_id",.str r.keyId)) (by simp [SinkReceipt.core]))
    · rw [← hr.committedAtNs]
      exact accepts_int.mp (hcore.field (f := ("committed_at_ns",.int r.committedAtNs))
        (by simp [SinkReceipt.core]))
  · intro hready
    have hv := h.verified
    obtain ⟨hrd,_,_,href⟩ := GuardedEffector.newRecord_eq_ok.mp h.record
    obtain ⟨_,_,hdd⟩ := hv.descriptorDigest
    have hrt : record.candidateDigest.IsText := (isHex_of_sha256Hex hrd).scalars
    have het : record.effectReference.IsText := (isHex_of_sha256Hex href).scalars
    have hdt : cap.descriptorDigest.IsText := (isHex_of_sha256Hex hdd).scalars
    have hstatus : (py "EFFECTIVE").IsText := py_isText _
    obtain ⟨hid,hcore⟩ := (Capability.accepts_iff hnfc).mp (Authenticator.verify_eq_true hv.signature).2
    have hcap := (accepts_fields hnfc cap.literalKeys.tail).mp hcore
    simp only [Capability.core,List.forall_mem_cons,accepts_text,accepts_int,accepts_strs,hv.capSink,
      hv.capBoundary] at hcap
    let r : SinkReceipt := ⟨[],cap.capabilityId,record.candidateDigest,cap.descriptorDigest,s.context.sinkId,
      s.context.boundaryId,cap.transitionId,cap.scope,py "EFFECTIVE",now,some record.effectReference,[],
      s.receiptAuthenticator.keyId⟩
    have hr : pf.Accepts (.fields .dict r.core) := by
      apply (accepts_fields hnfc r.literalKeys.tail).mpr
      have hkey := hready.keyId
      simp only [SinkReceipt.core,List.forall_mem_cons,accepts_text,accepts_int,accepts_strs,r,Option.elim_some]
      simp only [PyStr.IsText] at *
      exact ⟨hid,hrt,hdt,hcap.2.2.2.1,hcap.2.2.2.2.1,hcap.2.2.2.2.2.2.2.2.2.1,hcap.2.2.2.2.2.2.1,hstatus,
        hready.now,het,hkey,by simp⟩
    obtain ⟨i,hi⟩ := exists_sha256Hex.mpr hr
    have hu : pf.Accepts { r with receiptId := i }.unsigned :=
      (SinkReceipt.accepts_iff hnfc).mpr ⟨(isHex_of_sha256Hex hi).scalars,hr⟩
    obtain ⟨g,hg⟩ := Authenticator.exists_sign.mpr ⟨hready.canSign,hu⟩
    refine ⟨{ r with receiptId := i,signature := g },rfl,hrd,rfl,rfl,rfl,rfl,rfl,rfl,rfl,rfl,rfl,?_,?_⟩
    · exact hi
    · exact hg

end FinalitySink
end ExecutionFinality
