import ExecutionFinality.Interop.VerifierAgreement
import ExecutionFinality.Reference.Sink

/-! Bundles as `generate_finality_case.py` writes them: the records of the reference in one
document, and what it means for them to be linked. -/
namespace ExecutionFinality
open Utf8 (Bytes)
open KeyedEntries
open Node (field strictEq)

def StateTransition.fields (t : StateTransition) : List (String × PyVal) :=
  [("transition_id",.str t.transitionId),("nonce",.str t.nonce),("source",.str t.source),
    ("before_version",.int t.beforeVersion),("after_version",.int t.afterVersion),
    ("quota_before",.int t.quotaBefore),("quota_after",.int t.quotaAfter),("budget_before",.int t.budgetBefore),
    ("budget_after",.int t.budgetAfter),("policy_epoch",.int t.policyEpoch)]

def ValidationEvidence.fields (e : ValidationEvidence) : List (String × PyVal) :=
  [("evidence_id",.str e.evidenceId),("authority_id",.str e.authorityId),
    ("descriptor_digest",.str e.descriptorDigest),("candidate_digest",.str e.candidateDigest),
    ("transition_id",.str e.transitionId),("policy_epoch",.int e.policyEpoch),("decision",.str e.decision.value),
    ("reasons",.strs e.reasons),("committed_at_ns",.int e.committedAtNs),("signature",.str e.signature),
    ("key_id",.str e.keyId)]

def Capability.fields (cap : Capability) : List (String × PyVal) :=
  [("capability_id",.str cap.capabilityId),("authority_id",.str cap.authorityId),
    ("candidate_digest",.str cap.candidateDigest),("descriptor_digest",.str cap.descriptorDigest),
    ("sink_id",.str cap.sinkId),("boundary_id",.str cap.boundaryId),("nonce",.str cap.nonce),
    ("scope",.strs cap.scope),("policy_epoch",.int cap.policyEpoch),("evidence_id",.str cap.evidenceId),
    ("transition_id",.str cap.transitionId),("issued_at_ns",.int cap.issuedAtNs),
    ("expires_at_ns",.int cap.expiresAtNs),("key_id",.str cap.keyId),("signature",.str cap.signature)]

/-- A bundle for the portable verifiers. Both signatures are under one key id. -/
structure Bundle where
  authorityKeyHex : List Char
  sinkId : PyStr
  boundaryId : PyStr
  policyEpoch : Int
  supportedScopes : List PyStr
  effectClass : PyStr
  candidate : CandidateAct
  hcad : HCAD
  transition : StateTransition
  evidence : ValidationEvidence
  capability : Capability
  keyIds : evidence.keyId = capability.keyId

namespace Bundle

/-- The sink context of the bundle -/
def context (b : Bundle) : SinkContext where
  sinkId := b.sinkId
  boundaryId := b.boundaryId
  policyEpoch := b.policyEpoch
  supportedScopes := b.supportedScopes.toFinset
  effectClass := b.effectClass

/-- The key that the hexadecimal text spells -/
def authorityKey (b : Bundle) : Bytes := Node.hexPrefix (Utf16.encode b.authorityKeyHex)

def contextFields (b : Bundle) : List (String × PyVal) :=
  [("sink_id",.str b.sinkId),("boundary_id",.str b.boundaryId),("policy_epoch",.int b.policyEpoch),
    ("supported_scopes",.strs b.supportedScopes),("effect_class",.str b.effectClass)]

def fields (b : Bundle) : List (String × PyVal) :=
  [("schema",.str (py "portable-execution-finality-case/v1")),
    ("authority_key_hex",.str (PyStr.ofChars b.authorityKeyHex)),("sink_context",.fields .dict b.contextFields),
    ("candidate",b.candidate.value),("hcad",.fields .dataclass b.hcad.fields),
    ("state_transition",.fields .dict b.transition.fields),
    ("validation_evidence",.fields .dict b.evidence.fields),("capability",.fields .dict b.capability.fields)]

/-- The bundle before its records are made dictionaries -/
def value (b : Bundle) : PyVal := .fields .dict b.fields

/-- The descriptor that the verifiers rebuild for the sink of the bundle -/
def descriptor (b : Bundle) : HCAD where
  schema := py "finality-hcad/v1"
  actId := b.candidate.actId
  actClass := b.candidate.actClass
  effectClass := b.candidate.effectClass
  source := b.candidate.source
  destination := b.candidate.destination
  purpose := b.candidate.purpose
  jurisdiction := b.candidate.jurisdiction
  policyEpoch := b.candidate.policyEpoch
  nonce := b.candidate.nonce
  issuedAtNs := b.candidate.issuedAtNs
  freshnessNs := b.candidate.freshnessNs
  sinkId := b.sinkId
  boundaryId := b.boundaryId
  scope := b.candidate.scope
  payloadDigest := b.hcad.payloadDigest
  runtimeEvidenceDigest := b.candidate.runtimeEvidenceDigest

end Bundle

namespace Platform

/-- `d` is the portable digest of the value. -/
def PortableDigest (pf : Platform) (v : PyVal) (d : PyStr) : Prop :=
  ∃ b, pf.portableCanonicalBytes v = .ok b ∧ d = pf.sha256Bytes b

/-- `m` is the portable authentication code of the value. -/
def PortableMac (pf : Platform) (key : Bytes) (v : PyVal) (m : PyStr) : Prop :=
  ∃ b, pf.portableCanonicalBytes v = .ok b ∧ m = PyStr.ofChars (hexChars (pf.hmacSha256 key b))

end Platform

/-! The fields of a record in its JavaScript object. -/
section
variable {k : MapKind} {fs : List (String × PyVal)} {v : JsVal}

private theorem nodeKey_py {name : String} {u : JsStr} : NodeKey (.str (py name)) u ↔ u = js name := by
  have h : py name = Utf16.codePoints (js name) :=
    (PyStr.eq_ofChars_of_scalars (scalars_codePoints.mpr rfl)).symm
  rw [NodeKey,h,PyKey.str.injEq,Utf16.codePoints_injective.eq_iff,eq_comm]

private theorem nodeValue_fields_iff : NodeValue (.fields k fs) v ↔ ∃ gs, v = .object gs ∧ (keys gs).Nodup ∧
    ∃ gs', gs'.Perm gs ∧ List.Forall₂ (fun f g => g.1 = js f.1 ∧ NodeValue f.2 g.2) fs gs' := by
  have entries (gs : List (JsStr × JsVal)) : NodeEntries (fs.map fun f => (.str (py f.1),f.2)) gs ↔
      List.Forall₂ (fun f g => g.1 = js f.1 ∧ NodeValue f.2 g.2) fs gs := by
    simp only [nodeEntries_iff,List.forall₂_map_left_iff,nodeKey_py]
  cases v with
  | object gs =>
    simp only [PyVal.fields,NodeValue,entries,JsVal.object.injEq,exists_eq_left']
  | _ =>
    refine iff_of_false (fun h => h.elim) ?_
    rintro ⟨_,⟨⟩,_⟩

/-- A property holds what the record has under its name. -/
theorem NodeValue.field (h : NodeValue (.fields k fs) v) {name : String} {x : PyVal} (hx : (name,x) ∈ fs) :
    NodeValue x (field v name) := by
  obtain ⟨gs,rfl,hn,gs',hperm,hf⟩ := nodeValue_fields_iff.mp h
  obtain ⟨⟨u,y⟩,hy,hu,hv⟩ := forall₂_of_mem_right hf.flip hx
  dsimp only at hu
  subst hu
  have hlookup : gs.lookup (js name) = some y := (lookup_eq_some hn).mpr (hperm.mem_iff.mp hy)
  rwa [Node.field,hlookup]

/-- Dropping a field of the record drops its property. -/
theorem NodeValue.filter {gs : List (JsStr × JsVal)} (h : NodeValue (.fields k fs) (.object gs)) (name : String) :
    NodeValue (.fields k (fs.filter fun f => f.1 ≠ name)) (.object (gs.filter fun g => g.1 ≠ js name)) := by
  obtain ⟨_,he,hn,gs',hperm,hf⟩ := nodeValue_fields_iff.mp h
  cases he
  refine nodeValue_fields_iff.mpr ⟨_,rfl,hn.sublist (List.filter_sublist.map _),_,hperm.filter _,?_⟩
  refine List.rel_filter (fun f g hfg => ?_) hf
  simp only [decide_eq_true_eq]
  rw [hfg.1,js,js,ne_eq,ne_eq,Utf16.encode_injective.eq_iff,String.toList_inj]

theorem NodeValue.ne_undefined {p : PyVal} (h : NodeValue p v) : v ≠ .undefined := by
  rintro rfl
  cases p <;> exact h

/-- An object literal holds a record when its properties hold the fields. -/
theorem nodeValue_literal (hk : (keys fs).Nodup) {gs : List (JsStr × JsVal)}
    (h : List.Forall₂ (fun f g => g.1 = js f.1 ∧ NodeValue f.2 g.2) fs gs) :
    NodeValue (.fields k fs) (.object (Node.complete gs)) := by
  have hcomplete : Node.complete gs = gs := by
    refine (List.map_congr_left fun g hg => ?_).trans gs.map_id
    obtain ⟨f,_,_,hv⟩ := forall₂_of_mem_right h hg
    obtain ⟨u,y⟩ := g
    cases y with
    | undefined => exact absurd rfl hv.ne_undefined
    | _ => rfl
  have hkeys : keys gs = (keys fs).map js := by
    rw [keys,keys,List.map_map]
    exact (map_eq_iff_forall₂.mpr (h.imp fun _ _ hfg => hfg.1.symm)).symm
  rw [hcomplete]
  refine nodeValue_fields_iff.mpr ⟨gs,rfl,?_,gs,.refl _,h⟩
  rw [hkeys]
  exact hk.map fun _ _ he => String.toList_inj.mp (Utf16.encode_injective he)

end

variable {pf : Node.Platform} {p : PyVal} {v w : JsVal} {s t : PyStr} {i j : TextKind}

theorem nodeText (h : NodeValue (.text i s) v) : ∃ u, v = .string u ∧ s = Utf16.codePoints u := by
  cases v with
  | string u => exact ⟨u,rfl,h⟩
  | _ => exact h.elim

theorem nodeInt {n : Int} (h : NodeValue (.int n) v) : v = .number (.finite n) := by
  cases v with
  | number x => exact congrArg _ h
  | _ => exact h.elim

theorem ofChars_eq_codePoints (cs : List Char) : PyStr.ofChars cs = Utf16.codePoints (Utf16.encode cs) :=
  (PyStr.eq_ofChars_of_scalars (scalars_codePoints.mpr rfl)).symm

theorem nodeText_eq (h : NodeValue (.text i s) v) {cs : List Char} :
    v = .string (Utf16.encode cs) ↔ s = PyStr.ofChars cs := by
  obtain ⟨u,rfl,rfl⟩ := nodeText h
  rw [ofChars_eq_codePoints,JsVal.string.injEq,Utf16.codePoints_injective.eq_iff]

theorem nodeText_strictEq (h : NodeValue (.text i s) v) (h' : NodeValue (.text j t) w) :
    strictEq v w = true ↔ s = t := by
  obtain ⟨u,rfl,rfl⟩ := nodeText h
  obtain ⟨u',rfl,rfl⟩ := nodeText h'
  rw [Node.strictEq_string,JsVal.string.injEq,Utf16.codePoints_injective.eq_iff]

theorem nodeInt_strictEq {m n : Int} (h : NodeValue (.int m) v) (h' : NodeValue (.int n) w) :
    strictEq v w = true ↔ m = n := by
  rw [nodeInt h,nodeInt h',Node.strictEq_int]

theorem nodeSha_iff (h : NodeValue p v) {cs : List Char} :
    Node.sha pf v = .ok (Utf16.encode cs) ↔ pf.PortableDigest p (PyStr.ofChars cs) := by
  simp only [Node.sha_eq_ok,nodeCanonicalBytes_iff h,Platform.PortableDigest,Platform.sha256Bytes,
    PyStr.ofChars_injective.eq_iff,Utf16.encode_injective.eq_iff,eq_comm]

/-- A property is the digest of a value when the field of the record is. -/
theorem nodeSha_field (h : NodeValue p v) (h' : NodeValue (.text i s) w) :
    (∃ cs, Node.sha pf v = .ok (Utf16.encode cs) ∧ w = .string (Utf16.encode cs)) ↔ pf.PortableDigest p s := by
  simp only [nodeSha_iff h,nodeText_eq h']
  constructor
  · rintro ⟨cs,hd,rfl⟩
    exact hd
  · rintro ⟨b,hb,rfl⟩
    exact ⟨_,⟨b,hb,rfl⟩,rfl⟩

theorem nodeMac_field {key : Bytes} (h : NodeValue p v) (h' : NodeValue (.text i s) w) :
    (∃ cs, Node.mac pf v key = .ok (Utf16.encode cs) ∧ w = .string (Utf16.encode cs)) ↔ pf.PortableMac key p s := by
  simp only [Node.mac_eq_ok,nodeCanonicalBytes_iff h,nodeText_eq h',Utf16.encode_injective.eq_iff]
  constructor
  · rintro ⟨cs,⟨b,hb,rfl⟩,rfl⟩
    exact ⟨b,hb,rfl⟩
  · rintro ⟨b,hb,rfl⟩
    exact ⟨_,⟨b,hb,rfl⟩,rfl⟩

theorem orNull_of_nodeValue (h : NodeValue p v) : Node.orNull v = v := by
  cases v with
  | undefined => exact absurd rfl h.ne_undefined
  | _ => rfl

namespace Bundle

structure DescriptorLinks (pf : Node.Platform) (b : Bundle) : Prop where
  status : b.candidate.status = .nonEffective
  candidateDigest : pf.PortableDigest b.candidate.value b.capability.candidateDigest
  evidenceCandidate : b.evidence.candidateDigest = b.capability.candidateDigest
  payloadDigest : pf.PortableDigest b.candidate.payload b.hcad.payloadDigest
  descriptorDigest : pf.PortableDigest (.fields .dataclass b.descriptor.fields) b.capability.descriptorDigest
  evidenceDescriptor : b.evidence.descriptorDigest = b.capability.descriptorDigest
  hcadDigest : pf.PortableDigest (.fields .dataclass b.hcad.fields) b.capability.descriptorDigest

structure TransitionLinks (pf : Node.Platform) (b : Bundle) : Prop where
  transitionId : pf.PortableDigest
    (.fields .dict (ProtectedState.transitionCore b.transition b.capability.candidateDigest)) b.transition.transitionId
  capTransition : b.capability.transitionId = b.transition.transitionId
  evidenceTransition : b.evidence.transitionId = b.transition.transitionId
  version : b.transition.afterVersion = b.transition.beforeVersion + 1
  quota : b.transition.quotaAfter = b.transition.quotaBefore - 1
  budget : b.transition.budgetAfter < b.transition.budgetBefore

structure EvidenceLinks (pf : Node.Platform) (b : Bundle) : Prop where
  signature : pf.PortableMac b.authorityKey b.evidence.unsigned b.evidence.signature
  evidenceId : pf.PortableDigest (.fields .dict b.evidence.core) b.evidence.evidenceId
  decision : b.evidence.decision = .allow

structure CapabilityLinks (pf : Node.Platform) (b : Bundle) : Prop where
  signature : pf.PortableMac b.authorityKey b.capability.unsigned b.capability.signature
  capabilityId : pf.PortableDigest (.fields .dict b.capability.core) b.capability.capabilityId
  sinkId : b.capability.sinkId = b.sinkId
  boundaryId : b.capability.boundaryId = b.boundaryId
  policyEpoch : b.capability.policyEpoch = b.policyEpoch
  nonce : b.capability.nonce = b.candidate.nonce
  authorityId : b.capability.authorityId = b.evidence.authorityId
  scope : b.capability.scope = b.candidate.scope
  supported : ∀ x ∈ b.capability.scope, x ∈ b.supportedScopes
  effectClass : b.candidate.effectClass = b.effectClass
  outlives : b.capability.expiresAtNs ≤ b.candidate.issuedAtNs + b.candidate.freshnessNs

/-- What the portable verifiers check of a bundle -/
structure Links (pf : Node.Platform) (b : Bundle) : Prop where
  descriptor : b.DescriptorLinks pf
  transition : b.TransitionLinks pf
  evidence : b.EvidenceLinks pf
  capability : b.CapabilityLinks pf

end Bundle

variable {b : Bundle} {c h t' e cap ctx : JsVal} {cd : List Char}

private theorem status_eq {a : ActStatus} : a.value = PyStr.ofChars "NON_EFFECTIVE".toList ↔ a = .nonEffective := by
  cases a <;> decide

private theorem nodeValue_rebuilt (hc : NodeValue b.candidate.value c)
    (hctx : NodeValue (.fields .dict b.contextFields) ctx) {pd : List Char}
    (hpd : b.hcad.payloadDigest = PyStr.ofChars pd) :
    NodeValue (.fields .dataclass b.descriptor.fields)
      (.object (Node.complete (Node.rebuilt c ctx (Utf16.encode pd)))) := by
  apply nodeValue_literal b.descriptor.literalKeys.1
  simp only [HCAD.fields,Node.rebuilt,Bundle.descriptor,List.forall₂_cons,List.Forall₂.nil,and_true,true_and]
  refine ⟨ofChars_eq_codePoints _,?_,?_,?_,?_,?_,?_,?_,?_,?_,?_,?_,?_,?_,?_,?_,?_⟩
  on_goal 15 => exact hpd.trans (ofChars_eq_codePoints pd)
  on_goal 12 => exact hctx.field (by simp [Bundle.contextFields])
  on_goal 12 => exact hctx.field (by simp [Bundle.contextFields])
  all_goals exact hc.field (by simp [CandidateAct.fields])

private theorem nodeValue_transitionCore (ht : NodeValue (.fields .dict b.transition.fields) t')
    (hcd : b.capability.candidateDigest = PyStr.ofChars cd) :
    NodeValue (.fields .dict (ProtectedState.transitionCore b.transition b.capability.candidateDigest))
      (.object (Node.complete (Node.transitionCore t' (Utf16.encode cd)))) := by
  apply nodeValue_literal (by simp [ProtectedState.transitionCore])
  simp only [ProtectedState.transitionCore,Node.transitionCore,List.forall₂_cons,List.Forall₂.nil,and_true,true_and]
  refine ⟨?_,?_,?_,?_,?_,?_,?_,?_,?_,hcd.trans (ofChars_eq_codePoints cd)⟩
  all_goals exact ht.field (by simp [StateTransition.fields])

theorem linkedDescriptor_iff (hc : NodeValue b.candidate.value c) (hh : NodeValue (.fields .dataclass b.hcad.fields) h)
    (he : NodeValue (.fields .dict b.evidence.fields) e) (hcap : NodeValue (.fields .dict b.capability.fields) cap)
    (hctx : NodeValue (.fields .dict b.contextFields) ctx) : Node.LinkedDescriptor pf c h e cap ctx cd ↔
      b.DescriptorLinks pf ∧ b.capability.candidateDigest = PyStr.ofChars cd := by
  have hstatus : NodeValue (.text .enum b.candidate.status.value) (field c "status") :=
    hc.field (by simp [CandidateAct.fields])
  have hpayload : NodeValue b.candidate.payload (field c "payload") := hc.field (by simp [CandidateAct.fields])
  have hpd : NodeValue (.str b.hcad.payloadDigest) (field h "payload_digest") := hh.field (by simp [HCAD.fields])
  have hcd : NodeValue (.str b.capability.candidateDigest) (field cap "candidate_digest") :=
    hcap.field (by simp [Capability.fields])
  have hdd : NodeValue (.str b.capability.descriptorDigest) (field cap "descriptor_digest") :=
    hcap.field (by simp [Capability.fields])
  have hecd : NodeValue (.str b.evidence.candidateDigest) (field e "candidate_digest") :=
    he.field (by simp [ValidationEvidence.fields])
  have hedd : NodeValue (.str b.evidence.descriptorDigest) (field e "descriptor_digest") :=
    he.field (by simp [ValidationEvidence.fields])
  constructor
  · rintro ⟨h1,h2,h3,h4,pd,dd,h5,h6,h7,h8,h9,h10⟩
    have hcd' := (nodeText_eq hcd).mp h3
    have hpd' := (nodeText_eq hpd).mp h6
    have hdd' := (nodeText_eq hdd).mp h8
    rw [orNull_of_nodeValue hpayload,nodeSha_iff hpayload,← hpd'] at h5
    rw [nodeSha_iff hc,← hcd'] at h2
    rw [nodeSha_iff (nodeValue_rebuilt hc hctx hpd'),← hdd'] at h7
    rw [nodeSha_iff hh,← hdd'] at h10
    exact ⟨⟨status_eq.mp ((nodeText_eq hstatus).mp h1),h2,((nodeText_eq hecd).mp h4).trans hcd'.symm,h5,h7,
      ((nodeText_eq hedd).mp h9).trans hdd'.symm,h10⟩,hcd'⟩
  · rintro ⟨⟨h1,h2,h3,h4,h5,h6,h7⟩,hcd'⟩
    obtain ⟨pd,hpd'⟩ : ∃ pd, b.hcad.payloadDigest = PyStr.ofChars pd := by
      obtain ⟨_,_,he⟩ := h4
      exact ⟨_,he⟩
    obtain ⟨dd,hdd'⟩ : ∃ dd, b.capability.descriptorDigest = PyStr.ofChars dd := by
      obtain ⟨_,_,he⟩ := h5
      exact ⟨_,he⟩
    refine ⟨(nodeText_eq hstatus).mpr (status_eq.mpr h1),(nodeSha_iff hc).mpr (hcd' ▸ h2),(nodeText_eq hcd).mpr hcd',
      (nodeText_eq hecd).mpr (h3.trans hcd'),pd,dd,?_,(nodeText_eq hpd).mpr hpd',?_,(nodeText_eq hdd).mpr hdd',
      (nodeText_eq hedd).mpr (h6.trans hdd'),(nodeSha_iff hh).mpr (hdd' ▸ h7)⟩
    · rw [orNull_of_nodeValue hpayload,nodeSha_iff hpayload,← hpd']
      exact h4
    · rw [nodeSha_iff (nodeValue_rebuilt hc hctx hpd'),← hdd']
      exact h5

theorem linkedTransition_iff (ht : NodeValue (.fields .dict b.transition.fields) t')
    (hsafe : ∀ f ∈ b.transition.fields, f.2.SafeInts)
    (he : NodeValue (.fields .dict b.evidence.fields) e) (hcap : NodeValue (.fields .dict b.capability.fields) cap)
    (hcd : b.capability.candidateDigest = PyStr.ofChars cd) :
    Node.LinkedTransition pf cd t' e cap ↔ b.TransitionLinks pf := by
  have htid : NodeValue (.str b.transition.transitionId) (field t' "transition_id") :=
    ht.field (by simp [StateTransition.fields])
  have hctid : NodeValue (.str b.capability.transitionId) (field cap "transition_id") :=
    hcap.field (by simp [Capability.fields])
  have hetid : NodeValue (.str b.evidence.transitionId) (field e "transition_id") :=
    he.field (by simp [ValidationEvidence.fields])
  have int (name : String) (n : Int) (h : (name,.int n) ∈ b.transition.fields) :
      field t' name = .number (.finite n) ∧ -maxSafeInteger ≤ n ∧ n ≤ maxSafeInteger :=
    ⟨nodeInt (ht.field h),by simpa only [PyVal.SafeInts] using hsafe _ h⟩
  obtain ⟨hbv,hbs⟩ := int "before_version" b.transition.beforeVersion (by simp [StateTransition.fields])
  obtain ⟨hav,_⟩ := int "after_version" b.transition.afterVersion (by simp [StateTransition.fields])
  obtain ⟨hbq,hqs⟩ := int "quota_before" b.transition.quotaBefore (by simp [StateTransition.fields])
  obtain ⟨haq,_⟩ := int "quota_after" b.transition.quotaAfter (by simp [StateTransition.fields])
  obtain ⟨hbb,_⟩ := int "budget_before" b.transition.budgetBefore (by simp [StateTransition.fields])
  obtain ⟨hab,_⟩ := int "budget_after" b.transition.budgetAfter (by simp [StateTransition.fields])
  constructor
  · rintro ⟨⟨tid,h1,h2,h3,h4⟩,⟨x,h5,h6⟩,⟨y,h7,h8⟩,h9⟩
    have htid' := (nodeText_eq htid).mp h2
    rw [nodeSha_iff (nodeValue_transitionCore ht hcd),← htid'] at h1
    rw [hbv,Node.add_one hbs] at h5
    rw [hbq,Node.sub_one hqs] at h7
    cases h5
    cases h7
    rw [hav,Node.strictEq_int] at h6
    rw [haq,Node.strictEq_int] at h8
    rw [hab,hbb,Node.less_int] at h9
    exact ⟨h1,((nodeText_eq hctid).mp h3).trans htid'.symm,((nodeText_eq hetid).mp h4).trans htid'.symm,h6,h8,
      of_decide_eq_true (Except.ok.inj h9)⟩
  · rintro ⟨h1,h2,h3,h4,h5,h6⟩
    obtain ⟨tid,htid'⟩ : ∃ tid, b.transition.transitionId = PyStr.ofChars tid := by
      obtain ⟨_,_,he⟩ := h1
      exact ⟨_,he⟩
    refine ⟨⟨tid,?_,(nodeText_eq htid).mpr htid',(nodeText_eq hctid).mpr (h2.trans htid'),
      (nodeText_eq hetid).mpr (h3.trans htid')⟩,⟨_,by rw [hbv,Node.add_one hbs],?_⟩,
      ⟨_,by rw [hbq,Node.sub_one hqs],?_⟩,?_⟩
    · rw [nodeSha_iff (nodeValue_transitionCore ht hcd),← htid']
      exact h1
    · rw [hav,Node.strictEq_int,h4]
    · rw [haq,Node.strictEq_int,h5]
    · rw [hab,hbb,Node.less_int,decide_eq_true h6]

private theorem nodeValue_unsigned {k : MapKind} {fs : List (String × PyVal)} {v : JsVal}
    (h : NodeValue (.fields k fs) v) :
    NodeValue (.fields k (fs.filter fun f => f.1 ≠ "signature")) (.object (Node.unsigned v)) := by
  obtain ⟨gs,rfl,_⟩ := nodeValue_fields_iff.mp h
  exact h.filter "signature"

theorem linkedEvidence_iff (he : NodeValue (.fields .dict b.evidence.fields) e) :
    Node.LinkedEvidence pf b.authorityKey e ↔ b.EvidenceLinks pf := by
  have hunsigned : NodeValue b.evidence.unsigned (.object (Node.unsigned e)) := nodeValue_unsigned he
  have hcore : NodeValue (.fields .dict b.evidence.core)
      (.object ((Node.unsigned e).filter fun f => f.1 ≠ js "evidence_id")) := hunsigned.filter "evidence_id"
  have hsignature : NodeValue (.str b.evidence.signature) (field e "signature") :=
    he.field (by simp [ValidationEvidence.fields])
  have hid : NodeValue (.str b.evidence.evidenceId) (field e "evidence_id") :=
    he.field (by simp [ValidationEvidence.fields])
  have hdecision : NodeValue (.str b.evidence.decision.value) (field e "decision") :=
    he.field (by simp [ValidationEvidence.fields])
  have allow (d : Decision) : d.value = PyStr.ofChars "ALLOW".toList ↔ d = .allow := by cases d <;> decide
  have hallow : field e "decision" = .string (js "ALLOW") ↔ b.evidence.decision = .allow :=
    (nodeText_eq hdecision).trans (allow _)
  constructor
  · rintro ⟨h1,h2,h3⟩
    exact ⟨(nodeMac_field hunsigned hsignature).mp h1,(nodeSha_field hcore hid).mp h2,hallow.mp h3⟩
  · rintro ⟨h1,h2,h3⟩
    exact ⟨(nodeMac_field hunsigned hsignature).mpr h1,(nodeSha_field hcore hid).mpr h2,hallow.mpr h3⟩

theorem nodeStrs {k : SeqKind} {xs : List PyStr} (h : NodeValue (.seq k (xs.map .str)) v) :
    ∃ us : List JsStr, v = .array (us.map .string) ∧ xs = us.map Utf16.codePoints := by
  cases v with
  | array ys =>
    obtain ⟨us,hys,hxs⟩ : ∃ us : List JsStr, ys = us.map .string ∧ xs = us.map Utf16.codePoints := by
      have hitems := nodeItems_iff.mp h
      clear h
      induction xs generalizing ys with
      | nil => cases hitems; exact ⟨[],rfl,rfl⟩
      | cons x xs ih =>
        cases hitems with
        | cons hx hxs =>
          obtain ⟨u,rfl,rfl⟩ := nodeText hx
          obtain ⟨us,rfl,rfl⟩ := ih _ hxs
          exact ⟨u :: us,rfl,rfl⟩
    exact ⟨us,by rw [hys],hxs⟩
  | _ => exact h.elim

theorem linkedScopes_iff (hc : NodeValue b.candidate.value c) (hcap : NodeValue (.fields .dict b.capability.fields) cap)
    (hctx : NodeValue (.fields .dict b.contextFields) ctx) : Node.LinkedScopes pf c cap ctx ↔
      b.capability.scope = b.candidate.scope ∧ ∀ x ∈ b.capability.scope, x ∈ b.supportedScopes := by
  have hcapScope : NodeValue (.strs b.capability.scope) (field cap "scope") :=
    hcap.field (by simp [Capability.fields])
  have hscope : NodeValue (.tuple (b.candidate.scope.map .str)) (field c "scope") :=
    hc.field (by simp [CandidateAct.fields])
  have hsupported : NodeValue (.strs b.supportedScopes) (field ctx "supported_scopes") :=
    hctx.field (by simp [Bundle.contextFields])
  obtain ⟨us,hus,hus'⟩ := nodeStrs hcapScope
  obtain ⟨vs,hvs,hvs'⟩ := nodeStrs hscope
  obtain ⟨ws,hws,hws'⟩ := nodeStrs hsupported
  have strings (us : List JsStr) : ∀ w ∈ us.map JsVal.string, ∃ s, w = .string s := by
    intro w hw
    obtain ⟨u,_,rfl⟩ := List.mem_map.mp hw
    exact ⟨u,rfl⟩
  have hinj : Function.Injective JsVal.string := fun _ _ => JsVal.string.inj
  have hequal : b.capability.scope = b.candidate.scope ↔ us.map JsVal.string = vs.map JsVal.string := by
    rw [hus',hvs',(List.map_injective_iff.mpr Utf16.codePoints_injective).eq_iff,
      (List.map_injective_iff.mpr hinj).eq_iff]
  have hmem : (∀ x ∈ b.capability.scope, x ∈ b.supportedScopes) ↔ ∀ w ∈ us.map JsVal.string, w ∈ ws.map JsVal.string := by
    rw [hus',hws',List.forall_mem_map,List.forall_mem_map]
    simp only [List.mem_map_of_injective Utf16.codePoints_injective,List.mem_map_of_injective hinj]
  rw [hequal,hmem]
  constructor
  · rintro ⟨xs,hxs,⟨n,hn,hlen⟩,h1,h2⟩
    cases hus.symm.trans hxs
    rw [hvs,Node.length] at hn
    cases hn
    rw [Node.strictEq_int,Int.natCast_inj] at hlen
    rw [hvs,Node.everyEqual_strings (strings us)] at h1
    exact ⟨h1.eq_of_length hlen,(Node.everySupported_strings hws (strings us)).mp h2⟩
  · rintro ⟨h1,h2⟩
    refine ⟨_,hus,⟨_,by rw [hvs,Node.length],?_⟩,?_,(Node.everySupported_strings hws (strings us)).mpr h2⟩
    · rw [Node.strictEq_int,h1]
    · rw [hvs,Node.everyEqual_strings (strings us),h1]
      exact List.prefix_refl _

theorem linkedCapability_iff (hc : NodeValue b.candidate.value c) (he : NodeValue (.fields .dict b.evidence.fields) e)
    (hcap : NodeValue (.fields .dict b.capability.fields) cap) (hctx : NodeValue (.fields .dict b.contextFields) ctx)
    (hsafe : -maxSafeInteger ≤ b.capability.expiresAtNs ∧ b.capability.expiresAtNs ≤ maxSafeInteger) :
    (Node.LinkedCapability pf b.authorityKey c e cap ctx ∧ Node.LinkedScopes pf c cap ctx ∧
      Node.LinkedEffect pf c cap ctx) ↔ b.CapabilityLinks pf := by
  have hunsigned : NodeValue b.capability.unsigned (.object (Node.unsigned cap)) := nodeValue_unsigned hcap
  have hcore : NodeValue (.fields .dict b.capability.core)
      (.object ((Node.unsigned cap).filter fun f => f.1 ≠ js "capability_id")) := hunsigned.filter "capability_id"
  have capText (name : String) (s : PyStr) (h : (name,.str s) ∈ b.capability.fields) : NodeValue (.str s) (field cap name) :=
    hcap.field h
  have ctxText (name : String) (s : PyStr) (h : (name,.str s) ∈ b.contextFields) : NodeValue (.str s) (field ctx name) :=
    hctx.field h
  have candText (name : String) (s : PyStr) (h : (name,.str s) ∈ b.candidate.fields) : NodeValue (.str s) (field c name) :=
    hc.field h
  have hsignature := capText "signature" b.capability.signature (by simp [Capability.fields])
  have hid := capText "capability_id" b.capability.capabilityId (by simp [Capability.fields])
  have hsink := nodeText_strictEq (capText "sink_id" b.capability.sinkId (by simp [Capability.fields]))
    (ctxText "sink_id" b.sinkId (by simp [Bundle.contextFields]))
  have hboundary := nodeText_strictEq (capText "boundary_id" b.capability.boundaryId (by simp [Capability.fields]))
    (ctxText "boundary_id" b.boundaryId (by simp [Bundle.contextFields]))
  have hepoch : strictEq (field cap "policy_epoch") (field ctx "policy_epoch") = true ↔
      b.capability.policyEpoch = b.policyEpoch :=
    nodeInt_strictEq (hcap.field (by simp [Capability.fields])) (hctx.field (by simp [Bundle.contextFields]))
  have hnonce := nodeText_strictEq (capText "nonce" b.capability.nonce (by simp [Capability.fields]))
    (candText "nonce" b.candidate.nonce (by simp [CandidateAct.fields]))
  have hauthority := nodeText_strictEq (capText "authority_id" b.capability.authorityId (by simp [Capability.fields]))
    (he.field (by simp [ValidationEvidence.fields] : ("authority_id",PyVal.str b.evidence.authorityId) ∈ _))
  have heffect := nodeText_strictEq (candText "effect_class" b.candidate.effectClass (by simp [CandidateAct.fields]))
    (ctxText "effect_class" b.effectClass (by simp [Bundle.contextFields]))
  have hexpires : field cap "expires_at_ns" = .number (.finite b.capability.expiresAtNs) :=
    nodeInt (hcap.field (by simp [Capability.fields]))
  have hissued : field c "issued_at_ns" = .number (.finite b.candidate.issuedAtNs) :=
    nodeInt (hc.field (by simp [CandidateAct.fields]))
  have hfreshness : field c "freshness_ns" = .number (.finite b.candidate.freshnessNs) :=
    nodeInt (hc.field (by simp [CandidateAct.fields]))
  have houtlives : (∃ x, Node.add pf (field c "issued_at_ns") (field c "freshness_ns") = .ok x ∧
      Node.greater pf (field cap "expires_at_ns") x = .ok false) ↔
      b.capability.expiresAtNs ≤ b.candidate.issuedAtNs + b.candidate.freshnessNs := by
    rw [hissued,hfreshness,hexpires,Node.add_int]
    simp only [Except.ok.injEq,exists_eq_left']
    rw [Node.greater_round hsafe,Except.ok.injEq,decide_eq_false_iff_not,not_lt]
  rw [linkedScopes_iff hc hcap hctx]
  constructor
  · rintro ⟨⟨h1,h2,h3,h4,h5,h6,h7⟩,⟨h8,h9⟩,h10,h11⟩
    exact ⟨(nodeMac_field hunsigned hsignature).mp h1,(nodeSha_field hcore hid).mp h2,hsink.mp h3,hboundary.mp h4,
      hepoch.mp h5,hnonce.mp h6,hauthority.mp h7,h8,h9,heffect.mp h10,houtlives.mp h11⟩
  · rintro ⟨h1,h2,h3,h4,h5,h6,h7,h8,h9,h10,h11⟩
    exact ⟨⟨(nodeMac_field hunsigned hsignature).mpr h1,(nodeSha_field hcore hid).mpr h2,hsink.mpr h3,hboundary.mpr h4,
      hepoch.mpr h5,hnonce.mpr h6,hauthority.mpr h7⟩,⟨h8,h9⟩,heffect.mpr h10,houtlives.mpr h11⟩

theorem safeInts_fields {k : MapKind} {fs : List (String × PyVal)} :
    (PyVal.fields k fs).SafeInts ↔ ∀ f ∈ fs, f.2.SafeInts := by
  rw [PyVal.fields,PyVal.SafeInts,safeEntries_iff,List.forall_mem_map]

section
variable (hv : NodeValue b.value v)
include hv

private theorem bundle_candidate : NodeValue b.candidate.value (field v "candidate") :=
  hv.field (by simp [Bundle.fields])

private theorem bundle_hcad : NodeValue (.fields .dataclass b.hcad.fields) (field v "hcad") :=
  hv.field (by simp [Bundle.fields])

private theorem bundle_transition : NodeValue (.fields .dict b.transition.fields) (field v "state_transition") :=
  hv.field (by simp [Bundle.fields])

private theorem bundle_evidence : NodeValue (.fields .dict b.evidence.fields) (field v "validation_evidence") :=
  hv.field (by simp [Bundle.fields])

private theorem bundle_capability : NodeValue (.fields .dict b.capability.fields) (field v "capability") :=
  hv.field (by simp [Bundle.fields])

private theorem bundle_context : NodeValue (.fields .dict b.contextFields) (field v "sink_context") :=
  hv.field (by simp [Bundle.fields])

private theorem bundle_key : Node.bufferFromHex pf (field v "authority_key_hex") = .ok b.authorityKey := by
  have hkey : NodeValue (.str (PyStr.ofChars b.authorityKeyHex)) (field v "authority_key_hex") :=
    hv.field (by simp [Bundle.fields])
  rw [(nodeText_eq hkey).mpr rfl]
  rfl

/-- Every property that the Node verifier hashes is in a bundle. -/
theorem present_of_bundle : Node.Present v := by
  have hc := bundle_candidate hv
  have hctx := bundle_context hv
  have ht := bundle_transition hv
  refine ⟨?_,?_,?_⟩
  · have hpayload : NodeValue b.candidate.payload (field (field v "candidate") "payload") :=
      hc.field (by simp [CandidateAct.fields])
    exact hpayload.ne_undefined
  · have candidate (name : String) (x : PyVal) (hx : (name,x) ∈ b.candidate.fields) :
        field (field v "candidate") name ≠ .undefined := NodeValue.ne_undefined (hc.field hx)
    have context (name : String) (x : PyVal) (hx : (name,x) ∈ b.contextFields) :
        field (field v "sink_context") name ≠ .undefined := NodeValue.ne_undefined (hctx.field hx)
    simp only [Node.rebuilt,List.forall_mem_cons]
    simp only [ne_eq,reduceCtorEq,not_false_eq_true,true_and,List.not_mem_nil,IsEmpty.forall_iff,implies_true,and_true]
    refine ⟨?_,?_,?_,?_,?_,?_,?_,?_,?_,?_,?_,?_,?_,?_,?_⟩
    on_goal 12 => exact context _ (.str b.sinkId) (by simp [Bundle.contextFields])
    on_goal 12 => exact context _ (.str b.boundaryId) (by simp [Bundle.contextFields])
    all_goals exact candidate _ _ (by simp [CandidateAct.fields]; exact rfl)
  · have transition (name : String) (x : PyVal) (hx : (name,x) ∈ b.transition.fields) :
        field (field v "state_transition") name ≠ .undefined := NodeValue.ne_undefined (ht.field hx)
    simp only [Node.transitionCore,List.forall_mem_cons]
    simp only [ne_eq,reduceCtorEq,not_false_eq_true,List.not_mem_nil,IsEmpty.forall_iff,implies_true,and_true]
    refine ⟨?_,?_,?_,?_,?_,?_,?_,?_,?_⟩
    all_goals exact transition _ _ (by simp [StateTransition.fields]; exact rfl)

/-- The compared fields of a bundle are typed as the Go verifier asserts them. -/
theorem typed_of_bundle (hkey : Node.IsHex (Utf16.encode b.authorityKeyHex)) : Node.Typed v := by
  have strings {k : MapKind} {fs : List (String × PyVal)} {r : JsVal} (h : NodeValue (.fields k fs) r) {ks : List String}
      (hks : ∀ key ∈ ks, ∃ s, (key,PyVal.str s) ∈ fs) : Node.Strings r ks := by
    intro key hk
    obtain ⟨s,hs⟩ := hks key hk
    obtain ⟨u,hu,_⟩ := nodeText (h.field hs)
    exact ⟨u,hu⟩
  have numbers {k : MapKind} {fs : List (String × PyVal)} {r : JsVal} (h : NodeValue (.fields k fs) r) {ks : List String}
      (hks : ∀ key ∈ ks, ∃ n, (key,PyVal.int n) ∈ fs) : Node.Numbers r ks := by
    intro key hk
    obtain ⟨n,hn⟩ := hks key hk
    exact ⟨_,nodeInt (h.field hn)⟩
  have texts {k : SeqKind} {xs : List PyStr} {r : JsVal} (h : NodeValue (.seq k (xs.map .str)) r) :
      ∃ ys, r = .array ys ∧ ∀ y ∈ ys, ∃ s, y = .string s := by
    obtain ⟨us,rfl,_⟩ := nodeStrs h
    exact ⟨_,rfl,by simp⟩
  have hc := bundle_candidate hv
  have hctx := bundle_context hv
  have hcap := bundle_capability hv
  have hkeyText : NodeValue (.str (PyStr.ofChars b.authorityKeyHex)) (field v "authority_key_hex") :=
    hv.field (by simp [Bundle.fields])
  refine ⟨⟨_,(nodeText_eq hkeyText).mpr rfl,hkey⟩,numbers (bundle_transition hv) ?_,strings hcap ?_,numbers hcap ?_,
    strings hctx ?_,numbers hctx ?_,strings hc ?_,numbers hc ?_,strings (bundle_evidence hv) ?_,⟨?_,?_,?_⟩⟩
  on_goal 9 => exact texts (hcap.field (by simp [Capability.fields,PyVal.strs]; exact ⟨rfl,rfl⟩))
  on_goal 9 =>
    obtain ⟨ys,hys,_⟩ := texts
      (hc.field (show ("scope",PyVal.tuple (b.candidate.scope.map .str)) ∈ b.candidate.fields by
        simp [CandidateAct.fields]))
    exact ⟨ys,hys⟩
  on_goal 9 =>
    obtain ⟨ys,hys,hstrings⟩ := texts
      (hctx.field (show ("supported_scopes",PyVal.strs b.supportedScopes) ∈ b.contextFields by
        simp [Bundle.contextFields]))
    exact ⟨ys,hys,fun _ => hstrings⟩
  all_goals
    simp [Node.transitionNumbers,StateTransition.fields,ValidationEvidence.fields,Capability.fields,CandidateAct.fields,
      Bundle.contextFields]

/-- A bundle of records is linked as a document when its records are. -/
theorem linked_iff (hs : b.value.SafeInts) : Node.Linked pf v ↔ b.Links pf := by
  have hsafe := safeInts_fields.mp hs
  have ht : ∀ f ∈ b.transition.fields, f.2.SafeInts :=
    safeInts_fields.mp (hsafe ("state_transition",_) (by simp [Bundle.fields]; exact rfl))
  have hcap : ∀ f ∈ b.capability.fields, f.2.SafeInts :=
    safeInts_fields.mp (hsafe ("capability",_) (by simp [Bundle.fields]; exact rfl))
  have hexpires : -maxSafeInteger ≤ b.capability.expiresAtNs ∧ b.capability.expiresAtNs ≤ maxSafeInteger := by
    have := hcap ("expires_at_ns",.int b.capability.expiresAtNs) (by simp [Capability.fields])
    simpa only [PyVal.SafeInts] using this
  constructor
  · rintro ⟨key,cd,hkey,h1,h2,h3,h4,h5,h6⟩
    cases (bundle_key hv).symm.trans hkey
    obtain ⟨hdescriptor,hcd⟩ := (linkedDescriptor_iff (bundle_candidate hv) (bundle_hcad hv) (bundle_evidence hv)
      (bundle_capability hv) (bundle_context hv)).mp h1
    exact ⟨hdescriptor,(linkedTransition_iff (bundle_transition hv) ht (bundle_evidence hv) (bundle_capability hv) hcd).mp h2,
      (linkedEvidence_iff (bundle_evidence hv)).mp h3,(linkedCapability_iff (bundle_candidate hv) (bundle_evidence hv)
        (bundle_capability hv) (bundle_context hv) hexpires).mp ⟨h4,h5,h6⟩⟩
  · rintro ⟨h1,h2,h3,h4⟩
    obtain ⟨cd,hcd⟩ : ∃ cd, b.capability.candidateDigest = PyStr.ofChars cd := by
      obtain ⟨_,_,he⟩ := h1.candidateDigest
      exact ⟨_,he⟩
    obtain ⟨h4,h5,h6⟩ := (linkedCapability_iff (bundle_candidate hv) (bundle_evidence hv) (bundle_capability hv)
      (bundle_context hv) hexpires).mpr h4
    exact ⟨_,cd,bundle_key hv,(linkedDescriptor_iff (bundle_candidate hv) (bundle_hcad hv) (bundle_evidence hv)
      (bundle_capability hv) (bundle_context hv)).mpr ⟨h1,hcd⟩,
      (linkedTransition_iff (bundle_transition hv) ht (bundle_evidence hv) (bundle_capability hv) hcd).mpr h2,
      (linkedEvidence_iff (bundle_evidence hv)).mpr h3,h4,h5,h6⟩

end

end ExecutionFinality
