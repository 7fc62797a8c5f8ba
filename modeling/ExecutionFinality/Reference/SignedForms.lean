import ExecutionFinality.Reference.EffectReceipts

/-! The records that are signed or hashed carry no type tag: their field lists keep them apart. -/
namespace ExecutionFinality
open KeyedEntries (keys)
open Platform
open Utf8 (Bytes)

/-- What is signed or hashed, by the function that makes it. -/
inductive Form where
  | evidence (e : ValidationEvidence)
  | capability (cap : Capability)
  | receipt (r : SinkReceipt)
  | proof (p : PresentationProof)
  | evidenceCore (e : ValidationEvidence)
  | capabilityCore (cap : Capability)
  | receiptCore (r : SinkReceipt)
  | transitionCore (t : StateTransition) (candidateDigest : PyStr)
  | hcad (d : HCAD)
  | candidate (c : CandidateAct)
  | effectReference (channel candidateDigest : PyStr) (ordinal : Nat)

inductive FormKind where
  | evidence | capability | receipt | proof | evidenceCore | capabilityCore | receiptCore | transitionCore
  | hcad | candidate | effectReference
  deriving DecidableEq

/-- The number of fields -/
def FormKind.size : FormKind → Nat
  | .evidence => 10
  | .capability => 14
  | .receipt => 12
  | .proof => 7
  | .evidenceCore => 9
  | .capabilityCore => 13
  | .receiptCore => 11
  | .transitionCore => 10
  | .hcad => 17
  | .candidate => 18
  | .effectReference => 3

namespace Form

def kind : Form → FormKind
  | .evidence _ => .evidence
  | .capability _ => .capability
  | .receipt _ => .receipt
  | .proof _ => .proof
  | .evidenceCore _ => .evidenceCore
  | .capabilityCore _ => .capabilityCore
  | .receiptCore _ => .receiptCore
  | .transitionCore _ _ => .transitionCore
  | .hcad _ => .hcad
  | .candidate _ => .candidate
  | .effectReference _ _ _ => .effectReference

def mapKind : Form → MapKind
  | .hcad _ | .candidate _ => .dataclass
  | _ => .dict

def fields : Form → List (String × PyVal)
  | .evidence e => ("evidence_id",.str e.evidenceId) :: e.core
  | .capability cap => ("capability_id",.str cap.capabilityId) :: cap.core
  | .receipt r => ("receipt_id",.str r.receiptId) :: r.core
  | .proof p => p.fields
  | .evidenceCore e => e.core
  | .capabilityCore cap => cap.core
  | .receiptCore r => r.core
  | .transitionCore t d => ProtectedState.transitionCore t d
  | .hcad d => d.fields
  | .candidate c => c.fields
  | .effectReference channel d n => [("channel",.str channel),("candidate_digest",.str d),("ordinal",.int n)]

def value (f : Form) : PyVal := .fields f.mapKind f.fields

variable {pf : Platform} {f g : Form}

theorem length_fields : f.fields.length = f.kind.size := by
  cases f <;> rfl

theorem literalKeys : PyVal.LiteralKeys (keys f.fields) := by
  cases f with
  | evidence e => exact e.literalKeys
  | capability cap => exact cap.literalKeys
  | receipt r => exact r.literalKeys
  | evidenceCore e => exact e.literalKeys.tail
  | capabilityCore cap => exact cap.literalKeys.tail
  | receiptCore r => exact r.literalKeys.tail
  | hcad d => exact d.literalKeys
  | candidate c => exact c.literalKeys
  | proof p =>
    simp only [keys,fields,PresentationProof.fields,List.map_cons,List.map_nil]
    decide
  | transitionCore t d =>
    simp only [keys,fields,ProtectedState.transitionCore,List.map_cons,List.map_nil]
    decide
  | effectReference channel d n =>
    simp only [keys,fields,List.map_cons,List.map_nil]
    decide

theorem keys_of_kind (h : f.kind = g.kind) : keys f.fields = keys g.fields := by
  cases f <;> cases g <;> first | rfl | cases h

/-- Only evidence and transitions have equally many fields. -/
theorem kind_of_size {k l : FormKind} (h : k.size = l.size) :
    k = l ∨ (k = .evidence ∧ l = .transitionCore) ∨ (k = .transitionCore ∧ l = .evidence) := by
  cases k <;> cases l <;> first | exact .inl rfl | exact .inr (.inl ⟨rfl,rfl⟩) | exact .inr (.inr ⟨rfl,rfl⟩) | cases h

theorem evidenceId_mem (h : f.kind = .evidence) : "evidence_id" ∈ keys f.fields := by
  cases f <;> first | exact List.mem_cons_self .. | cases h

theorem evidenceId_notMem (h : f.kind = .transitionCore) : "evidence_id" ∉ keys f.fields := by
  cases f with
  | transitionCore t d =>
    simp only [keys,fields,ProtectedState.transitionCore,List.map_cons,List.map_nil]
    decide
  | _ => cases h

/-- One normal form, one kind. -/
theorem kind_of_sameNormal (hnfc : pf.nfc.FixesAscii) (h : pf.SameNormal f.value g.value) : f.kind = g.kind := by
  have hlength := h.length
  rw [length_fields,length_fields] at hlength
  rcases kind_of_size hlength with hk | ⟨hf,hg⟩ | ⟨hf,hg⟩
  · exact hk
  · exact absurd (h.key hnfc literalKeys literalKeys (evidenceId_mem hf)) (evidenceId_notMem hg)
  · exact absurd (h.symm.key hnfc literalKeys literalKeys (evidenceId_mem hg)) (evidenceId_notMem hf)

end Form

namespace PyVal
variable {nfc : Nfc}

theorem not_tagClashItems {xs ys : List PyVal} (h : ∀ x ∈ xs, ∃ k s, x = .text k s) : ¬ TagClashItems nfc xs ys := by
  induction xs generalizing ys with
  | nil => cases ys <;> exact id
  | cons x xs ih =>
    obtain ⟨k,s,rfl⟩ := h x (List.mem_cons_self ..)
    cases ys with
    | nil => exact id
    | cons y ys =>
      rintro (hx | hxs)
      · cases y <;> exact hx
      · exact ih (fun x hx => h x (List.mem_cons_of_mem _ hx)) hxs

theorem Plain.not_tagClash {v w : PyVal} (h : v.Plain) : ¬ TagClash nfc v w := by
  cases v with
  | int | text => cases w <;> exact id
  | seq k xs =>
    cases w with
    | seq l ys => exact not_tagClashItems h
    | _ => exact id
  | _ => exact h.elim

end PyVal

/-- One name, and one value up to NFC; of a payload and of an authority context, one canonical form. -/
def FieldsAgree (pf : Platform) (f g : String × PyVal) : Prop :=
  f.1 = g.1 ∧ if f.1 = "payload" ∨ f.1 = "authority_context" then pf.SameNormal f.2 g.2 else SameData pf.nfc f.2 g.2

namespace Form
variable {pf : Platform} {f g : Form}

/-- The same kind and the same fields -/
def Agree (pf : Platform) (f g : Form) : Prop :=
  f.kind = g.kind ∧ List.Forall₂ (FieldsAgree pf) f.fields g.fields

theorem plain_field : ∀ x ∈ f.fields, x.1 ≠ "payload" → x.1 ≠ "authority_context" → x.2.Plain ∨ x.2 = .none := by
  cases f with
  | evidence e => exact fun x hx _ _ => .inl (e.plain x hx)
  | evidenceCore e => exact fun x hx _ _ => .inl (e.plain x (List.mem_cons_of_mem _ hx))
  | capability cap => exact fun x hx _ _ => .inl (cap.plain x hx)
  | capabilityCore cap => exact fun x hx _ _ => .inl (cap.plain x (List.mem_cons_of_mem _ hx))
  | hcad d => exact fun x hx _ _ => .inl (d.plain x hx)
  | transitionCore t d => exact fun x hx _ _ => .inl (ProtectedState.plain_transitionCore t d x hx)
  | receipt r | receiptCore r =>
    cases hr : r.effectReference <;> simp [fields,SinkReceipt.core,PyVal.Plain,PyVal.strs,hr]
  | proof p => simp [fields,PresentationProof.fields,PyVal.Plain]
  | candidate c => simp [fields,CandidateAct.fields,PyVal.Plain]
  | effectReference channel d n => simp [fields,PyVal.Plain]

/-- One kind and one normal form, the same fields. -/
theorem agree_of_kind (hkind : f.kind = g.kind) (h : pf.SameNormal f.value g.value) : f.Agree pf g := by
  refine ⟨hkind,KeyedEntries.forall₂_imp_of_mem (fun x hx y hxy => ?_) (h.forall₂ (keys_of_kind hkind))⟩
  obtain ⟨hname,hsame⟩ := hxy
  refine ⟨hname,?_⟩
  split
  · exact hsame
  · rename_i hname
    rw [not_or] at hname
    obtain ⟨j,hj,hj'⟩ := hsame
    apply PyVal.sameData_of_normalize_eq x.2 y.2 j hj hj'
    rcases plain_field x hx hname.1 hname.2 with hp | hnone
    · exact hp.not_tagClash
    · rw [hnone]
      cases y.2 <;> exact id

theorem agree_of_canonicalBytes (hnfc : pf.nfc.FixesAscii) {b : Bytes} (hf : pf.canonicalBytes f.value = .ok b)
    (hg : pf.canonicalBytes g.value = .ok b) : f.Agree pf g :=
  have h := sameNormal_of_canonicalBytes hf hg
  agree_of_kind (kind_of_sameNormal hnfc h) h

end Form
/-- The raw signature over a message -/
def Authenticator.raw (pf : Platform) : Authenticator → Bytes → Option Bytes
  | .hmac key _, m => some (pf.hmacSha256 key m)
  | .ed25519 _ privateKey _, m => privateKey.map fun key => pf.ed25519Sign key m

/-- The raw signature is valid for the message. -/
def Authenticator.Valid (pf : Platform) : Authenticator → Bytes → Bytes → Prop
  | .hmac key _, raw, m => pf.hmacSha256 key m = raw
  | .ed25519 _ _ publicKey, raw, m => pf.ed25519Verify publicKey raw m = true

namespace Authenticator
variable {pf : Platform} {a b : Authenticator} {value : PyVal} {signature kid : PyStr}

theorem sign_raw (h : a.sign pf value = .ok signature) : ∃ m raw, pf.canonicalBytes value = .ok m ∧
    a.raw pf m = some raw ∧ signature = PyStr.ofChars (hexChars raw) := by
  cases a with
  | hmac key keyId =>
    simp only [sign,CheckChains.bind_eq_ok,CheckChains.pure_eq_ok] at h
    obtain ⟨m,hm,rfl⟩ := h
    exact ⟨m,_,hm,rfl,rfl⟩
  | ed25519 keyId privateKey publicKey =>
    cases privateKey with
    | none => cases h
    | some key =>
      simp only [sign,CheckChains.bind_eq_ok,CheckChains.pure_eq_ok] at h
      obtain ⟨m,hm,rfl⟩ := h
      exact ⟨m,_,hm,rfl,rfl⟩

theorem valid_of_verify {raw : Bytes} (h : b.verify pf value (PyStr.ofChars (hexChars raw)) kid = .ok true) :
    ∃ m, pf.canonicalBytes value = .ok m ∧ b.Valid pf raw m := by
  unfold verify at h
  split at h
  · cases h
  cases b with
  | hmac key keyId =>
    obtain ⟨own,hown,heq⟩ := CheckChains.bind_eq_ok.mp h
    obtain ⟨m,raw',hm,hraw,rfl⟩ := sign_raw hown
    obtain ⟨_,_,heq⟩ := CheckChains.bind_eq_ok.mp heq
    cases hraw
    exact ⟨m,hm,hexChars_injective (PyStr.ofChars_injective (of_decide_eq_true (Except.ok.inj heq)))⟩
  | ed25519 keyId privateKey publicKey =>
    dsimp only at h
    rw [fromHex_hexChars] at h
    cases hm : pf.canonicalBytes value with
    | error e =>
      rw [hm] at h
      cases h
    | ok m =>
      rw [hm] at h
      exact ⟨m,rfl,Except.ok.inj h⟩

end Authenticator

namespace Form

/-- The two forms are encoded differently, and SHA-256 gives one value for both. -/
def Collides (pf : Platform) (f g : Form) : Prop := ∃ m m', pf.canonicalBytes f.value = .ok m ∧
  pf.canonicalBytes g.value = .ok m' ∧ m ≠ m' ∧ pf.sha256 m = pf.sha256 m'

/-- The signature that `a` makes over the bytes of `f` is valid in `b` over the other bytes of `g`. -/
def Forges (pf : Platform) (a b : Authenticator) (signature : PyStr) (f g : Form) : Prop :=
  ∃ m m' raw, pf.canonicalBytes f.value = .ok m ∧ pf.canonicalBytes g.value = .ok m' ∧ m ≠ m' ∧
    signature = PyStr.ofChars (hexChars raw) ∧ a.raw pf m = some raw ∧ b.Valid pf raw m'

variable {pf : Platform} {f g : Form}

/-- Two forms with one identifier agree, or their own canonical bytes collide. -/
theorem agree_of_sha256Hex (hnfc : pf.nfc.FixesAscii) {d : PyStr} (hf : pf.sha256Hex f.value = .ok d)
    (hg : pf.sha256Hex g.value = .ok d) : f.Agree pf g ∨ Collides pf f g := by
  obtain ⟨m,hm,rfl⟩ := sha256Hex_eq_ok.mp hf
  obtain ⟨m',hm',he⟩ := sha256Hex_eq_ok.mp hg
  by_cases heq : m = m'
  · exact .inl (agree_of_canonicalBytes hnfc hm (heq ▸ hm'))
  · exact .inr ⟨m,m',hm,hm',heq,hexChars_injective (PyStr.ofChars_injective he)⟩

/-- Where the signature made for one form is valid for another, the two agree, or the signature itself is
a forgery. -/
theorem agree_of_signature (hnfc : pf.nfc.FixesAscii) {a b : Authenticator} {signature kid : PyStr}
    (hs : a.sign pf f.value = .ok signature) (hv : b.verify pf g.value signature kid = .ok true) :
    f.Agree pf g ∨ Forges pf a b signature f g := by
  obtain ⟨m,raw,hm,hraw,rfl⟩ := Authenticator.sign_raw hs
  obtain ⟨m',hm',hvalid⟩ := Authenticator.valid_of_verify hv
  by_cases heq : m = m'
  · exact .inl (agree_of_canonicalBytes hnfc hm (heq ▸ hm'))
  · exact .inr ⟨m,m',raw,hm,hm',heq,rfl,hraw,hvalid⟩

end Form
/-! The signing statements as the callers write them, with the dictionary that each of them signs. -/

/-- `evidence_core` of `authorize` -/
def ProtectedAuthority.evidenceCore (a : ProtectedAuthority) (descriptorDigest candidateDigest : PyStr)
    (candidate : CandidateAct) (transition : StateTransition) (now : Int) : List (String × PyVal) :=
  [("authority_id",.str a.authorityId),("descriptor_digest",.str descriptorDigest),
    ("candidate_digest",.str candidateDigest),("transition_id",.str transition.transitionId),
    ("policy_epoch",.int candidate.policyEpoch),("decision",.str (py "ALLOW")),("reasons",.list []),
    ("committed_at_ns",.int now),("key_id",.str a.authenticator.keyId)]

/-- `unsigned_evidence` and the evidence with its signature -/
def ProtectedAuthority.signedEvidence (pf : Platform) (a : ProtectedAuthority) (descriptor : HCAD)
    (candidate : CandidateAct) (transition : StateTransition) (now : Int) :
    Except Exn (PyVal × ValidationEvidence) := do
  let descriptorDigest ← descriptor.digest pf
  let candidateDigest ← candidate.digest pf
  let core := a.evidenceCore descriptorDigest candidateDigest candidate transition now
  let evidenceId ← pf.sha256Hex (.fields .dict core)
  let unsigned := .fields .dict (("evidence_id",.str evidenceId) :: core)
  let signature ← a.authenticator.sign pf unsigned
  return (unsigned,{
    evidenceId
    authorityId := a.authorityId
    descriptorDigest
    candidateDigest
    transitionId := transition.transitionId
    policyEpoch := candidate.policyEpoch
    decision := .allow
    reasons := []
    committedAtNs := now
    signature
    keyId := a.authenticator.keyId })

/-- `cap_core` of `authorize` -/
def ProtectedAuthority.capCore (a : ProtectedAuthority) (descriptorDigest candidateDigest : PyStr)
    (candidate : CandidateAct) (transition : StateTransition) (e : ValidationEvidence) (now : Int) :
    List (String × PyVal) :=
  [("authority_id",.str a.authorityId),("candidate_digest",.str candidateDigest),
    ("descriptor_digest",.str descriptorDigest),("sink_id",.str candidate.sinkId),
    ("boundary_id",.str candidate.boundaryId),("nonce",.str candidate.nonce),("scope",.strs candidate.scope),
    ("policy_epoch",.int candidate.policyEpoch),("evidence_id",.str e.evidenceId),
    ("transition_id",.str transition.transitionId),("issued_at_ns",.int now),
    ("expires_at_ns",.int (min (candidate.issuedAtNs + candidate.freshnessNs) (now + a.capabilityTtlNs))),
    ("key_id",.str a.authenticator.keyId)]

/-- `unsigned_cap` and the capability with its signature -/
def ProtectedAuthority.signedCapability (pf : Platform) (a : ProtectedAuthority) (descriptor : HCAD)
    (candidate : CandidateAct) (transition : StateTransition) (e : ValidationEvidence) (now : Int) :
    Except Exn (PyVal × Capability) := do
  let candidateDigest ← candidate.digest pf
  let descriptorDigest ← descriptor.digest pf
  let core := a.capCore descriptorDigest candidateDigest candidate transition e now
  let capabilityId ← pf.sha256Hex (.fields .dict core)
  let unsigned := .fields .dict (("capability_id",.str capabilityId) :: core)
  let signature ← a.authenticator.sign pf unsigned
  return (unsigned,{
    capabilityId
    authorityId := a.authorityId
    candidateDigest
    descriptorDigest
    sinkId := candidate.sinkId
    boundaryId := candidate.boundaryId
    nonce := candidate.nonce
    scope := candidate.scope
    policyEpoch := candidate.policyEpoch
    evidenceId := e.evidenceId
    transitionId := transition.transitionId
    issuedAtNs := now
    expiresAtNs := min (candidate.issuedAtNs + candidate.freshnessNs) (now + a.capabilityTtlNs)
    keyId := a.authenticator.keyId
    signature })

/-- `receipt_core` of `effectuate` -/
def FinalitySink.receiptCore (s : FinalitySink) (candidateDigest : PyStr) (cap : Capability)
    (descriptorDigest : PyStr) (record : EffectRecord) (now : Int) : List (String × PyVal) :=
  [("capability_id",.str cap.capabilityId),("candidate_digest",.str candidateDigest),
    ("descriptor_digest",.str descriptorDigest),("sink_id",.str s.context.sinkId),
    ("boundary_id",.str s.context.boundaryId),("transition_id",.str cap.transitionId),("scope",.strs cap.scope),
    ("effect_status",.str (py "EFFECTIVE")),("committed_at_ns",.int now),
    ("effect_reference",.str record.effectReference),("key_id",.str s.receiptAuthenticator.keyId)]

/-- `unsigned` of `effectuate` and the receipt with its signature -/
def FinalitySink.signedReceipt (pf : Platform) (s : FinalitySink) (candidate : CandidateAct) (cap : Capability)
    (descriptorDigest : PyStr) (record : EffectRecord) (now : Int) : Except Exn (PyVal × SinkReceipt) := do
  let candidateDigest ← candidate.digest pf
  let core := s.receiptCore candidateDigest cap descriptorDigest record now
  let receiptId ← pf.sha256Hex (.fields .dict core)
  let unsigned := .fields .dict (("receipt_id",.str receiptId) :: core)
  let signature ← s.receiptAuthenticator.sign pf unsigned
  return (unsigned,{
    receiptId
    capabilityId := cap.capabilityId
    candidateDigest
    descriptorDigest
    sinkId := s.context.sinkId
    boundaryId := s.context.boundaryId
    transitionId := cap.transitionId
    scope := cap.scope
    effectStatus := py "EFFECTIVE"
    committedAtNs := now
    effectReference := some record.effectReference
    signature
    keyId := s.receiptAuthenticator.keyId })

/-- `unsigned` of `prove` and the proof with its signature -/
def Presenter.signedProof (pf : Platform) (self : Presenter)
    (capabilityId candidateDigest sinkId boundaryId nonce : PyStr) (presentedAtNs : Int) :
    Except Exn (PyVal × PresentationProof) := do
  let unsigned := .fields .dict [("capability_id",.str capabilityId),("candidate_digest",.str candidateDigest),
    ("sink_id",.str sinkId),("boundary_id",.str boundaryId),("nonce",.str nonce),
    ("presented_at_ns",.int presentedAtNs),("presenter_key_id",.str self.authenticator.keyId)]
  let signature ← self.authenticator.sign pf unsigned
  return (unsigned,⟨capabilityId,candidateDigest,sinkId,boundaryId,nonce,presentedAtNs,self.authenticator.keyId,
    signature⟩)

section Signed
variable {pf : Platform} {v : PyVal}

theorem signedEvidence_eq_ok {a : ProtectedAuthority} {descriptor : HCAD} {candidate : CandidateAct}
    {transition : StateTransition} {now : Int} {e : ValidationEvidence} :
    a.signedEvidence pf descriptor candidate transition now = .ok (v,e) ↔
      a.evidence pf descriptor candidate transition now = .ok e ∧ v = e.unsigned := by
  rw [ProtectedAuthority.evidence_eq_ok]
  simp only [ProtectedAuthority.signedEvidence,CheckChains.bind_eq_ok,CheckChains.pure_eq_ok,Prod.mk.injEq]
  constructor
  · rintro ⟨d,hd,c,hc,i,hi,s,hs,rfl,rfl⟩
    exact ⟨⟨rfl,hd,hc,rfl,rfl,rfl,rfl,rfl,rfl,hi,hs⟩,rfl⟩
  · rintro ⟨h,rfl⟩
    obtain ⟨i,au,dd,cd,ti,pe,de,re,ca,si,ki⟩ := e
    obtain ⟨rfl,hd,hc,rfl,rfl,rfl,rfl,rfl,rfl,hi,hs⟩ := h
    exact ⟨_,hd,_,hc,_,hi,_,hs,rfl,rfl⟩

theorem signedCapability_eq_ok {a : ProtectedAuthority} {descriptor : HCAD} {candidate : CandidateAct}
    {transition : StateTransition} {e : ValidationEvidence} {now : Int} {cap : Capability} :
    a.signedCapability pf descriptor candidate transition e now = .ok (v,cap) ↔
      a.capability pf descriptor candidate transition e now = .ok cap ∧ v = cap.unsigned := by
  rw [ProtectedAuthority.capability_eq_ok]
  simp only [ProtectedAuthority.signedCapability,CheckChains.bind_eq_ok,CheckChains.pure_eq_ok,Prod.mk.injEq]
  constructor
  · rintro ⟨c,hc,d,hd,i,hi,s,hs,rfl,rfl⟩
    exact ⟨⟨rfl,hc,hd,rfl,rfl,rfl,rfl,rfl,rfl,rfl,rfl,rfl,rfl,hi,hs⟩,rfl⟩
  · rintro ⟨h,rfl⟩
    obtain ⟨i,au,cd,dd,si,bi,no,sc,pe,ev,ti,ia,ea,ki,sg⟩ := cap
    obtain ⟨h1,hc,hd,h2,h3,h4,h5,h6,h7,h8,h9,h10,h11,hi,hs⟩ := h
    dsimp only at h1 h2 h3 h4 h5 h6 h7 h8 h9 h10 h11
    subst h1 h2 h3 h4 h5 h6 h7 h8 h9 h10 h11
    exact ⟨_,hc,_,hd,_,hi,_,hs,rfl,rfl⟩

theorem signedReceipt_eq_ok {s : FinalitySink} {candidate : CandidateAct} {cap : Capability}
    {descriptorDigest : PyStr} {record : EffectRecord} {now : Int} {r : SinkReceipt} :
    s.signedReceipt pf candidate cap descriptorDigest record now = .ok (v,r) ↔
      s.receipt pf candidate cap descriptorDigest record now = .ok r ∧ v = r.unsigned := by
  rw [FinalitySink.receipt_eq_ok]
  simp only [FinalitySink.signedReceipt,CheckChains.bind_eq_ok,CheckChains.pure_eq_ok,Prod.mk.injEq]
  constructor
  · rintro ⟨c,hc,i,hi,g,hg,rfl,rfl⟩
    exact ⟨⟨rfl,hc,rfl,rfl,rfl,rfl,rfl,rfl,rfl,rfl,rfl,hi,hg⟩,rfl⟩
  · rintro ⟨h,rfl⟩
    obtain ⟨ri,ci,cd,dd,si,bi,ti,sc,es,ca,er,sg,ki⟩ := r
    obtain ⟨h1,hc,h2,h3,h4,h5,h6,h7,h8,h9,h10,hi,hg⟩ := h
    dsimp only at h1 h2 h3 h4 h5 h6 h7 h8 h9 h10
    subst h1 h2 h3 h4 h5 h6 h7 h8 h9 h10
    exact ⟨_,hc,_,hi,_,hg,rfl,rfl⟩

theorem signedProof_eq_ok {self : Presenter} {capabilityId candidateDigest sinkId boundaryId nonce : PyStr}
    {presentedAtNs : Int} {p : PresentationProof} :
    self.signedProof pf capabilityId candidateDigest sinkId boundaryId nonce presentedAtNs = .ok (v,p) ↔
      self.prove pf capabilityId candidateDigest sinkId boundaryId nonce presentedAtNs = .ok p ∧ v = p.unsigned := by
  simp only [Presenter.signedProof,Presenter.prove,CheckChains.bind_eq_ok,CheckChains.pure_eq_ok,Prod.mk.injEq]
  constructor
  · rintro ⟨g,hg,rfl,rfl⟩
    exact ⟨⟨g,hg,rfl⟩,rfl⟩
  · rintro ⟨⟨g,hg,rfl⟩,rfl⟩
    exact ⟨g,hg,rfl,rfl⟩

/-- Canonical bytes tell the eleven forms apart, so an identifier or a signature is for one form only, unless
the bytes of the two forms collide or one signature is valid for both; and what `authorize`, `effectuate` and
`prove` sign is what `unsigned` gives back. -/
theorem signed_forms_separate (hnfc : pf.nfc.FixesAscii) :
    (∀ (f g : Form) (b : Bytes), pf.canonicalBytes f.value = .ok b → pf.canonicalBytes g.value = .ok b →
      f.Agree pf g) ∧
    (∀ (f g : Form) (d : PyStr), pf.sha256Hex f.value = .ok d → pf.sha256Hex g.value = .ok d →
      f.Agree pf g ∨ Form.Collides pf f g) ∧
    (∀ (f g : Form) (a b : Authenticator) (signature kid : PyStr), a.sign pf f.value = .ok signature →
      b.verify pf g.value signature kid = .ok true →
      f.Agree pf g ∨ Form.Forges pf a b signature f g) ∧
    (∀ (a : ProtectedAuthority) d c t now v e, a.signedEvidence pf d c t now = .ok (v,e) ↔
      a.evidence pf d c t now = .ok e ∧ v = e.unsigned) ∧
    (∀ (a : ProtectedAuthority) d c t e now v cap, a.signedCapability pf d c t e now = .ok (v,cap) ↔
      a.capability pf d c t e now = .ok cap ∧ v = cap.unsigned) ∧
    (∀ (s : FinalitySink) c cap d record now v r, s.signedReceipt pf c cap d record now = .ok (v,r) ↔
      s.receipt pf c cap d record now = .ok r ∧ v = r.unsigned) ∧
    ∀ (self : Presenter) capabilityId candidateDigest sinkId boundaryId nonce presentedAtNs v p,
      self.signedProof pf capabilityId candidateDigest sinkId boundaryId nonce presentedAtNs = .ok (v,p) ↔
        self.prove pf capabilityId candidateDigest sinkId boundaryId nonce presentedAtNs = .ok p ∧ v = p.unsigned :=
  ⟨fun _ _ _ => Form.agree_of_canonicalBytes hnfc,fun _ _ _ => Form.agree_of_sha256Hex hnfc,
    fun _ _ _ _ _ _ => Form.agree_of_signature hnfc,fun _ _ _ _ _ _ _ => signedEvidence_eq_ok,
    fun _ _ _ _ _ _ _ _ => signedCapability_eq_ok,fun _ _ _ _ _ _ _ _ => signedReceipt_eq_ok,
    fun _ _ _ _ _ _ _ _ _ => signedProof_eq_ok⟩

end Signed

/-! Forms with a name in them that has two spellings -/

private def namedReference (name : String) : Form := .effectReference (py name) (py "00") 0
private def namedProof (name : String) : Form := .proof ⟨py name,py "00",py "s",py "b",py "n",1,py "p",[]⟩
private def namedCore (name : String) : Form := .transitionCore ⟨py "00",py "n",py name,0,1,5,4,9,8,7⟩ (py "00")

private theorem accepts_named : samplePlatform.Accepts (namedReference "K").value ∧
    samplePlatform.Accepts (namedProof "K").value ∧ samplePlatform.Accepts (namedCore "K").value := by
  have text (s : String) : ∃ cs, (py s).scalars = some cs := py_isText s
  refine ⟨?_,?_,?_⟩
  all_goals
    refine (accepts_fields sampleNfc_fixesAscii Form.literalKeys).mpr ?_
    simp only [namedReference,namedProof,namedCore,Form.fields,PresentationProof.fields,ProtectedState.transitionCore,
      List.forall_mem_cons,accepts_text,accepts_int]
    simp [text,prints_of_lt]

/-- Bytes, a digest and a signature under two spellings of a name: the forms agree. -/
theorem signed_forms_separate_sample : ∃ (b : Bytes) (d signature : PyStr),
    (samplePlatform.canonicalBytes (namedReference "K").value = .ok b ∧
      samplePlatform.canonicalBytes (namedReference "\u212A").value = .ok b ∧
      (namedReference "K").Agree samplePlatform (namedReference "\u212A")) ∧
    (samplePlatform.sha256Hex (namedCore "K").value = .ok d ∧ samplePlatform.sha256Hex (namedCore "\u212A").value = .ok d ∧
      (namedCore "K").Agree samplePlatform (namedCore "\u212A")) ∧
    ((Authenticator.hmac [1] (py "k")).sign samplePlatform (namedProof "K").value = .ok signature ∧
      (Authenticator.hmac [1] (py "k")).verify samplePlatform (namedProof "\u212A").value signature (py "k") = .ok true ∧
      (namedProof "K").Agree samplePlatform (namedProof "\u212A")) := by
  obtain ⟨hbytes,hdigest,hsignature⟩ := @signed_forms_separate samplePlatform sampleNfc_fixesAscii
  obtain ⟨⟨b,hb⟩,hproof,hcore⟩ := accepts_named
  obtain ⟨d,hd⟩ := exists_sha256Hex.mpr hcore
  obtain ⟨signature,hs⟩ := Authenticator.exists_sign (a := .hmac [1] (py "k")).mpr ⟨by rintro _ _ ⟨⟩,hproof⟩
  have reference : samplePlatform.SameNormal (namedReference "K").value (namedReference "\u212A").value := ⟨_,rfl,rfl⟩
  have core : samplePlatform.SameNormal (namedCore "K").value (namedCore "\u212A").value := ⟨_,rfl,rfl⟩
  have proof : samplePlatform.SameNormal (namedProof "K").value (namedProof "\u212A").value := ⟨_,rfl,rfl⟩
  have hb' := reference.canonicalBytes_eq ▸ hb
  have hd' : samplePlatform.sha256Hex (namedCore "\u212A").value = .ok d := by
    rw [Platform.sha256Hex,← core.canonicalBytes_eq]
    exact hd
  have hv : (Authenticator.hmac [1] (py "k")).verify samplePlatform (namedProof "\u212A").value signature (py "k") =
      .ok true := by
    rw [Authenticator.verify_congr proof.canonicalBytes_eq.symm]
    exact Authenticator.verify_sign (fun _ hk => Option.some.inj hk ▸ rfl) hs
  refine ⟨b,d,signature,⟨hb,hb',hbytes _ _ _ hb hb'⟩,⟨hd,hd',?_⟩,hs,hv,?_⟩
  · refine (hdigest _ _ _ hd hd').resolve_right ?_
    rintro ⟨m,m',hm,hm',hne,_⟩
    exact hne (Except.ok.inj (hm.symm.trans (core.canonicalBytes_eq.trans hm')))
  · refine (hsignature.1 _ _ _ _ _ _ hs hv).resolve_right ?_
    rintro ⟨m,m',_,hm,hm',hne,_⟩
    exact hne (Except.ok.inj (hm.symm.trans (proof.canonicalBytes_eq.trans hm')))

end ExecutionFinality
