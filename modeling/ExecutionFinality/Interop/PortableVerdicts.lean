import ExecutionFinality.Interop.IssuedBundles

/-! Where the verdicts of the portable verifiers agree with each other and with the sink of
the reference. -/
namespace ExecutionFinality
open Utf8 (Bytes)
open Function (update)
open Platform

variable {pf : Node.Platform}

/-- On one document the portable verifiers differ exactly when its records are linked and it
has all the types but not all the properties, or the properties but not the types. -/
theorem portable_verdicts_agree_iff {p : PyVal} {g : List (GoStr × GoAny)} {v : JsVal} (hg : GoValue p (.map g))
    (hv : NodeValue p v) (hs : p.SafeInts) :
    ((∃ out, Go.finalityverify pf.toPlatform g = .ok out) ↔ ∃ out, Node.finalityVerify pf v = .ok out) ↔
      (Node.Linked pf v → (Node.Typed v ↔ Node.Present v)) := by
  rw [finalityverify_ok ⟨p,hg,hv,hs⟩,Node.finalityVerify_ok]
  tauto

variable (pf) in
/-- The portable verdicts on a linked bundle under the key that it spells -/
private theorem passes {b : Bundle} {g : List (GoStr × GoAny)} {v : JsVal} (hg : GoValue b.value (.map g)) (hv : NodeValue b.value v)
    (hs : b.value.SafeInts) (hlinks : b.Links pf) {key : Bytes} (hkey : b.authorityKeyHex = hexChars key) :
    (∃ out, Go.finalityverify pf.toPlatform g = .ok out) ∧ ∃ out, Node.finalityVerify pf v = .ok out := by
  have hlinked : Node.Linked pf v := (linked_iff hv hs).mpr hlinks
  have htyped : Node.Typed v := typed_of_bundle hv (by rw [hkey]; exact (hexPrefix_hexChars key).1)
  exact ⟨(finalityverify_ok ⟨_,hg,hv,hs⟩).mpr ⟨htyped,hlinked⟩,Node.finalityVerify_ok.mpr ⟨present_of_bundle hv,hlinked⟩⟩

theorem Bundle.Links.rekey {b : Bundle} (h : b.Links pf) {hex : List Char}
    (hk : ({ b with authorityKeyHex := hex } : Bundle).authorityKey = b.authorityKey) :
    ({ b with authorityKeyHex := hex } : Bundle).Links pf := by
  obtain ⟨hd,ht,he,hc⟩ := h
  refine ⟨⟨hd.1,hd.2,hd.3,hd.4,hd.5,hd.6,hd.7⟩,⟨ht.1,ht.2,ht.3,ht.4,ht.5,ht.6⟩,⟨?_,he.2,he.3⟩,
    ⟨?_,hc.2,hc.3,hc.4,hc.5,hc.6,hc.7,hc.8,hc.9,hc.10,hc.11⟩⟩
  · rw [hk]
    exact he.1
  · rw [hk]
    exact hc.1

/-- Node stops reading the key at the first pair that is not hexadecimal, Go refuses it. -/
theorem portable_verdicts_differ : ∃ (b : Bundle) (g : List (GoStr × GoAny)) (v : JsVal),
    b.authorityKeyHex = "01z".toList ∧ GoValue b.value (.map g) ∧ NodeValue b.value v ∧ b.value.SafeInts ∧
    (∃ out, Node.finalityVerify Node.samplePlatform v = .ok out) ∧
    ¬ ∃ out, Go.finalityverify samplePlatform g = .ok out := by
  obtain ⟨b,hkey,_,_,_,_,_,hparts,hs,hlinks⟩ := exists_sampleBundle (py "nonce") (py_isText _)
  let b' : Bundle := { b with authorityKeyHex := "01z".toList }
  have hauth : b'.authorityKey = b.authorityKey := by
    rw [Bundle.authorityKey,Bundle.authorityKey,hkey]
    change Node.hexPrefix (Utf16.encode "01z".toList) = _
    decide
  have hparts' : b'.PortableParts samplePlatform :=
    ⟨hparts.context,hparts.candidate,hparts.hcad,hparts.transition,hparts.evidence,hparts.capability⟩
  have hs' : b'.value.SafeInts := by
    simp only [Bundle.value,safeInts_fields,Bundle.fields,List.forall_mem_cons] at hs ⊢
    exact hs
  obtain ⟨⟨g,hg⟩,v,hv⟩ := hparts'.writable
  have hlinked : Node.Linked Node.samplePlatform (.object v) := (linked_iff hv hs').mpr (hlinks.rekey hauth)
  refine ⟨b',g,_,rfl,hg,hv,hs',Node.finalityVerify_ok.mpr ⟨present_of_bundle hv,hlinked⟩,fun hgo => ?_⟩
  have hpass : (∃ out, Go.finalityverify Node.samplePlatform.toPlatform g = .ok out) ↔ _ :=
    finalityverify_ok ⟨_,hg,hv,hs'⟩
  obtain ⟨⟨u,hu,hhex⟩,_⟩ := (hpass.mp hgo).1
  have hkey' : NodeValue (.str (PyStr.ofChars b'.authorityKeyHex)) (Node.field (.object v) "authority_key_hex") :=
    hv.field (by simp [Bundle.fields])
  cases hu.symm.trans ((nodeText_eq hkey').mpr rfl)
  exact absurd hhex.1 (show ¬ (Utf16.encode "01z".toList).length % 2 = 0 by decide)

/-- Two documents of one bundle: both verdicts on it agree, and both are PASS. -/
theorem portable_verdicts_agree_sample : ∃ (b : Bundle) (g : List (GoStr × GoAny)) (v : JsVal),
    GoValue b.value (.map g) ∧ NodeValue b.value v ∧ (∃ out, Go.finalityverify samplePlatform g = .ok out) ∧
    ((∃ out, Go.finalityverify samplePlatform g = .ok out) ↔
      ∃ out, Node.finalityVerify Node.samplePlatform v = .ok out) := by
  obtain ⟨b,hkey,_,_,_,_,_,hparts,hs,hlinks⟩ := exists_sampleBundle (py "nonce") (py_isText _)
  obtain ⟨⟨g,hg⟩,v,hv⟩ := hparts.writable
  obtain ⟨hgo,-⟩ := passes Node.samplePlatform hg hv hs hlinks hkey
  have htyped : Node.Typed (.object v) := typed_of_bundle hv (by rw [hkey]; exact (hexPrefix_hexChars [1]).1)
  exact ⟨b,g,_,hg,hv,hgo,(@portable_verdicts_agree_iff Node.samplePlatform _ _ _ hg hv hs).mpr
    fun _ => iff_of_true htyped (present_of_bundle hv)⟩

namespace Bundle

/-- A sink, stores and a clock that hold what the bundle holds. -/
structure Installed (b : Bundle) (s : FinalitySink) (store : EvidenceStore) (state : ProtectedState) (now : Int) :
    Prop where
  context : s.context = b.context
  authenticator : s.authenticator = .hmac b.authorityKey b.capability.keyId
  evidence : store.records b.evidence.evidenceId = some b.evidence
  transition : state.transitions b.transition.transitionId = some b.transition
  nonce : state.nonces b.transition.nonce = some b.transition.transitionId
  noProof : s.requirePresentationProof = false
  issued : b.capability.issuedAtNs - s.maxClockSkewNs ≤ now
  expires : now ≤ b.capability.expiresAtNs

/-- The links that the sink of the reference checks and the portable verifiers do not. -/
structure Bound (b : Bundle) : Prop where
  candidateSink : b.candidate.sinkId = b.sinkId
  candidateBoundary : b.candidate.boundaryId = b.boundaryId
  candidateEpoch : b.candidate.policyEpoch = b.policyEpoch
  evidenceId : b.capability.evidenceId = b.evidence.evidenceId
  evidenceEpoch : b.evidence.policyEpoch = b.capability.policyEpoch
  transitionNonce : b.transition.nonce = b.candidate.nonce
  transitionSource : b.transition.source = b.candidate.source
  transitionEpoch : b.transition.policyEpoch = b.candidate.policyEpoch

end Bundle

theorem Platform.PortableDigest.sha256Hex {v : PyVal} {d : PyStr} (h : pf.PortableDigest v d) :
    pf.sha256Hex v = .ok d := by
  obtain ⟨b,hb,rfl⟩ := h
  exact sha256Hex_eq_ok.mpr ⟨b,canonicalBytes_of_portable hb,rfl⟩

theorem Platform.PortableMac.verify {key : Bytes} {v : PyVal} {m kid : PyStr} (h : pf.PortableMac key v m) :
    (Authenticator.hmac key kid).verify pf.toPlatform v m kid = .ok true := by
  obtain ⟨b,hb,rfl⟩ := h
  refine Authenticator.verify_sign (a := .hmac key kid) ?_ ?_
  · rintro k ⟨⟩
    rfl
  · simp only [Authenticator.sign,canonicalBytes_of_portable hb]
    rfl

variable {b : Bundle}

/-- A linked and bound bundle passes every check of the sink. -/
theorem Bundle.Links.verified (h : b.Links pf) (hb : b.Bound) {s : FinalitySink} {store : EvidenceStore}
    {state : ProtectedState} {now : Int} (hi : b.Installed s store state now) (proof : Option PresentationProof) :
    FinalitySink.Verified pf.toPlatform s store state b.candidate b.capability now proof := by
  obtain ⟨hd,ht,he,hc⟩ := h
  have hsink : s.context.sinkId = b.sinkId := by rw [hi.context]; rfl
  have hboundary : s.context.boundaryId = b.boundaryId := by rw [hi.context]; rfl
  have hepoch : s.context.policyEpoch = b.policyEpoch := by rw [hi.context]; rfl
  refine {
    status := hd.status
    effectClass := by rw [hi.context]; exact hc.effectClass
    candidateSink := hb.candidateSink.trans hsink.symm
    capSink := hc.sinkId.trans hsink.symm
    candidateBoundary := hb.candidateBoundary.trans hboundary.symm
    capBoundary := hc.boundaryId.trans hboundary.symm
    candidateEpoch := hb.candidateEpoch.trans hepoch.symm
    capEpoch := hc.policyEpoch.trans hepoch.symm
    scope := hc.scope.symm
    supported := by
      rw [hi.context]
      exact fun x hx => List.mem_toFinset.mpr (hc.supported x hx)
    nonce := hc.nonce
    issued := hi.issued
    expires := hi.expires
    outlives := hc.outlives
    signature := by
      rw [hi.authenticator]
      exact hc.signature.verify
    presentation := fun hreq => absurd hreq (by rw [hi.noProof]; decide)
    candidateDigest := hd.candidateDigest.sha256Hex
    descriptorDigest := ?_
    evidence := ⟨b.evidence,hb.evidenceId ▸ hi.evidence,?_⟩
    transition := ?_ }
  · refine ⟨b.descriptor,?_,hd.descriptorDigest.sha256Hex⟩
    simp only [buildHcad,CandidateAct.payloadDigest,hd.payloadDigest.sha256Hex,hsink,hboundary]
    rfl
  · exact {
      signature := by
        rw [hi.authenticator,b.keyIds]
        exact he.signature.verify
      decision := he.decision
      authorityId := hc.authorityId.symm
      candidateDigest := hd.evidenceCandidate
      descriptorDigest := hd.evidenceDescriptor
      transitionId := ht.evidenceTransition.trans ht.capTransition.symm
      policyEpoch := hb.evidenceEpoch }
  · rw [ht.capTransition]
    exact ProtectedState.verifyTransition_eq_true.mpr ⟨b.transition,hi.transition,hb.transitionNonce,hb.transitionSource,
      hb.transitionEpoch,ht.version,ht.quota,ht.budget,hb.transitionNonce ▸ hi.nonce⟩

namespace Bundle

/-! An environment that holds the bundle and nothing else. -/

def sink (b : Bundle) : FinalitySink where
  context := b.context
  authenticator := .hmac b.authorityKey b.capability.keyId
  marker := 0
  maxClockSkewNs := b.capability.issuedAtNs - b.capability.expiresAtNs

def evidenceStore (b : Bundle) : EvidenceStore where
  authenticator := .hmac b.authorityKey b.capability.keyId
  records := update (fun _ => none) b.evidence.evidenceId (some b.evidence)

def protectedState (b : Bundle) : ProtectedState where
  nonces := update (fun _ => none) b.transition.nonce (some b.transition.transitionId)
  transitions := update (fun _ => none) b.transition.transitionId (some b.transition)

end Bundle

end ExecutionFinality
