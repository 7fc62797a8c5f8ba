import ExecutionFinality.Reference.SequentialRuns
import ExecutionFinality.Reference.SystemInvariants

/-! Which exceptions leave a call of `effectuate`, and when one that is no refusal does. -/
namespace ExecutionFinality
open Utf8 (Bytes)
open Platform
open CheckChains

/-- The finality errors by which a sink refuses -/
def Exn.IsRefusal : Exn → Prop
  | .verificationFailed _ | .replayDetected _ | .effectDenied _ => True
  | _ => False

section
variable {t : PyStr}

@[simp] theorem Exn.isRefusal_verificationFailed : (Exn.verificationFailed t).IsRefusal := trivial
@[simp] theorem Exn.isRefusal_replayDetected : (Exn.replayDetected t).IsRefusal := trivial
@[simp] theorem Exn.isRefusal_effectDenied : (Exn.effectDenied t).IsRefusal := trivial
@[simp] theorem Exn.not_isRefusal_canonicalizationError : ¬ (Exn.canonicalizationError t).IsRefusal := id
@[simp] theorem Exn.not_isRefusal_valueError : ¬ (Exn.valueError t).IsRefusal := id
@[simp] theorem Exn.not_isRefusal_typeError : ¬ (Exn.typeError t).IsRefusal := id
@[simp] theorem Exn.not_isRefusal_runtimeError : ¬ (Exn.runtimeError t).IsRefusal := id

end

/-- What `hmac.compare_digest` raises for a string beyond ASCII -/
def Exn.notAscii : Exn := .typeError (py "comparing strings with non-ASCII characters is not supported")

def PyStr.IsAscii (s : PyStr) : Prop := ∀ c ∈ s, c.val < 128

instance (s : PyStr) : Decidable s.IsAscii := List.decidableBAll ..

theorem Platform.IsHex.isAscii {s : PyStr} (h : IsHex s) : s.IsAscii := by
  obtain ⟨b,rfl⟩ := h
  intro c hc
  obtain ⟨d,hd,rfl⟩ := List.mem_map.mp hc
  exact hexChars_ascii b d hd

/-! Canonicalization and signing raise no refusal. -/

namespace PyVal
variable {nfc : Nfc} {portable : Bool}

private theorem raises_normalizeText {message : String} {s : PyStr} :
    RaisesOnly (¬ Exn.IsRefusal ·) (normalizeText nfc message s) := by
  unfold normalizeText
  split <;> simp

private theorem raises_normalizeItems {xs : List PyVal}
    (h : ∀ x ∈ xs, RaisesOnly (¬ Exn.IsRefusal ·) (normalize nfc portable x)) :
    RaisesOnly (¬ Exn.IsRefusal ·) (normalizeItems nfc portable xs) := by
  induction xs with
  | nil => simp [normalizeItems]
  | cons x xs ih =>
    have hxs := ih fun y hy => h y (List.mem_cons_of_mem _ hy)
    simp [normalizeItems,h x List.mem_cons_self,hxs]

private theorem raises_normalizeEntries {es : List (PyKey × PyVal)}
    (h : ∀ e ∈ es, RaisesOnly (¬ Exn.IsRefusal ·) (normalize nfc portable e.2)) (out : List (List Char × Json)) :
    RaisesOnly (¬ Exn.IsRefusal ·) (normalizeEntries nfc portable es out) := by
  induction es generalizing out with
  | nil => simp [normalizeEntries]
  | cons e es ih =>
    have he := h e List.mem_cons_self
    have hes := ih fun f hf => h f (List.mem_cons_of_mem _ hf)
    obtain ⟨key,val⟩ := e
    cases key with
    | str => simp [normalizeEntries,raises_normalizeText,he,hes]
    | _ => simp [normalizeEntries]

theorem raises_normalize (v : PyVal) : RaisesOnly (¬ Exn.IsRefusal ·) (normalize nfc portable v) := by
  induction v using recOn_members with
  | seq _ xs ih => simp [normalize,raises_normalizeItems ih]
  | mapping _ es ih => simp [normalize,raises_normalizeEntries ih]
  | text => simp [normalize,raises_normalizeText]
  | _ => simp [normalize]

end PyVal

variable {pf : Platform} {a : Authenticator} {value v : PyVal} {signature kid : PyStr}

theorem Platform.raises_canonicalBytes : RaisesOnly (¬ Exn.IsRefusal ·) (pf.canonicalBytes v) := by
  simp [canonicalBytes,dump,PyVal.raises_normalize]

theorem Platform.raises_sha256Hex : RaisesOnly (¬ Exn.IsRefusal ·) (pf.sha256Hex v) := by
  simp [sha256Hex,raises_canonicalBytes]

/-- A digest is taken without an exception that is no refusal exactly when there is one. -/
theorem Platform.refuses_sha256Hex : RaisesOnly Exn.IsRefusal (pf.sha256Hex v) ↔ pf.Accepts v := by
  rw [raisesOnly_iff_returns raises_sha256Hex,exists_sha256Hex]

namespace Authenticator

theorem raises_sign : RaisesOnly (¬ Exn.IsRefusal ·) (a.sign pf value) := by
  cases a with
  | hmac => simp [sign,raises_canonicalBytes]
  | ed25519 _ privateKey => cases privateKey <;> simp [sign,raises_canonicalBytes]

theorem canSign_hmac (key : Bytes) (keyId : PyStr) : (hmac key keyId).CanSign := by
  rintro _ _ ⟨⟩

theorem refuses_compareDigest {s t : PyStr} :
    RaisesOnly Exn.IsRefusal (compareDigest s t) ↔ s.IsAscii ∧ t.IsAscii := by
  simp [compareDigest,PyStr.IsAscii,or_imp,forall_and]

/-- What escapes from the HMAC branch of `verify` is the exception of canonicalization
or of the comparison. -/
theorem refuses_verify_hmac {key : Bytes} {keyId : PyStr} :
    RaisesOnly Exn.IsRefusal ((hmac key keyId).verify pf value signature kid) ↔
      (kid = keyId → pf.Accepts value ∧ signature.IsAscii) := by
  have hsign : RaisesOnly Exn.IsRefusal ((hmac key keyId).sign pf value) ↔ pf.Accepts value := by
    rw [raisesOnly_iff_returns raises_sign,exists_sign,and_iff_right (canSign_hmac _ _)]
  unfold verify
  split
  · rename_i hk
    exact iff_of_true raisesOnly_ok fun h => absurd h hk
  · rename_i hk
    have hk' : kid = keyId := not_not.mp hk
    dsimp only
    rw [forall_prop_of_true hk',raisesOnly_bind,hsign]
    apply and_congr_right
    intro hv
    obtain ⟨expected,hexp⟩ := exists_sign.mpr ⟨canSign_hmac key keyId,hv⟩
    simp only [refuses_compareDigest]
    exact ⟨fun h => (h expected hexp).2,fun h s hs => ⟨(isHex_of_sign hs).isAscii,h⟩⟩

theorem refuses_verify_ed25519 {keyId : PyStr} {privateKey : Option Bytes} {publicKey : Bytes} :
    RaisesOnly Exn.IsRefusal ((ed25519 keyId privateKey publicKey).verify pf value signature kid) := by
  unfold verify
  split
  · exact raisesOnly_ok
  · dsimp only
    split <;> exact raisesOnly_ok

/-- What some authenticator signed is checked by every other without an exception. -/
theorem refuses_verify_signed {b : Authenticator} (h : b.sign pf value = .ok signature) :
    RaisesOnly Exn.IsRefusal (a.verify pf value signature kid) := by
  cases a with
  | hmac => exact refuses_verify_hmac.mpr fun _ => ⟨(exists_sign.mp ⟨_,h⟩).2,(isHex_of_sign h).isAscii⟩
  | ed25519 => exact refuses_verify_ed25519

theorem verify_hmac_eq_true {key : Bytes} {keyId : PyStr} :
    (hmac key keyId).verify pf value signature kid = .ok true ↔
      kid = keyId ∧ (hmac key keyId).sign pf value = .ok signature := by
  constructor
  · intro h
    obtain ⟨hk,_⟩ := verify_eq_true h
    simp only [verify,hk,ne_eq,not_true,if_false,bind_eq_ok,compareDigest,pure_eq_ok,decide_eq_true_eq] at h
    obtain ⟨expected,hexp,_,_,rfl⟩ := h
    exact ⟨hk,hexp⟩
  · rintro ⟨rfl,h⟩
    exact verify_sign (fun _ hk => Option.some.inj hk ▸ rfl) h

/-- A signature that is not the right one is turned down as soon as it can be compared. -/
theorem verify_hmac_eq_false {key : Bytes} {keyId : PyStr} (hne : (hmac key keyId).sign pf value ≠ .ok signature) :
    (hmac key keyId).verify pf value signature kid = .ok false ↔
      kid ≠ keyId ∨ pf.Accepts value ∧ signature.IsAscii := by
  have hraises : RaisesOnly (¬ Exn.IsRefusal ·) ((hmac key keyId).verify pf value signature kid) := by
    unfold verify
    split <;> simp [compareDigest,raises_sign]
  rw [← imp_iff_not_or,← refuses_verify_hmac,raisesOnly_iff_returns hraises]
  constructor
  · exact fun h => ⟨false,h⟩
  · rintro ⟨_ | _,h⟩
    · exact h
    · exact absurd (verify_hmac_eq_true.mp h).2 hne

theorem compareDigest_eq_error {s t : PyStr} (h : ¬ t.IsAscii) : compareDigest s t = .error .notAscii := by
  have hbad : ¬ ∀ c ∈ s ++ t, c.val < 128 := fun h' => h fun c hc => h' c (List.mem_append_right _ hc)
  unfold compareDigest failIf
  rw [if_pos hbad]
  exact error_bind _ _

theorem verify_hmac_eq_error {key : Bytes} {keyId : PyStr} (hv : pf.Accepts value) (ha : ¬ signature.IsAscii) :
    (hmac key keyId).verify pf value signature keyId = .error .notAscii := by
  obtain ⟨expected,hexp⟩ := exists_sign.mpr ⟨canSign_hmac key keyId,hv⟩
  have hk : ¬ keyId ≠ (hmac key keyId).keyId := not_not.mpr rfl
  unfold verify
  rw [if_neg hk]
  dsimp only
  rw [hexp,ok_bind]
  exact compareDigest_eq_error ha

end Authenticator

theorem ConsumptionStore.refuses_claim {store : ConsumptionStore} {capabilityId sinkId boundaryId nonce : PyStr}
    {nowNs : Int} : RaisesOnly Exn.IsRefusal (store.claim capabilityId sinkId boundaryId nonce nowNs) := by
  unfold ConsumptionStore.claim
  split <;> simp

/-! The fields of a capability and of a presentation proof are strings of Unicode scalar values;
the signatures may be any strings. -/

structure Capability.IsText (cap : Capability) : Prop where
  capabilityId : cap.capabilityId.IsText
  authorityId : cap.authorityId.IsText
  candidateDigest : cap.candidateDigest.IsText
  descriptorDigest : cap.descriptorDigest.IsText
  sinkId : cap.sinkId.IsText
  boundaryId : cap.boundaryId.IsText
  nonce : cap.nonce.IsText
  scope : ∀ x ∈ cap.scope, x.IsText
  evidenceId : cap.evidenceId.IsText
  transitionId : cap.transitionId.IsText
  keyId : cap.keyId.IsText

structure PresentationProof.IsText (p : PresentationProof) : Prop where
  capabilityId : p.capabilityId.IsText
  candidateDigest : p.candidateDigest.IsText
  sinkId : p.sinkId.IsText
  boundaryId : p.boundaryId.IsText
  nonce : p.nonce.IsText
  presenterKeyId : p.presenterKeyId.IsText

theorem Capability.IsText.accepts_iff (hnfc : pf.nfc.FixesAscii) {cap : Capability} (h : cap.IsText) :
    pf.Accepts cap.unsigned ↔
      pf.Prints cap.policyEpoch ∧ pf.Prints cap.issuedAtNs ∧ pf.Prints cap.expiresAtNs := by
  obtain ⟨h1,h2,h3,h4,h5,h6,h7,h8,h9,h10,h11⟩ := h
  rw [Capability.accepts_iff hnfc,accepts_fields hnfc cap.literalKeys.tail]
  simp only [Capability.core,List.forall_mem_cons,accepts_text,accepts_int,accepts_strs]
  simp only [PyStr.IsText] at *
  simp [*]
  exact fun _ _ _ => h8

theorem PresentationProof.IsText.accepts_iff (hnfc : pf.nfc.FixesAscii) {p : PresentationProof} (h : p.IsText) :
    pf.Accepts p.unsigned ↔ pf.Prints p.presentedAtNs := by
  have hkeys : PyVal.LiteralKeys (KeyedEntries.keys p.fields) := by
    simp only [KeyedEntries.keys,PresentationProof.fields,List.map_cons,List.map_nil]
    decide
  obtain ⟨h1,h2,h3,h4,h5,h6⟩ := h
  rw [PresentationProof.unsigned,accepts_fields hnfc hkeys]
  simp only [PresentationProof.fields,List.forall_mem_cons,accepts_text,accepts_int]
  simp only [PyStr.IsText] at *
  simp [*]

theorem PresenterVerifierRegistry.refuses_verify {r : PresenterVerifierRegistry} {p : PresentationProof} :
    RaisesOnly Exn.IsRefusal (r.verify pf p) ↔
      ∀ key, r.verifiers p.presenterKeyId = some (.hmac key p.presenterKeyId) →
        pf.Accepts p.unsigned ∧ p.signature.IsAscii := by
  unfold PresenterVerifierRegistry.verify
  split
  · simp [*]
  · rename_i v hv
    rw [hv]
    cases v with
    | hmac key keyId =>
      rw [Authenticator.refuses_verify_hmac]
      constructor
      · rintro h _ ⟨⟩
        exact h rfl
      · rintro h rfl
        exact h key rfl
    | ed25519 => exact iff_of_true Authenticator.refuses_verify_ed25519 fun _ h => nomatch h

namespace FinalitySink
variable {s : FinalitySink} {evidenceStore : EvidenceStore} {protectedState : ProtectedState}
  {consumption : ConsumptionStore} {effector : GuardedEffector} {candidate : CandidateAct} {cap : Capability}
  {now : Int} {proof : Option PresentationProof}

/-- Everything that `verify` checks before the signature of the capability. -/
structure Bound (s : FinalitySink) (candidate : CandidateAct) (cap : Capability) (now : Int) : Prop where
  status : candidate.status = .nonEffective
  effectClass : candidate.effectClass = s.context.effectClass
  candidateSink : candidate.sinkId = s.context.sinkId
  capSink : cap.sinkId = s.context.sinkId
  candidateBoundary : candidate.boundaryId = s.context.boundaryId
  capBoundary : cap.boundaryId = s.context.boundaryId
  candidateEpoch : candidate.policyEpoch = s.context.policyEpoch
  capEpoch : cap.policyEpoch = s.context.policyEpoch
  scope : candidate.scope = cap.scope
  supported : ∀ x ∈ cap.scope, x ∈ s.context.supportedScopes
  nonce : cap.nonce = candidate.nonce
  issued : cap.issuedAtNs - s.maxClockSkewNs ≤ now
  expires : now ≤ cap.expiresAtNs
  outlives : cap.expiresAtNs ≤ candidate.issuedAtNs + candidate.freshnessNs

/-- Everything that `verify` checks of a presentation proof before its signature. -/
structure ProofBound (pf : Platform) (s : FinalitySink) (candidate : CandidateAct) (cap : Capability)
    (now : Int) (p : PresentationProof) : Prop where
  presenter : candidate.presenterKeyId? = some p.presenterKeyId
  capabilityId : p.capabilityId = cap.capabilityId
  candidateDigest : candidate.digest pf = .ok p.candidateDigest
  sinkId : p.sinkId = s.context.sinkId
  boundaryId : p.boundaryId = s.context.boundaryId
  nonce : p.nonce = candidate.nonce
  fresh : |now - p.presentedAtNs| ≤ s.presentationFreshnessNs

/-- The signature that `sign` makes for the capability -/
def Signed (pf : Platform) (s : FinalitySink) (cap : Capability) : Prop :=
  cap.keyId = s.authenticator.keyId ∧ s.authenticator.sign pf cap.unsigned = .ok cap.signature

@[simp] theorem refuses_failUnless {good : Prop} [Decidable good] {message : String} :
    RaisesOnly Exn.IsRefusal (failUnless good message) := by
  simp [failUnless]

/-- Under `require_presentation_proof`, what can escape is the exception of the check of a
proof that passes every other check. -/
theorem refuses_verifyPresentation (hnfc : pf.nfc.FixesAscii) (hc : pf.Accepts candidate.value)
    (hp : ∀ p, proof = some p → p.IsText) :
    RaisesOnly Exn.IsRefusal (s.verifyPresentation pf candidate cap now proof) ↔
      ∀ p registry, s.requirePresentationProof = true → proof = some p → s.presenterVerifier = some registry →
        ProofBound pf s candidate cap now p →
        ∀ key, registry.verifiers p.presenterKeyId = some (.hmac key p.presenterKeyId) →
          pf.Prints p.presentedAtNs ∧ p.signature.IsAscii := by
  unfold verifyPresentation
  split
  · rename_i hreq
    split
    · rename_i p registry hr
      have hdigest : RaisesOnly Exn.IsRefusal (candidate.digest pf) := refuses_sha256Hex.mpr hc
      simp only [raisesOnly_bind,refuses_failUnless,failUnless_eq_ok,hdigest,PresenterVerifierRegistry.refuses_verify,
        (hp p rfl).accepts_iff hnfc,forall_const,true_and,and_true,implies_true]
      constructor
      · rintro h _ _ - ⟨⟩ hr' hb
        cases hr.symm.trans hr'
        exact h hb.presenter hb.capabilityId _ hb.candidateDigest rfl ⟨hb.sinkId,hb.boundaryId⟩ hb.nonce hb.fresh
      · rintro h h1 h2 _ h3 rfl ⟨h4,h5⟩ h6 h7
        exact h p registry hreq rfl hr ⟨h1,h2,h3,h4,h5,h6,h7⟩
    · rename_i hno
      refine iff_of_true (by simp) fun p registry _ hp' hr => absurd hr (hno p registry hp')
  · rename_i hreq
    exact iff_of_true raisesOnly_ok fun _ _ h => absurd h hreq

/-- Evidence that an authenticator signed is checked without an exception. -/
theorem refuses_verifyEvidence (h : ∀ e, evidenceStore.records cap.evidenceId = some e →
    ∃ b : Authenticator, b.sign pf e.unsigned = .ok e.signature) :
    RaisesOnly Exn.IsRefusal (s.verifyEvidence pf evidenceStore cap) := by
  unfold verifyEvidence
  split
  · simp
  · rename_i e he
    obtain ⟨b,hb⟩ := h e he
    simp [Authenticator.refuses_verify_signed hb]

/-- The descriptor that a sink rebuilds for an act bound to it is digested. -/
theorem accepts_localDescriptor (hnfc : pf.nfc.FixesAscii) (hc : pf.Accepts candidate.value)
    (hb : Bound s candidate cap now) : ∃ d, buildHcad pf candidate (some s.context.sinkId) (some s.context.boundaryId) =
      .ok d ∧ pf.Accepts (.fields .dataclass d.fields) := by
  obtain ⟨_,_,_,_,_,_,_,_,_,_,_,hsink,hboundary,_⟩ := (CandidateAct.accepts_iff hnfc).mp hc
  rw [hb.candidateSink] at hsink
  rw [hb.candidateBoundary] at hboundary
  exact HCAD.accepts hnfc hc _ _ (fun _ h => Option.some.inj h ▸ hsink) (fun _ h => Option.some.inj h ▸ hboundary)

theorem refuses_verify {key : Bytes} {keyId : PyStr} (hs : s.authenticator = .hmac key keyId)
    (hnfc : pf.nfc.FixesAscii) (hc : pf.Accepts candidate.value) (hcap : cap.IsText)
    (he : ∀ e, evidenceStore.records cap.evidenceId = some e →
      ∃ b : Authenticator, b.sign pf e.unsigned = .ok e.signature) :
    RaisesOnly Exn.IsRefusal (s.verify pf evidenceStore protectedState candidate cap now proof) ↔
      (Bound s candidate cap now → cap.keyId = s.authenticator.keyId →
        pf.Prints cap.issuedAtNs ∧ pf.Prints cap.expiresAtNs ∧ cap.signature.IsAscii) ∧
      (Bound s candidate cap now → Signed pf s cap →
        RaisesOnly Exn.IsRefusal (s.verifyPresentation pf candidate cap now proof)) := by
  have hsign (hb : Bound s candidate cap now) :
      RaisesOnly Exn.IsRefusal (s.authenticator.verify pf cap.unsigned cap.signature cap.keyId) ↔
        (cap.keyId = s.authenticator.keyId →
          pf.Prints cap.issuedAtNs ∧ pf.Prints cap.expiresAtNs ∧ cap.signature.IsAscii) := by
    obtain ⟨_,_,_,_,_,_,_,hepoch,_⟩ := (CandidateAct.accepts_iff hnfc).mp hc
    rw [hb.candidateEpoch,← hb.capEpoch] at hepoch
    rw [hs,Authenticator.refuses_verify_hmac,hcap.accepts_iff hnfc]
    simp only [hepoch,true_and,and_assoc]
    rfl
  have hsigned : s.authenticator.verify pf cap.unsigned cap.signature cap.keyId = .ok true ↔ Signed pf s cap := by
    rw [Signed,hs]
    exact Authenticator.verify_hmac_eq_true
  have hdigest : RaisesOnly Exn.IsRefusal (candidate.digest pf) := refuses_sha256Hex.mpr hc
  simp only [verify,raisesOnly_bind,refuses_failUnless,failUnless_eq_ok,hdigest,refuses_verifyEvidence he,
    forall_const,true_and]
  constructor
  · intro h
    have h' (hb : Bound s candidate cap now) := h hb.status hb.effectClass ⟨hb.candidateSink,hb.capSink⟩
      ⟨hb.candidateBoundary,hb.capBoundary⟩ ⟨hb.candidateEpoch,hb.capEpoch⟩ hb.scope hb.supported hb.nonce hb.issued
      hb.expires hb.outlives
    exact ⟨fun hb => (hsign hb).mp (h' hb).1,fun hb hv => ((h' hb).2 true (hsigned.mpr hv) rfl).1⟩
  · rintro ⟨hcheck,hpresent⟩ h1 h2 ⟨h3,h4⟩ ⟨h5,h6⟩ ⟨h7,h8⟩ h9 h10 h11 h12 h13 h14
    have hb : Bound s candidate cap now := ⟨h1,h2,h3,h4,h5,h6,h7,h8,h9,h10,h11,h12,h13,h14⟩
    refine ⟨(hsign hb).mpr (hcheck hb),?_⟩
    rintro _ hv rfl
    -- Past the presentation everything is digested from the candidate.
    obtain ⟨d,hd,hacc⟩ := accepts_localDescriptor hnfc hc hb
    have hlocal : RaisesOnly Exn.IsRefusal (d.digest pf) := refuses_sha256Hex.mpr hacc
    simp [hpresent hb (hsigned.mp hv),hd,hlocal]

theorem raises_receipt {d : PyStr} {record : EffectRecord} :
    RaisesOnly (¬ Exn.IsRefusal ·) (s.receipt pf candidate cap d record now) := by
  simp [receipt,CandidateAct.digest,raises_sha256Hex,Authenticator.raises_sign]

/-- The call prints no integer beyond the digit limit and compares no string beyond ASCII. -/
structure Checkable (pf : Platform) (s : FinalitySink) (evidenceStore : EvidenceStore)
    (protectedState : ProtectedState) (consumption : ConsumptionStore) (effector : GuardedEffector)
    (candidate : CandidateAct) (cap : Capability) (now : Int) (proof : Option PresentationProof) : Prop where
  capability : Bound s candidate cap now → cap.keyId = s.authenticator.keyId →
    pf.Prints cap.issuedAtNs ∧ pf.Prints cap.expiresAtNs ∧ cap.signature.IsAscii
  presentation : Bound s candidate cap now → Signed pf s cap → ∀ p registry, s.requirePresentationProof = true →
    proof = some p → s.presenterVerifier = some registry → ProofBound pf s candidate cap now p →
    ∀ key, registry.verifiers p.presenterKeyId = some (.hmac key p.presenterKeyId) →
      pf.Prints p.presentedAtNs ∧ p.signature.IsAscii
  receipt : (∃ record, Commits pf s evidenceStore protectedState consumption effector candidate cap now proof record) →
    ReceiptReady pf s now

/-- Past `verify` only the receipt can raise what is no refusal. -/
theorem refuses_effectuate (hnfc : pf.nfc.FixesAscii) : RaisesOnly Exn.IsRefusal
      (s.effectuate pf evidenceStore protectedState consumption effector candidate cap now proof).1 ↔
    RaisesOnly Exn.IsRefusal (s.verify pf evidenceStore protectedState candidate cap now proof) ∧
      ((∃ record, Commits pf s evidenceStore protectedState consumption effector candidate cap now proof record) →
        ReceiptReady pf s now) := by
  cases hv : s.verify pf evidenceStore protectedState candidate cap now proof with
  | error e =>
    simp only [effectuate,hv,raisesOnly_error]
    refine (and_iff_left ?_).symm
    rintro ⟨_,h⟩
    cases hv.symm.trans (verify_eq_ok.mpr ⟨h.verified,rfl⟩)
  | ok d =>
    obtain ⟨hverified,rfl⟩ := verify_eq_ok.mp hv
    rw [and_iff_right raisesOnly_ok]
    cases hclaim : consumption.claim cap.capabilityId s.context.sinkId s.context.boundaryId cap.nonce now with
    | error e =>
      simp only [effectuate,hv,hclaim,raisesOnly_error]
      refine iff_of_true (ConsumptionStore.refuses_claim e hclaim) ?_
      rintro ⟨_,h⟩
      cases hclaim.symm.trans (ConsumptionStore.claim_eq_ok.mpr ⟨h.unclaimed,rfl⟩)
    | ok consumption' =>
      rcases hcommit : effector.commit pf candidate s.marker with ⟨exn | record,effector'⟩
      · simp only [effectuate,hv,hclaim,hcommit,raisesOnly_error]
        refine iff_of_true trivial ?_
        rintro ⟨_,h⟩
        cases hcommit.symm.trans (GuardedEffector.commit_ok.mpr ⟨h.marker,h.working,h.record,rfl⟩)
      · obtain ⟨hm,hf,hr,rfl⟩ := GuardedEffector.commit_ok.mp hcommit
        have hc : Commits pf s evidenceStore protectedState consumption effector candidate cap now proof record :=
          ⟨hverified,(ConsumptionStore.claim_eq_ok.mp hclaim).1,hm,hf,hr⟩
        rw [hc.effectuate_eq,raisesOnly_iff_returns raises_receipt,hc.exists_receipt_iff hnfc]
        exact ⟨fun h _ => h,fun h => h ⟨record,hc⟩⟩

end FinalitySink

/-- Evidence in the store was signed by the authority. -/
theorem AuthorizingMatch.signed {D : Deployment} {s : System} (h : AuthorizingMatch D s) {i : PyStr}
    {e : ValidationEvidence} (he : s.evidence.records i = some e) :
    D.authority.authenticator.sign D.pf e.unsigned = .ok e.signature := by
  obtain ⟨_,k,hk⟩ := h.known i e he
  cases hphase : s.authorizing k with
  | evidenced c now d t e' =>
    rw [hphase] at hk
    cases hk
    exact (h.evidenced k c now d t e hphase).signature
  | returned c e' cap =>
    rw [hphase] at hk
    cases hk
    obtain ⟨d,t,now,he,_⟩ := h.returned k c e cap hphase
    exact he.signature
  | _ =>
    rw [hphase] at hk
    cases hk

open FinalitySink (Checkable)

/-- In every reachable state a call of `effectuate` returns or refuses exactly when it is
checkable, and `verify` turns a wrong signature down exactly when it can compare it. -/
theorem effectuate_refuses_iff {D : Deployment} {allowed : System → Action → Prop} {s : System}
    (hnfc : D.pf.nfc.FixesAscii) (hreach : Machine.Reaches D.machine allowed s) {i : Nat} {key : Bytes} {keyId : PyStr}
    (hs : (D.sinks i).authenticator = .hmac key keyId) {candidate : CandidateAct} (hc : D.pf.Accepts candidate.value)
    {cap : Capability} (hcap : cap.IsText) {now : Int} {proof : Option PresentationProof}
    (hp : ∀ p, proof = some p → p.IsText) {value : PyVal} {signature kid : PyStr}
    (hne : (D.sinks i).authenticator.sign D.pf value ≠ .ok signature) :
    (RaisesOnly Exn.IsRefusal ((D.sinks i).effectuate D.pf s.evidence s.state s.consumption
        (s.effectors (D.boundTo i)) candidate cap now proof).1 ↔
      Checkable D.pf (D.sinks i) s.evidence s.state s.consumption (s.effectors (D.boundTo i)) candidate cap now
        proof) ∧
    ((D.sinks i).authenticator.verify D.pf value signature kid = .ok false ↔
      kid ≠ keyId ∨ D.pf.Accepts value ∧ signature.IsAscii) := by
  have hmatch : AuthorizingMatch D s := hreach.invariant authorizingMatch_preserved
  constructor
  · rw [FinalitySink.refuses_effectuate hnfc,FinalitySink.refuses_verify hs hnfc hc hcap
      fun e he => ⟨_,hmatch.signed he⟩,FinalitySink.refuses_verifyPresentation hnfc hc hp]
    exact ⟨fun ⟨⟨h1,h2⟩,h3⟩ => ⟨h1,h2,h3⟩,fun ⟨h1,h2,h3⟩ => ⟨⟨h1,h2⟩,h3⟩⟩
  · rw [hs] at hne ⊢
    exact Authenticator.verify_hmac_eq_false hne

/-! A closed instance: the sample system with one HMAC key. -/

def sampleHmac : Authenticator := .hmac [1] (py "authority-key")

def hmacDeployment : Deployment where
  pf := samplePlatform
  authority := { sampleAuthority with authenticator := sampleHmac }
  sinks _ := sampleSink sampleHmac none false
  boundTo _ := 0
  presenters _ := samplePresenter

/-- A capability for the sample act, with some signature. -/
def sampleCap (signature : PyStr) : Capability where
  capabilityId := py "capability"
  authorityId := py "authority"
  candidateDigest := py "candidate"
  descriptorDigest := py "descriptor"
  sinkId := py "sink"
  boundaryId := py "boundary"
  nonce := py "n"
  scope := [py "pay"]
  policyEpoch := 7
  evidenceId := py "evidence"
  transitionId := py "transition"
  issuedAtNs := 200
  expiresAtNs := 1000
  keyId := py "authority-key"
  signature := signature

theorem sampleCap_isText (signature : PyStr) : (sampleCap signature).IsText where
  capabilityId := py_isText _
  authorityId := py_isText _
  candidateDigest := py_isText _
  descriptorDigest := py_isText _
  sinkId := py_isText _
  boundaryId := py_isText _
  nonce := py_isText _
  scope _ hx := List.mem_singleton.mp hx ▸ py_isText _
  evidenceId := py_isText _
  transitionId := py_isText _
  keyId := py_isText _

theorem sampleCap_bound (signature : PyStr) : FinalitySink.Bound (sampleSink sampleHmac none false)
    (sampleAct (py "n") .none) (sampleCap signature) 300 where
  status := rfl
  effectClass := rfl
  candidateSink := rfl
  capSink := rfl
  candidateBoundary := rfl
  capBoundary := rfl
  candidateEpoch := rfl
  capEpoch := rfl
  scope := rfl
  supported _ hx := Finset.mem_singleton.mpr (List.mem_singleton.mp hx)
  nonce := rfl
  issued := (show (200 : Int) - 1000000000 ≤ 300 by decide)
  expires := (show (300 : Int) ≤ 1000 by decide)
  outlives := (show (1000 : Int) ≤ 100 + 1000 by decide)

theorem effectuate_refuses_sample :
    (RaisesOnly Exn.IsRefusal ((sampleSink sampleHmac none false).effectuate samplePlatform sampleSystem.evidence
        sampleSystem.state {} sampleEffector (sampleAct (py "n") .none) (sampleCap (py "00")) 300 none).1 ↔
      Checkable samplePlatform (sampleSink sampleHmac none false) sampleSystem.evidence sampleSystem.state {}
        sampleEffector (sampleAct (py "n") .none) (sampleCap (py "00")) 300 none) ∧
    (sampleHmac.verify samplePlatform .none (py "00") (py "authority-key") = .ok false ↔
      py "authority-key" ≠ py "authority-key" ∨ samplePlatform.Accepts .none ∧ (py "00").IsAscii) :=
  have h0 : Machine.Reaches hmacDeployment.machine (fun _ _ => True) sampleSystem := .init sampleSystem_initial
  effectuate_refuses_iff sampleNfc_fixesAscii h0 (i := 0) rfl (sampleAct_accepted _ _ (py_isText _) ⟨_,rfl⟩)
    (sampleCap_isText _) (by rintro _ ⟨⟩) (by decide)

/-- With a signature of one letter beyond ASCII. -/
theorem effectuate_refuses_counterexample : Machine.Reaches hmacDeployment.machine (fun _ _ => True) sampleSystem ∧
    samplePlatform.Accepts (sampleAct (py "n") .none).value ∧ (sampleCap (py "é")).IsText ∧
    ¬ RaisesOnly Exn.IsRefusal ((sampleSink sampleHmac none false).effectuate samplePlatform sampleSystem.evidence
      sampleSystem.state {} sampleEffector (sampleAct (py "n") .none) (sampleCap (py "é")) 300 none).1 ∧
    sampleHmac.sign samplePlatform .none ≠ .ok (py "é") ∧
    sampleHmac.verify samplePlatform .none (py "é") (py "authority-key") = .error .notAscii := by
  have ha : ¬ (py "é").IsAscii := by decide
  have hc := sampleAct_accepted (py "n") .none (py_isText _) ⟨_,rfl⟩
  refine ⟨.init sampleSystem_initial,hc,sampleCap_isText _,?_,fun h => ha (Authenticator.isHex_of_sign h).isAscii,
    Authenticator.verify_hmac_eq_error ⟨_,rfl⟩ ha⟩
  rw [FinalitySink.refuses_effectuate sampleNfc_fixesAscii,FinalitySink.refuses_verify rfl sampleNfc_fixesAscii hc
    (sampleCap_isText _) (by rintro _ ⟨⟩)]
  rintro ⟨⟨h,-⟩,-⟩
  exact ha (h (sampleCap_bound _) rfl).2.2

end ExecutionFinality
