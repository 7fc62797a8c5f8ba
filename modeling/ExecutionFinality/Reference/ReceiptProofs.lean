import ExecutionFinality.Reference.SignedForms
import ExecutionFinality.Reference.SingleUse

/-! A receipt that verifies stands for one effect: it was signed by a call that had claimed its
capability and committed its record. -/
namespace ExecutionFinality
open Function (update)
open Platform

variable {D : Deployment} {allowed : System → Action → Prop} {s s' : System}

/-- The effects of different calls are different records. -/
def EffectsDistinct (D : Deployment) (s : System) : Prop :=
  ∀ j k x y r r' i, (s.effectuating j).effect? = some (x,r,i) → (s.effectuating k).effect? = some (y,r',i) →
    D.boundTo x.sink = D.boundTo y.sink → j = k

theorem effectsDistinct_preserved : Machine.Preserved D.machine allowed (EffectsDistinct D) where
  init s h := fun j k _ _ _ _ _ hj => by simp [h.effectuating,Effectuating.effect?] at hj
  step := by
    intro s a s' hr h _ hs j k x y r r' i hj hk he
    -- A new record comes after all that its effector holds.
    have new {j : Nat} {x y : EffectuateArgs} {r : EffectRecord}
        (hj : (s.effectuating j).effect? = some (x,r,(s.effectors (D.boundTo y.sink)).records.length)) :
        D.boundTo x.sink ≠ D.boundTo y.sink := by
      intro he
      have hold := (hr.invariant recordsMatch_preserved).recorded j x r _ hj
      rw [he,List.getElem?_eq_none (le_refl _)] at hold
      cases hold
    rcases hs.effect?_cases hj with hj | ⟨rfl,hi,_,_⟩ <;> rcases hs.effect?_cases hk with hk | ⟨hjk,hi',_,_⟩
    · exact h j k x y r r' i hj hk he
    · exact absurd he (new (hi' ▸ hj))
    · exact absurd he.symm (new (hi ▸ hk))
    · cases hjk
      rfl

/-- Every signed receipt was made by a call that has returned, for its record. -/
def ReceiptsMade (D : Deployment) (s : System) : Prop :=
  ∀ key r, (key,.receipt r) ∈ s.signed → ∃ k x record i, s.effectuating k = .returned x record i ∧
    (D.sinks x.sink).receiptAuthenticator.signKey D.pf = some key ∧
    FinalitySink.ReceiptFor D.pf (D.sinks x.sink) x.candidate x.cap x.cap.descriptorDigest record x.now r

theorem receiptsMade_preserved (hno : ∀ s a, allowed s a → NotResigned a) :
    Machine.Preserved D.machine allowed (ReceiptsMade D) where
  init s h := fun _ _ hm => by simp [h.signed] at hm
  step := by
    intro s a s' hreach h ha hs key r hm
    rcases hs.signed_cases hm with hm | ⟨k,x,d,record,i,hk,hk',hkey,hr⟩ | ⟨_,rfl⟩
    · obtain ⟨k,x,record,i,hk,hr⟩ := h key r hm
      exact ⟨k,x,record,i,hs.effectuating_returned hk,hr⟩
    · have hd := hreach.invariant descriptorsMatch_preserved k x d (by rw [hk]; rfl)
      exact ⟨k,x,record,i,hk',hkey,FinalitySink.receipt_eq_ok.mp (hd ▸ hr)⟩
    · exact (hno _ _ ha).elim

/-- Only a receipt has the encoding of a receipt. -/
theorem Artifact.eq_receipt {pf : Platform} {m : Artifact} {r : SinkReceipt}
    (h : pf.SameNormal m.unsigned r.unsigned) : ∃ r', m = .receipt r' := by
  cases m with
  | receipt r' => exact ⟨r',rfl⟩
  | evidence e => exact absurd h.length (by simp [ValidationEvidence.core,SinkReceipt.core])
  | capability cap => exact absurd h.length (by simp [Capability.core,SinkReceipt.core])
  | proof p => exact absurd h.length (by simp [PresentationProof.fields,SinkReceipt.core])

/-- The receipt of a call is determined up to its signature. -/
theorem FinalitySink.ReceiptFor.unsigned_eq {pf : Platform} {sink : FinalitySink} {c : CandidateAct}
    {cap : Capability} {d : PyStr} {record : EffectRecord} {now : Int} {r r' : SinkReceipt}
    (h : FinalitySink.ReceiptFor pf sink c cap d record now r)
    (h' : FinalitySink.ReceiptFor pf sink c cap d record now r') : r.unsigned = r'.unsigned := by
  have hdigest : r.candidateDigest = r'.candidateDigest := Except.ok.inj (h.candidateDigest.symm.trans h'.candidateDigest)
  have hcore : r.core = r'.core := by
    simp only [SinkReceipt.core,h.capabilityId,h'.capabilityId,hdigest,h.descriptorDigest,h'.descriptorDigest,
      h.sinkId,h'.sinkId,h.boundaryId,h'.boundaryId,h.transitionId,h'.transitionId,h.scope,h'.scope,
      h.effectStatus,h'.effectStatus,h.committedAtNs,h'.committedAtNs,h.effectReference,h'.effectReference,
      h.keyId,h'.keyId]
  have hid : r.receiptId = r'.receiptId := Except.ok.inj (h.receiptId.symm.trans (hcore ▸ h'.receiptId))
  rw [SinkReceipt.unsigned,SinkReceipt.unsigned,hcore,hid]

/-- The call `k` has returned a receipt that reads, up to NFC, as `r` does. -/
structure ReceiptOf (D : Deployment) (s : System) (key : VerKey) (r : SinkReceipt) (k : Nat) (x : EffectuateArgs)
    (record : EffectRecord) (i : Nat) : Prop where
  returned : s.effectuating k = .returned x record i
  signKey : (D.sinks x.sink).receiptAuthenticator.signKey D.pf = some key
  made : ∃ r', FinalitySink.ReceiptFor D.pf (D.sinks x.sink) x.candidate x.cap x.cap.descriptorDigest record x.now r' ∧
    D.pf.SameNormal r'.unsigned r.unsigned

namespace ReceiptOf
variable {key key' : VerKey} {r r' : SinkReceipt} {j k : Nat} {x y : EffectuateArgs} {record record' : EffectRecord}
  {i i' : Nat}

theorem effect (h : ReceiptOf D s key r k x record i) : (s.effectuating k).effect? = some (x,record,i) := by
  rw [h.returned]
  rfl

theorem claim (h : ReceiptOf D s key r k x record i) : (s.effectuating k).claim? = some x := by
  rw [h.returned]
  rfl

theorem exists_of_signedBefore (hmade : ReceiptsMade D s) (hsigned : SignedBefore D s key r.unsigned) :
    ∃ k x record i, ReceiptOf D s key r k x record i := by
  obtain ⟨m,b,hm,hmb,hrb⟩ := hsigned
  have hn := sameNormal_of_canonicalBytes hmb hrb
  obtain ⟨r',rfl⟩ := Artifact.eq_receipt hn
  obtain ⟨k,x,record,i,hk,hkey,hr⟩ := hmade _ _ hm
  exact ⟨k,x,record,i,hk,hkey,r',hr,hn⟩

theorem candidateDigest (hm : RecordsFor D s) (h : ReceiptOf D s key r k x record i) :
    SameText D.pf.nfc r.candidateDigest record.candidateDigest := by
  obtain ⟨r',hr,hn⟩ := h.made
  have hd : r'.candidateDigest = record.candidateDigest :=
    Except.ok.inj (hr.candidateDigest.symm.trans (hm _ _ _ _ h.effect).1)
  rw [← hd]
  exact hn.symm.text "candidate_digest" (by simp [SinkReceipt.core]) (by simp [SinkReceipt.core])

theorem effectReference (h : ReceiptOf D s key r k x record i) :
    ∃ ref, r.effectReference = some ref ∧ SameText D.pf.nfc ref record.effectReference := by
  obtain ⟨r',hr,hn⟩ := h.made
  have hv := hn.symm.value "effect_reference" (v := r.effectReference.elim .none .str)
    (w := .str record.effectReference) (by simp [SinkReceipt.core]) (by simp [SinkReceipt.core,hr.effectReference])
  cases hr : r.effectReference with
  | none =>
    rw [hr] at hv
    obtain ⟨_,hnone,htext⟩ := hv
    cases PyVal.normal_iff.mpr hnone
    cases PyVal.normal_iff.mpr htext
  | some ref =>
    rw [hr] at hv
    exact ⟨ref,rfl,sameNormal_text.mp hv⟩

/-- An issued capability has a hexadecimal identifier, so the receipt carries it as it is. -/
theorem capabilityId (hrigid : D.pf.nfc.HexRigid) (hm : AuthorizingMatch D s) (hi : CapabilitiesIssued D s)
    (h : ReceiptOf D s key r k x record i) : r.capabilityId = x.cap.capabilityId := by
  obtain ⟨j,c,e,cap,hj,hcap⟩ := hi k x (Effectuating.args?_of_claim? h.claim)
  obtain ⟨_,_,_,_,hfor⟩ := hm.returned _ _ _ _ hj
  have hid := CapabilitiesIssued.capabilityId hrigid hm hj hcap
  obtain ⟨r',hr,hn⟩ := h.made
  have ht := hn.symm.text "capability_id" (s := r.capabilityId) (t := x.cap.capabilityId)
    (by simp [SinkReceipt.core]) (by simp [SinkReceipt.core,hr.capabilityId])
  exact hrigid.eq_of_sameText (hid ▸ isHex_of_sha256Hex hfor.capabilityId) ht

/-- The receipts of one call agree. -/
theorem agree (h : ReceiptOf D s key r k x record i) (h' : ReceiptOf D s key' r' k y record' i') :
    Form.Agree D.pf (.receipt r) (.receipt r') := by
  cases h.returned.symm.trans h'.returned
  obtain ⟨m,hm,hn⟩ := h.made
  obtain ⟨m',hm',hn'⟩ := h'.made
  exact Form.agree_of_kind rfl (hn.symm.trans (hm.unsigned_eq hm' ▸ hn'))

end ReceiptOf

/-- Every receipt that verifies can be assigned an effect record, present in the effector of a sink
whose receipts are signed under the key it verifies under, with its candidate digest and its effect
reference, and its capability is claimed. Receipts for different capabilities get different records,
and receipts for one capability say the same. -/
theorem receipts_prove_effects (hcollision : D.pf.NoCollision) (hrigid : D.pf.nfc.HexRigid)
    (h : Machine.Reaches D.machine (fun s a => NotResigned a ∧ CapabilityUnforged D s a) s)
    {R : Set (Nat × SinkReceipt)}
    (hverified : ∀ p ∈ R, (D.sinks p.1).receiptAuthenticator.verify D.pf p.2.unsigned p.2.signature p.2.keyId = .ok true)
    (hunforged : ∀ p ∈ R,
      (D.sinks p.1).receiptAuthenticator.verify D.pf p.2.unsigned p.2.signature p.2.keyId = .ok true →
        SignedBefore D s (D.sinks p.1).receiptAuthenticator.verKey p.2.unsigned) :
    ∃ f : R → Nat × Nat,
      (∀ p : R, ∃ record, (s.effectors (f p).1).records[(f p).2]? = some record ∧
        (∃ j, D.boundTo j = (f p).1 ∧
          (D.sinks j).receiptAuthenticator.signKey D.pf = some (D.sinks p.1.1).receiptAuthenticator.verKey) ∧
        SameText D.pf.nfc p.1.2.candidateDigest record.candidateDigest ∧
        (∃ ref, p.1.2.effectReference = some ref ∧ SameText D.pf.nfc ref record.effectReference) ∧
        s.consumption.isClaimed p.1.2.capabilityId = true) ∧
      (∀ p q : R, p.1.2.capabilityId ≠ q.1.2.capabilityId → f p ≠ f q) ∧
      ∀ p q : R, p.1.2.capabilityId = q.1.2.capabilityId → Form.Agree D.pf (.receipt p.1.2) (.receipt q.1.2) := by
  have hno : ∀ s a, (NotResigned a ∧ CapabilityUnforged D s a) → NotResigned a := fun _ _ h => h.1
  have hgen : ∀ s a, (NotResigned a ∧ CapabilityUnforged D s a) → CapabilityUnforged D s a := fun _ _ h => h.2
  have hmade := h.invariant (receiptsMade_preserved hno)
  have hissued := h.invariant (capabilitiesIssued_preserved hno hgen)
  have hmatch := h.invariant authorizingMatch_preserved
  have receipt (p : R) : ∃ k x record i,
      ReceiptOf D s (D.sinks p.1.1).receiptAuthenticator.verKey p.1.2 k x record i :=
    ReceiptOf.exists_of_signedBefore hmade (hunforged p p.2 (hverified p p.2))
  choose k x record i hr using receipt
  have hid (p : R) : p.1.2.capabilityId = (x p).cap.capabilityId := (hr p).capabilityId hrigid hmatch hissued
  refine ⟨fun p => (D.boundTo (x p).sink,i p),fun p => ⟨record p,?_,⟨(x p).sink,rfl,(hr p).signKey⟩,?_,
    (hr p).effectReference,?_⟩,fun p q hne he => hne ?_,fun p q he => ?_⟩
  · exact (h.invariant recordsMatch_preserved).recorded _ _ _ _ (hr p).effect
  · exact (hr p).candidateDigest (h.invariant recordsFor_preserved)
  · rw [hid,ConsumptionStore.isClaimed,h.invariant claimsMatch_preserved _ _ (hr p).claim]
    rfl
  · obtain ⟨hsink,hi⟩ := Prod.mk.inj he
    -- One record is the effect of one call.
    have hk : k p = k q := h.invariant effectsDistinct_preserved _ _ _ _ _ _ _ (hr p).effect (hi ▸ (hr q).effect) hsink
    have hx := Effectuating.returned.inj ((hr p).returned.symm.trans (hk ▸ (hr q).returned))
    rw [hid,hid,hx.1]
  · -- One capability is claimed by one call.
    have hledger := (h.refine (ledger_refines hcollision hrigid hno hgen)).invariant TokenLedger.sound_preserved
    have hk : k p = k q := hledger.claimed_inj _ _ p.1.2.capabilityId
      (by simp [System.ledger,(hr p).claim,hid p]) (by simp [System.ledger,(hr q).claim,he,hid q])
    exact (hr p).agree (hk ▸ hr q)

theorem receipts_prove_effects_sample : ∃ (s : System) (r : SinkReceipt),
    Machine.Reaches sampleDeployment.machine
      (fun s a => NotResigned a ∧ CapabilityUnforged sampleDeployment s a) s ∧
    sampleAuthority.authenticator.verify samplePlatform r.unsigned r.signature r.keyId = .ok true ∧
    ∃ f : ({(0,r)} : Set (Nat × SinkReceipt)) → Nat × Nat, ∀ p, ∃ record,
      (s.effectors (f p).1).records[(f p).2]? = some record ∧
      SameText sampleNfc p.1.2.candidateDigest record.candidateDigest ∧
      s.consumption.isClaimed p.1.2.capabilityId = true := by
  obtain ⟨e,cap,state,store,record,hc,h⟩ := sample_reaches_unforged
  obtain ⟨r,hr⟩ := (hc.exists_receipt_iff sampleNfc_fixesAscii).mpr
    ⟨(by rintro _ _ ⟨⟩),py_isText _,prints_of_lt (by decide)⟩
  have hcommitted : (sampleEffective e cap state store record).effectuating 0 =
      .committed (sampleArgs cap) cap.descriptorDigest record 0 := System.afterCommit_effectuating
  have hstep := Step.receipt (D := sampleDeployment) hcommitted hr
  have hreach := h.step (a := Action.receipt 0) ⟨trivial,trivial⟩ hstep
  have hfor := FinalitySink.receipt_eq_ok.mp hr
  have hverify : sampleAuthority.authenticator.verify samplePlatform r.unsigned r.signature r.keyId = .ok true := by
    rw [hfor.keyId]
    exact Authenticator.verify_sign (Authenticator.signer_paired _ _) hfor.signature
  obtain ⟨_,b,_,hb⟩ := Authenticator.sign_eq_ok hfor.signature
  have hreceipts := receipts_prove_effects (D := sampleDeployment) (R := {(0,r)}) samplePlatform_noCollision
    sampleNfc_hexRigid hreach (by rintro p rfl; exact hverify)
    (by rintro p rfl -; exact ⟨.receipt r,b,List.mem_cons_self ..,hb,hb⟩)
  obtain ⟨f,hf,_,_⟩ := hreceipts
  refine ⟨_,r,hreach,hverify,f,fun p => ?_⟩
  obtain ⟨record,hrecord,_,hdigest,_,hclaimed⟩ := hf p
  exact ⟨record,hrecord,hdigest,hclaimed⟩

end ExecutionFinality
