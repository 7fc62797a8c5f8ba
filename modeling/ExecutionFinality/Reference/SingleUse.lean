import ExecutionFinality.Library.TokenLedger
import ExecutionFinality.Reference.SequentialRuns
import ExecutionFinality.Reference.SystemInvariants

/-! Every effect spends an authorization of its own: the system refines the ledger of
single-use tokens, with capability identifiers as tokens. -/
namespace ExecutionFinality
open FinalitySink (Commits)
open Function (update)
open Platform

theorem Nfc.HexRigid.eq_of_sameText {nfc : Nfc} (h : nfc.HexRigid) {s t : PyStr} (ht : IsHex t)
    (hst : SameText nfc s t) : s = t := by
  obtain ⟨b,rfl⟩ := ht
  obtain ⟨cs,ds,hcs,hds,he⟩ := hst
  cases (PyStr.scalars_ofChars _).symm.trans hds
  rw [(h _ b).mpr rfl] at he
  rw [PyStr.eq_ofChars_of_scalars hcs,(h _ b).mp he]

/-- A verification accepts only capabilities whose bytes were signed before. -/
def CapabilityUnforged (D : Deployment) (s : System) : Action → Prop
  | .verify _ x =>
    (D.sinks x.sink).authenticator.verify D.pf x.cap.unsigned x.cap.signature x.cap.keyId = .ok true →
      SignedBefore D s (D.sinks x.sink).authenticator.verKey x.cap.unsigned
  | _ => True

/-- Nothing is signed but by the steps of the repository. -/
def NotResigned : Action → Prop
  | .resign _ _ => False
  | _ => True

variable {D : Deployment} {allowed : System → Action → Prop} {s s' : System}

/-- Every signed capability was returned by a call of `authorize`. -/
def SignedIssued (s : System) : Prop :=
  ∀ key cap, (key,.capability cap) ∈ s.signed → ∃ k c e, s.authorizing k = .returned c e cap

theorem signedIssued_preserved (hno : ∀ s a, allowed s a → NotResigned a) :
    Machine.Preserved D.machine allowed SignedIssued where
  init s h := fun _ _ hm => by simp [h.signed] at hm
  step := by
    intro s a s' _ h ha hs key cap hm
    rcases hs.signed_cases hm with hm | hissued | ⟨_,rfl⟩
    · obtain ⟨k,c,e,hk⟩ := h key cap hm
      exact ⟨k,c,e,hs.returned hk⟩
    · exact hissued
    · exact (hno _ _ ha).elim

/-- Only a capability has the encoding of a capability. -/
theorem Artifact.eq_capability {pf : Platform} {m : Artifact} {cap : Capability}
    (h : pf.SameNormal m.unsigned cap.unsigned) : ∃ cap', m = .capability cap' := by
  cases m with
  | capability cap' => exact ⟨cap',rfl⟩
  | evidence e => exact absurd h.length (by simp [ValidationEvidence.core,Capability.core])
  | receipt r => exact absurd h.length (by simp [SinkReceipt.core,Capability.core])
  | proof p => exact absurd h.length (by simp [PresentationProof.fields,Capability.core])

/-- Every capability at work in a call is, up to its encoding, an issued one. -/
def CapabilitiesIssued (D : Deployment) (s : System) : Prop :=
  ∀ k x, (s.effectuating k).args? = some x → ∃ j c e cap, s.authorizing j = .returned c e cap ∧
    D.pf.SameNormal cap.unsigned x.cap.unsigned

theorem capabilitiesIssued_preserved (hno : ∀ s a, allowed s a → NotResigned a)
    (hgen : ∀ s a, allowed s a → CapabilityUnforged D s a) :
    Machine.Preserved D.machine allowed (CapabilitiesIssued D) where
  init s h := fun k _ hk => by simp [h.effectuating,Effectuating.args?] at hk
  step := by
    intro s a s' hr h ha hs k x hk
    rcases hs.args?_cases hk with hk | ⟨rfl,hv⟩
    · obtain ⟨j,c,e,cap,hj,hn⟩ := h k x hk
      exact ⟨j,c,e,cap,hs.returned hj,hn⟩
    · obtain ⟨m,b,hm,hmb,hxb⟩ := hgen _ _ ha hv.signature
      have hn := sameNormal_of_canonicalBytes hmb hxb
      obtain ⟨cap,rfl⟩ := Artifact.eq_capability hn
      obtain ⟨j,c,e,hj⟩ := hr.invariant (signedIssued_preserved hno) _ _ hm
      exact ⟨j,c,e,cap,hs.returned hj,hn⟩

/-- The capability that a call of `authorize` has returned. -/
def Authorizing.capability? : Authorizing → Option Capability
  | .returned _ _ cap => some cap
  | _ => none

theorem Authorizing.capability?_eq_some {p : Authorizing} {cap : Capability} (h : p.capability? = some cap) :
    ∃ c e, p = .returned c e cap := by
  cases p <;> cases h
  exact ⟨_,_,rfl⟩

/-- The tokens are the capability identifiers, minted by `authorize`, claimed by
`effectuate` and used by the effect. -/
def System.ledger (s : System) : TokenLedger Nat Nat PyStr where
  minted k := (s.authorizing k).capability?.map Capability.capabilityId
  claimed k := (s.effectuating k).claim?.map fun x => x.cap.capabilityId
  used := {k | (s.effectuating k).effect?.isSome}

private theorem ledger_eq
    (ha : ∀ k, (s'.authorizing k).capability? = (s.authorizing k).capability?)
    (hc : ∀ k, (s'.effectuating k).claim? = (s.effectuating k).claim?)
    (he : ∀ k, (s'.effectuating k).effect? = (s.effectuating k).effect?) : s'.ledger = s.ledger := by
  simp only [System.ledger,ha,hc,he]

private theorem ledger_returned {k : Nat} {c : CandidateAct} {e : ValidationEvidence} {cap : Capability}
    {signed : List (VerKey × Artifact)} :
    System.ledger { s with signed, authorizing := update s.authorizing k (.returned c e cap) } =
      { s.ledger with minted := update s.ledger.minted k (some cap.capabilityId) } := by
  simp only [System.ledger,TokenLedger.mk.injEq,and_true]
  exact funext fun j => Function.apply_update
    (fun _ (p : Authorizing) => p.capability?.map Capability.capabilityId) s.authorizing k _ j

private theorem ledger_claimed {k : Nat} {x : EffectuateArgs} {d : PyStr} {consumption : ConsumptionStore}
    (hk : s.effectuating k = .verified x d) :
    System.ledger { s with consumption, effectuating := update s.effectuating k (.claimed x d) } =
      { s.ledger with claimed := update s.ledger.claimed k (some x.cap.capabilityId) } := by
  simp only [System.ledger,TokenLedger.mk.injEq,true_and]
  refine ⟨funext fun j => Function.apply_update
    (fun _ (p : Effectuating) => p.claim?.map fun x => x.cap.capabilityId) s.effectuating k _ j,Set.ext fun j => ?_⟩
  simp only [Set.mem_ofPred_eq]
  rw [proj_update (g := Effectuating.effect?) (by rw [hk]; rfl)]

private theorem ledger_committed {k : Nat} {x : EffectuateArgs} {d : PyStr} {record : EffectRecord} {i : Nat}
    {effectors : Nat → GuardedEffector} (hk : s.effectuating k = .claimed x d) :
    System.ledger { s with effectors, effectuating := update s.effectuating k (.committed x d record i) } =
      { s.ledger with used := insert k s.ledger.used } := by
  simp only [System.ledger,TokenLedger.mk.injEq,true_and]
  refine ⟨funext fun j => ?_,Set.ext fun j => ?_⟩
  · rw [proj_update (g := Effectuating.claim?) (by rw [hk]; rfl)]
  · by_cases hj : j = k
    · simp [hj,Effectuating.effect?]
    · simp [hj]

/-- Capabilities of different calls have different identifiers: the identifier hashes
the evidence identifier, which the evidence store keeps unique. -/
theorem capabilityId_inj (hcollision : D.pf.NoCollision) (hrigid : D.pf.nfc.HexRigid)
    {c c' : CandidateAct} {e e' : ValidationEvidence} {cap cap' : Capability} {d d' : HCAD}
    {t t' : StateTransition} {now now' : Int}
    (he' : ProtectedAuthority.EvidenceFor D.pf D.authority d' c' t' now' e')
    (hc : ProtectedAuthority.CapabilityFor D.pf D.authority d c t e now cap)
    (hc' : ProtectedAuthority.CapabilityFor D.pf D.authority d' c' t' e' now' cap')
    (hid : cap.capabilityId = cap'.capabilityId) : e.evidenceId = e'.evidenceId := by
  have hn := hcollision.sameNormal hc.capabilityId (hid ▸ hc'.capabilityId)
  have ht := hn.text "evidence_id" (s := cap.evidenceId) (t := cap'.evidenceId)
    (by simp [Capability.core]) (by simp [Capability.core])
  rw [hc.evidenceId,hc'.evidenceId] at ht
  exact hrigid.eq_of_sameText (isHex_of_sha256Hex he'.evidenceId) ht

theorem CapabilitiesIssued.capabilityId (hrigid : D.pf.nfc.HexRigid) (hm : AuthorizingMatch D s)
    {c : CandidateAct} {e : ValidationEvidence} {cap : Capability} {j : Nat} {x : EffectuateArgs}
    (hj : s.authorizing j = .returned c e cap) (hn : D.pf.SameNormal cap.unsigned x.cap.unsigned) :
    x.cap.capabilityId = cap.capabilityId := by
  obtain ⟨_,_,_,_,hc⟩ := hm.returned _ _ _ _ hj
  have ht := hn.symm.text "capability_id" (s := x.cap.capabilityId) (t := cap.capabilityId) (by simp) (by simp)
  exact hrigid.eq_of_sameText (isHex_of_sha256Hex hc.capabilityId) ht

theorem ledger_refines (hcollision : D.pf.NoCollision) (hrigid : D.pf.nfc.HexRigid)
    (hno : ∀ s a, allowed s a → NotResigned a) (hgen : ∀ s a, allowed s a → CapabilityUnforged D s a) :
    Machine.Refines D.machine allowed TokenLedger.machine System.ledger where
  init s h := by
    refine ⟨fun k => ?_,fun k => ?_,Set.eq_empty_of_forall_notMem fun k hk => ?_⟩
    · simp [System.ledger,h.authorizing,Authorizing.capability?]
    · simp [System.ledger,h.effectuating,Effectuating.claim?]
    · simp [System.ledger,h.effectuating,Effectuating.effect?] at hk
  step := by
    intro s a s' hr ha hs
    cases hs with
    | reserve hk => exact .inl (ledger_eq (proj_update (by rw [hk]; rfl)) (fun _ => rfl) fun _ => rfl)
    | refuse hk => exact .inl (ledger_eq (proj_update (by rw [hk]; rfl)) (fun _ => rfl) fun _ => rfl)
    | commitEvidence hk =>
      exact .inl (ledger_eq (proj_update (by rw [hk]; rfl)) (fun _ => rfl) fun _ => rfl)
    | failEvidence hk => exact .inl (ledger_eq (proj_update (by rw [hk]; rfl)) (fun _ => rfl) fun _ => rfl)
    | verify hk =>
      exact .inl (ledger_eq (fun _ => rfl) (proj_update (by rw [hk]; rfl)) (proj_update (by rw [hk]; rfl)))
    | receipt hk =>
      exact .inl (ledger_eq (fun _ => rfl) (proj_update (by rw [hk]; rfl)) (proj_update (by rw [hk]; rfl)))
    | failCommit hk =>
      exact .inl (ledger_eq (fun _ => rfl) (proj_update (by rw [hk]; rfl)) (proj_update (by rw [hk]; rfl)))
    | @issue k c now d t e cap hk hc =>
      have hm := hr.invariant authorizingMatch_preserved
      have hcap := ProtectedAuthority.capability_eq_ok.mp hc
      refine .inr ⟨.mint k cap.capabilityId,?_⟩
      have hnew : ∀ j, s.ledger.minted j ≠ some cap.capabilityId := by
        intro j hj
        obtain ⟨cap',hj,hid⟩ := Option.map_eq_some_iff.mp hj
        obtain ⟨c',e',hj⟩ := Authorizing.capability?_eq_some hj
        obtain ⟨_,_,_,he',hc'⟩ := hm.returned _ _ _ _ hj
        have hev := capabilityId_inj hcollision hrigid he' hcap hc' hid.symm
        have := hm.distinct k j e e' (by rw [hk]; rfl) (by rw [hj]; rfl) hev
        subst this
        rw [hk] at hj
        cases hj
      rw [ledger_returned]
      exact .mint (by simp [System.ledger,hk,Authorizing.capability?]) hnew
    | @claim k x d consumption hk hc =>
      have hm := hr.invariant authorizingMatch_preserved
      obtain ⟨hfree,rfl⟩ := ConsumptionStore.claim_eq_ok.mp hc
      obtain ⟨j,c,e,cap,hj,hn⟩ := hr.invariant (capabilitiesIssued_preserved hno hgen) k x (by rw [hk]; rfl)
      have hid := CapabilitiesIssued.capabilityId hrigid hm hj hn
      refine .inr ⟨.claim k x.cap.capabilityId,?_⟩
      have hnew : ∀ v, s.ledger.claimed v ≠ some x.cap.capabilityId := by
        intro v hv
        obtain ⟨y,hy,hid⟩ := Option.map_eq_some_iff.mp hv
        have := hr.invariant claimsMatch_preserved v y hy
        rw [hid,hfree] at this
        cases this
      rw [ledger_claimed hk]
      exact .claim (by simp [System.ledger,hk,Effectuating.claim?])
        ⟨j,by simp [System.ledger,hj,Authorizing.capability?,hid]⟩ hnew
    | @commit k x d record effector hk hc =>
      refine .inr ⟨.use k,?_⟩
      rw [ledger_committed hk]
      exact .use (t := x.cap.capabilityId) (by simp [System.ledger,hk,Effectuating.claim?])
    | _ => exact .inl rfl

/-- Through any interleaving the effect records inject into the successful calls of
`authorize`, each into the call that authorized the act it records. -/
theorem effects_inject_authorizations (hcollision : D.pf.NoCollision) (hrigid : D.pf.nfc.HexRigid)
    (h : Machine.Reaches D.machine (fun s a => NotResigned a ∧ CapabilityUnforged D s a) s) :
    ∃ f : {p : Nat × Nat // p.2 < (s.effectors p.1).records.length} → Nat, Function.Injective f ∧
      ∀ p, ∃ c e cap r, s.authorizing (f p) = .returned c e cap ∧
        (s.effectors p.1.1).records[p.1.2]? = some r ∧ c.digest D.pf = .ok r.candidateDigest := by
  have hno : ∀ s a, (NotResigned a ∧ CapabilityUnforged D s a) → NotResigned a := fun _ _ h => h.1
  have hgen : ∀ s a, (NotResigned a ∧ CapabilityUnforged D s a) → CapabilityUnforged D s a := fun _ _ h => h.2
  have hledger := h.refine (ledger_refines hcollision hrigid hno hgen)
  obtain ⟨g,hg,hminted⟩ := TokenLedger.exists_injection hledger
  have hm := h.invariant authorizingMatch_preserved
  have effect (p : {p : Nat × Nat // p.2 < (s.effectors p.1).records.length}) : ∃ k x r,
      (s.effectors p.1.1).records[p.1.2]? = some r ∧ (s.effectuating k).effect? = some (x,r,p.1.2) ∧
      D.boundTo x.sink = p.1.1 := by
    have hr := List.getElem?_eq_getElem p.2
    obtain ⟨k,x,hk,hx⟩ := (h.invariant recordsMatch_preserved).caused _ _ _ hr
    exact ⟨k,x,_,hr,hk,hx⟩
  choose k x r hrec hk hx using effect
  have hused (p) : k p ∈ s.ledger.used := by simp [System.ledger,hk]
  refine ⟨fun p => g ⟨k p,hused p⟩,fun p q hpq => ?_,fun p => ?_⟩
  · have hkk : k p = k q := congrArg Subtype.val (hg hpq)
    have he := (hk p).symm.trans (hkk ▸ hk q)
    simp only [Option.some.injEq,Prod.mk.injEq] at he
    exact Subtype.ext (Prod.ext (by rw [← hx p,← hx q,he.1]) he.2.2)
  · have hclaim := Effectuating.claim?_of_effect? (hk p)
    obtain ⟨j,c,e,cap,hj,hn⟩ := h.invariant (capabilitiesIssued_preserved hno hgen) _ _
      (Effectuating.args?_of_claim? hclaim)
    -- The call that minted the claimed identifier is the one that issued the capability at work.
    have hjg : j = g ⟨k p,hused p⟩ := by
      obtain ⟨t,hclaimed,hmint⟩ := hminted ⟨k p,hused p⟩
      have hid := CapabilitiesIssued.capabilityId hrigid hm hj hn
      have ht : (x p).cap.capabilityId = t := by simpa [System.ledger,hclaim] using hclaimed
      exact (hledger.invariant TokenLedger.sound_preserved).minted_inj _ _ t
        (by simp [System.ledger,hj,Authorizing.capability?,← ht,← hid]) hmint
    obtain ⟨_,_,_,_,hc⟩ := hm.returned _ _ _ _ hj
    obtain ⟨_,_,hv⟩ := h.invariant argsVerified_preserved _ _ (Effectuating.args?_of_claim? hclaim)
    have hrd := (h.invariant recordsFor_preserved _ _ _ _ (hk p)).1
    have hd := hn.text "candidate_digest" (s := cap.candidateDigest) (t := (x p).cap.candidateDigest)
      (by simp [Capability.core]) (by simp [Capability.core])
    have hdigest := hrigid.eq_of_sameText (isHex_of_sha256Hex hv.candidateDigest) hd
    refine ⟨c,e,cap,r p,(congrArg s.authorizing hjg).symm.trans hj,hrec p,?_⟩
    rw [hc.candidateDigest,hdigest,← hv.candidateDigest,hrd]

/-- In the sample run nothing is signed but by its steps, and its one capability was signed before. -/
theorem sample_reaches_unforged : ∃ e cap state store record,
    Commits samplePlatform (sampleSink sampleAuthority.authenticator none false) store state {} sampleEffector
      (sampleAct (py "n") .none) cap 300 none record ∧
    Machine.Reaches sampleDeployment.machine
      (fun s a => NotResigned a ∧ CapabilityUnforged sampleDeployment s a)
      (sampleEffective e cap state store record) := by
  obtain ⟨e,cap,state,store,record,_,hc,h⟩ := sample_reaches_effect
    (fun s a => NotResigned a ∧ CapabilityUnforged sampleDeployment s a)
    ⟨trivial,trivial⟩ (fun _ => ⟨trivial,trivial⟩) (fun _ => ⟨trivial,trivial⟩)
    (fun s x hm ⟨b,hb⟩ => ⟨trivial,fun _ => ⟨.capability x.cap,b,hm,hb,hb⟩⟩)
    (fun _ _ => ⟨trivial,trivial⟩) (fun _ => ⟨trivial,trivial⟩)
  exact ⟨e,cap,state,store,record,hc,h⟩

theorem effects_inject_authorizations_sample : ∃ s : System,
    Machine.Reaches sampleDeployment.machine
      (fun s a => NotResigned a ∧ CapabilityUnforged sampleDeployment s a) s ∧
    (s.effectors 0).records ≠ [] ∧
    ∃ f : {p : Nat × Nat // p.2 < (s.effectors p.1).records.length} → Nat, Function.Injective f ∧
      ∀ p, ∃ c e cap r, s.authorizing (f p) = .returned c e cap ∧
        (s.effectors p.1.1).records[p.1.2]? = some r ∧ c.digest samplePlatform = .ok r.candidateDigest := by
  obtain ⟨e,cap,state,store,record,_,h⟩ := sample_reaches_unforged
  have hinject := effects_inject_authorizations (D := sampleDeployment) samplePlatform_noCollision
    sampleNfc_hexRigid h
  exact ⟨_,h,by simp [sampleEffective,System.afterCommit,sampleDeployment],hinject⟩

end ExecutionFinality
