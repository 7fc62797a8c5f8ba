import ExecutionFinality.Reference.EffectLimits

/-! The system when its evidence records are overwritten at will and its process is restarted: the
protected state and the evidence are in memory, only the claims and the effects outlive it. -/
namespace ExecutionFinality
open Function (update)
open Platform

namespace EvidenceStore

def get (store : EvidenceStore) (evidenceId : PyStr) : Option ValidationEvidence := store.records evidenceId

def verifyAllow (pf : Platform) (store : EvidenceStore) (evidenceId : PyStr) : Except Exn Bool :=
  match store.get evidenceId with
  | none => .ok false
  | some e => if e.decision = .allow then store.authenticator.verify pf e.unsigned e.signature e.keyId else .ok false

/-- `replace_for_adversarial_test`: no signature and no identifier is checked. -/
def replaceForAdversarialTest (store : EvidenceStore) (e : ValidationEvidence) : EvidenceStore :=
  { store with records := update store.records e.evidenceId (some e) }

theorem verifyAllow_eq_true {pf : Platform} {store : EvidenceStore} {i : PyStr} : store.verifyAllow pf i = .ok true ↔
    ∃ e, store.records i = some e ∧ e.decision = .allow ∧
      store.authenticator.verify pf e.unsigned e.signature e.keyId = .ok true := by
  unfold verifyAllow get
  cases store.records i with
  | none => simp
  | some e =>
    dsimp only
    split
    · rename_i hd
      simp [hd]
    · rename_i hd
      simp [hd]

end EvidenceStore

inductive VolatileAction where
  | own (a : Action)
  | replace (e : ValidationEvidence)
  | restart (state : ProtectedState) (evidence : EvidenceStore)

/-- A restart begins with stores as their constructors leave them. What the calls under way did next, had
their process lived, is covered as well. -/
inductive VolatileStep (D : Deployment) (s : System) : VolatileAction → System → Prop
  | own {a : Action} {s' : System} (hs : Step D s a s') : VolatileStep D s (.own a) s'
  | replace (e : ValidationEvidence) :
    VolatileStep D s (.replace e) { s with evidence := s.evidence.replaceForAdversarialTest e }
  | restart {state : ProtectedState} {evidence : EvidenceStore} (hnonces : ∀ n, state.nonces n = none)
      (htransitions : ∀ t, state.transitions t = none) (hevidence : ∀ i, evidence.records i = none) :
    VolatileStep D s (.restart state evidence) { s with state, evidence }

def Deployment.volatile (D : Deployment) : Machine System VolatileAction where
  Init := System.Initial
  Step := VolatileStep D

/-- What is asked of the steps of the system; nothing is asked of the rest. -/
def VolatileAction.Meets (allowed : System → Action → Prop) (s : System) : VolatileAction → Prop
  | .own a => allowed s a
  | _ => True

def VolatileAction.KeepsStores : VolatileAction → Prop
  | .restart _ _ => False
  | _ => True

variable {D : Deployment} {s s' : System} {a : Action}

/-- What holds whatever the protected state and the evidence are. -/
structure HoldsVolatile (D : Deployment) (s : System) : Prop where
  made : ∀ k c e cap, s.authorizing k = .returned c e cap → ∃ d t now,
    ProtectedAuthority.CapabilityFor D.pf D.authority d c t e now cap
  signed : SignedIssued s
  issued : CapabilitiesIssued D s
  verified : ArgsVerified D s
  recorded : RecordsMatch D s
  records : RecordsFor D s
  claims : ClaimsMatch D s
  owned : ClaimsOwned s

/-- Evidence identifiers are never given back while the process lives. -/
structure EvidenceKept (s : System) : Prop where
  stored : ∀ k e, (s.authorizing k).evidence? = some e → s.evidence.records e.evidenceId ≠ none
  distinct : ∀ j k e e', (s.authorizing j).evidence? = some e → (s.authorizing k).evidence? = some e' →
    e.evidenceId = e'.evidenceId → j = k

theorem HoldsVolatile.initial (h : s.Initial) : HoldsVolatile D s := by
  have hrun : Machine.Reaches D.machine (fun _ _ => False) s := .init h
  constructor
  · exact fun k _ _ _ hk => by simp [h.authorizing] at hk
  · exact hrun.invariant (signedIssued_preserved fun _ _ h => h.elim)
  · exact hrun.invariant (capabilitiesIssued_preserved (fun _ _ h => h.elim) fun _ _ h => h.elim)
  · exact hrun.invariant argsVerified_preserved
  · exact hrun.invariant recordsMatch_preserved
  · exact hrun.invariant recordsFor_preserved
  · exact hrun.invariant claimsMatch_preserved
  · exact hrun.invariant claimsOwned_preserved

/-- A step of the system itself keeps it. -/
theorem HoldsVolatile.own (h : HoldsVolatile D s) (hno : NotResigned a) (hgen : CapabilityUnforged D s a)
    (hs : Step D s a s') : HoldsVolatile D s' := by
  constructor
  · intro k c e cap hk
    rcases hs.returned_cases hk with hk | ⟨d,t,now,_,hcap⟩
    · exact h.made k c e cap hk
    · exact ⟨d,t,now,hcap⟩
  · intro key cap hm
    rcases hs.signed_cases hm with hm | hissued | ⟨_,rfl⟩
    · obtain ⟨k,c,e,hk⟩ := h.signed key cap hm
      exact ⟨k,c,e,hs.returned hk⟩
    · exact hissued
    · exact hno.elim
  · intro k x hk
    rcases hs.args?_cases hk with hk | ⟨rfl,hv⟩
    · obtain ⟨j,c,e,cap,hj,hn⟩ := h.issued k x hk
      exact ⟨j,c,e,cap,hs.returned hj,hn⟩
    · obtain ⟨m,b,hm,hmb,hxb⟩ := hgen hv.signature
      have hn := sameNormal_of_canonicalBytes hmb hxb
      obtain ⟨cap,rfl⟩ := Artifact.eq_capability hn
      obtain ⟨j,c,e,hj⟩ := h.signed _ _ hm
      exact ⟨j,c,e,cap,hs.returned hj,hn⟩
  · intro k x hk
    rcases hs.args?_cases hk with hk | ⟨_,hv⟩
    · exact h.verified k x hk
    · exact ⟨_,_,hv⟩
  · constructor
    · intro k x r i hk
      rcases hs.effect?_cases hk with hk | ⟨_,rfl,_,hrecords⟩
      · exact hs.records (h.recorded.recorded k x r i hk)
      · rw [hrecords,List.getElem?_concat_length]
    · intro e i r hi
      rcases hs.records_cases hi with hi | hnew
      · obtain ⟨k,x,hk,hx⟩ := h.recorded.caused e i r hi
        exact ⟨k,x,hs.effect? hk,hx⟩
      · exact hnew
  · intro k x r i hk
    rcases hs.effect?_cases hk with hk | ⟨_,_,hr,_⟩
    · exact h.records k x r i hk
    · obtain ⟨hd,_,hp,_⟩ := GuardedEffector.newRecord_eq_ok.mp hr
      exact ⟨hd,hp⟩
  · intro k x hk
    rcases hs.claim?_cases hk with hk | ⟨_,_,_,_,hclaim⟩
    · exact hs.claims (h.claims k x hk)
    · exact hclaim
  · exact ClaimsOwned.step h.owned h.claims hs

theorem holdsVolatile (h : Machine.Reaches D.volatile
    (VolatileAction.Meets fun s a => NotResigned a ∧ CapabilityUnforged D s a) s) : HoldsVolatile D s := by
  induction h with
  | init h => exact .initial h
  | step _ ha hs ih =>
    cases hs with
    | own hs => exact ih.own ha.1 ha.2 hs
    | replace | restart => exact { ih with recorded := ⟨ih.recorded.recorded,ih.recorded.caused⟩ }

theorem EvidenceKept.initial (h : s.Initial) : EvidenceKept s where
  stored k _ hk := by simp [h.authorizing,Authorizing.evidence?] at hk
  distinct j _ _ _ hj := by simp [h.authorizing,Authorizing.evidence?] at hj

theorem EvidenceKept.own (h : EvidenceKept s) (hs : Step D s a s') : EvidenceKept s' := by
  constructor
  · intro k e hk
    rcases hs.evidence?_cases hk with hk | ⟨_,_,hstored⟩
    · obtain ⟨e',he'⟩ := Option.ne_none_iff_exists'.mp (h.stored k e hk)
      rw [hs.evidence he']
      exact Option.some_ne_none e'
    · rw [hstored]
      exact Option.some_ne_none e
  · intro j k e e' hj hk hid
    rcases hs.evidence?_cases hj with hj | ⟨rfl,hj,_⟩ <;> rcases hs.evidence?_cases hk with hk | ⟨hjk,hk,_⟩
    · exact h.distinct j k e e' hj hk hid
    · exact absurd (hid ▸ hk) (h.stored j e hj)
    · exact absurd (hid ▸ hj) (h.stored k e' hk)
    · cases hjk
      rfl

theorem EvidenceKept.replace (h : EvidenceKept s) (e : ValidationEvidence) :
    EvidenceKept { s with evidence := s.evidence.replaceForAdversarialTest e } := by
  refine { h with stored := fun k e' hk => ?_ }
  dsimp only [EvidenceStore.replaceForAdversarialTest]
  by_cases hid : e'.evidenceId = e.evidenceId
  · rw [hid,Function.update_self]
    exact Option.some_ne_none e
  · rw [Function.update_of_ne hid]
    exact h.stored k e' hk

theorem evidenceKept (h : Machine.Reaches D.volatile (fun _ a => a.KeepsStores) s) : EvidenceKept s := by
  induction h with
  | init h => exact .initial h
  | step _ ha hs ih =>
    cases hs with
    | own hs => exact ih.own hs
    | replace e => exact ih.replace e
    | restart => exact ha.elim

/-- The effect records inject into the successful calls of `authorize`, each into the call that authorized its act. -/
theorem HoldsVolatile.effects_authorized (hrigid : D.pf.nfc.HexRigid) (h : HoldsVolatile D s) :
    ∃ f : {p : Nat × Nat // p.2 < (s.effectors p.1).records.length} → Nat, Function.Injective f ∧
      ∀ p, ∃ c e cap r, s.authorizing (f p) = .returned c e cap ∧
        (s.effectors p.1.1).records[p.1.2]? = some r ∧ c.digest D.pf = .ok r.candidateDigest := by
  have effect (p : {p : Nat × Nat // p.2 < (s.effectors p.1).records.length}) : ∃ j k x r c e cap,
      (s.effectors p.1.1).records[p.1.2]? = some r ∧ (s.effectuating k).effect? = some (x,r,p.1.2) ∧
      D.boundTo x.sink = p.1.1 ∧ s.authorizing j = .returned c e cap ∧ x.cap.capabilityId = cap.capabilityId ∧
      c.digest D.pf = .ok r.candidateDigest := by
    have hr := List.getElem?_eq_getElem p.2
    obtain ⟨k,x,hk,hx⟩ := h.recorded.caused _ _ _ hr
    obtain ⟨j,c,e,cap,hj,_,hid,hdigest⟩ := effect_authorized hrigid h.issued h.made h.verified h.records hk
    exact ⟨j,k,x,_,c,e,cap,hr,hk,hx,hj,hid,hdigest⟩
  choose f k x r c e cap hrec hk hx hj hid hdigest using effect
  refine ⟨f,fun p q hpq => ?_,fun p => ⟨c p,e p,cap p,r p,hj p,hrec p,hdigest p⟩⟩
  have hcap : cap p = cap q := (Authorizing.returned.inj ((hj p).symm.trans (hpq ▸ hj q))).2.2
  have hkk := effects_distinct h.owned (hk p) (hk q) ((hid p).trans (hcap ▸ (hid q).symm))
  have he := (hk p).symm.trans (hkk ▸ hk q)
  simp only [Option.some.injEq,Prod.mk.injEq] at he
  exact Subtype.ext (Prod.ext (by rw [← hx p,← hx q,he.1]) he.2.2)

/-- Whoever overwrites evidence records gains nothing: the effect records still inject into the successful calls of
`authorize`, each into the call that authorized its act, and no two of these have evidence of one identifier. -/
theorem tampered_effects_authorized (hrigid : D.pf.nfc.HexRigid) (h : Machine.Reaches D.volatile
    (fun s a => a.KeepsStores ∧ a.Meets (fun s a => NotResigned a ∧ CapabilityUnforged D s a) s) s) :
    (∃ f : {p : Nat × Nat // p.2 < (s.effectors p.1).records.length} → Nat, Function.Injective f ∧
      ∀ p, ∃ c e cap r, s.authorizing (f p) = .returned c e cap ∧
        (s.effectors p.1.1).records[p.1.2]? = some r ∧ c.digest D.pf = .ok r.candidateDigest) ∧
    ∀ j k c c' e e' cap cap', s.authorizing j = .returned c e cap → s.authorizing k = .returned c' e' cap' →
      e.evidenceId = e'.evidenceId → j = k := by
  refine ⟨(holdsVolatile (h.mono fun _ _ h => h.2)).effects_authorized hrigid,fun i j c c' e e' cap cap' hi hj he => ?_⟩
  exact (evidenceKept (h.mono fun _ _ h => h.1)).distinct i j e e' (by rw [hi]; rfl) (by rw [hj]; rfl) he

/-- A run of the system without interference -/
theorem reaches_volatile {allowed : System → Action → Prop} (h : Machine.Reaches D.machine allowed s) :
    Machine.Reaches D.volatile (fun s a => a.KeepsStores ∧ a.Meets allowed s) s := by
  induction h with
  | init h => exact .init h
  | @step s s' a _ ha hs ih => exact ih.step (a := .own a) ⟨trivial,ha⟩ (.own hs)

/-- The sample evidence is replaced by a denial after its act took effect: the effect stays the authorized one. -/
theorem tampered_effects_authorized_sample : ∃ (s : System) (e : ValidationEvidence) (record : EffectRecord),
    s.evidence.records e.evidenceId = some { e with decision := .deny } ∧ (s.effectors 0).records = [record] ∧
    ∃ f : {p : Nat × Nat // p.2 < (s.effectors p.1).records.length} → Nat, Function.Injective f ∧
      ∀ p, ∃ c e cap r, s.authorizing (f p) = .returned c e cap ∧
        (s.effectors p.1.1).records[p.1.2]? = some r ∧ c.digest samplePlatform = .ok r.candidateDigest := by
  obtain ⟨e,cap,state,store,record,_,h⟩ := sample_reaches_unforged
  have h1 := (reaches_volatile h).step (a := VolatileAction.replace { e with decision := .deny }) ⟨trivial,trivial⟩
    (VolatileStep.replace _)
  exact ⟨_,e,record,Function.update_self ..,
    congrArg GuardedEffector.records sampleEffective_effectors,
    (tampered_effects_authorized (D := sampleDeployment) sampleNfc_hexRigid h1).1⟩

/-- Every record is evidence that allows and that the store itself verifies. -/
def StoredVerifies (D : Deployment) (s : System) : Prop :=
  ∀ i e, s.evidence.records i = some e → e.decision = .allow ∧
    s.evidence.authenticator.verify D.pf e.unsigned e.signature e.keyId = .ok true

theorem storedVerifies_preserved {allowed : System → Action → Prop} :
    Machine.Preserved D.machine allowed (StoredVerifies D) where
  init s h := fun i _ hi => by simp [h.evidence] at hi
  step := by
    intro s a s' _ h _ hs
    cases hs with
    | commitEvidence hk he hc =>
      obtain ⟨_,hsignature,_,rfl⟩ := EvidenceStore.commit_eq_ok.mp hc
      intro i e' hi
      rcases update_cases hi with ⟨_,hv⟩ | ⟨_,hi⟩
      · cases hv
        exact ⟨(ProtectedAuthority.evidence_eq_ok.mp he).decision,hsignature⟩
      · exact h i e' hi
    | _ => exact h

/-- Without interference `verify_allow` tells exactly the evidence that calls of `authorize` have committed. -/
theorem verifyAllow_iff {allowed : System → Action → Prop} (h : Machine.Reaches D.machine allowed s) (i : PyStr) :
    s.evidence.verifyAllow D.pf i = .ok true ↔ ∃ k e, (s.authorizing k).evidence? = some e ∧ e.evidenceId = i := by
  have hm := h.invariant authorizingMatch_preserved
  rw [EvidenceStore.verifyAllow_eq_true]
  constructor
  · rintro ⟨e,he,_⟩
    obtain ⟨hid,k,hk⟩ := hm.known i e he
    exact ⟨k,e,hk,hid⟩
  · rintro ⟨k,e,hk,rfl⟩
    have hstored := hm.stored k e hk
    exact ⟨e,hstored,h.invariant storedVerifies_preserved _ e hstored⟩

end ExecutionFinality
