import ExecutionFinality.Reference.SystemSteps

/-! What holds in every state of every interleaving. -/
namespace ExecutionFinality
open Function (update)
open Platform

/-- These canonical bytes were signed under the key before. -/
def SignedBefore (D : Deployment) (s : System) (key : VerKey) (value : PyVal) : Prop :=
  ∃ m b, (key,m) ∈ s.signed ∧ D.pf.canonicalBytes m.unsigned = .ok b ∧ D.pf.canonicalBytes value = .ok b

variable {D : Deployment} {allowed : System → Action → Prop}

/-- The records of the effectors are the effects of the calls, each at its position. -/
structure RecordsMatch (D : Deployment) (s : System) : Prop where
  recorded : ∀ k x r i, (s.effectuating k).effect? = some (x,r,i) →
    (s.effectors (D.boundTo x.sink)).records[i]? = some r
  caused : ∀ e i r, (s.effectors e).records[i]? = some r →
    ∃ k x, (s.effectuating k).effect? = some (x,r,i) ∧ D.boundTo x.sink = e

theorem recordsMatch_preserved : Machine.Preserved D.machine allowed (RecordsMatch D) where
  init s h := ⟨fun k _ _ _ hk => by simp [h.effectuating,Effectuating.effect?] at hk,
    fun e i r hi => by simp [h.records] at hi⟩
  step := by
    intro s a s' _ h _ hs
    constructor
    · intro k x r i hk
      rcases hs.effect?_cases hk with hk | ⟨_,rfl,_,hrecords⟩
      · exact hs.records (h.recorded k x r i hk)
      · rw [hrecords,List.getElem?_concat_length]
    · intro e i r hi
      rcases hs.records_cases hi with hi | hnew
      · obtain ⟨k,x,hk,hx⟩ := h.caused e i r hi
        exact ⟨k,x,hs.effect? hk,hx⟩
      · exact hnew

/-- Every call past its claim has its claim in the store. -/
def ClaimsMatch (D : Deployment) (s : System) : Prop :=
  ∀ k x, (s.effectuating k).claim? = some x → s.consumption.claims x.cap.capabilityId =
    some ((D.sinks x.sink).context.sinkId,(D.sinks x.sink).context.boundaryId,x.cap.nonce,x.now)

theorem claimsMatch_preserved : Machine.Preserved D.machine allowed (ClaimsMatch D) where
  init s h := fun k _ hk => by simp [h.effectuating,Effectuating.claim?] at hk
  step := by
    intro s a s' _ h _ hs k x hk
    rcases hs.claim?_cases hk with hk | ⟨_,_,_,_,hclaim⟩
    · exact hs.claims (h k x hk)
    · exact hclaim

/-- Verification results stay what they were when the call was verified. -/
def ArgsVerified (D : Deployment) (s : System) : Prop :=
  ∀ k x, (s.effectuating k).args? = some x → ∃ evidence state,
    FinalitySink.Verified D.pf (D.sinks x.sink) evidence state x.candidate x.cap x.now x.presentationProof

theorem argsVerified_preserved : Machine.Preserved D.machine allowed (ArgsVerified D) where
  init s h := fun k _ hk => by simp [h.effectuating,Effectuating.args?] at hk
  step := by
    intro s a s' _ h _ hs k x hk
    rcases hs.args?_cases hk with hk | ⟨_,hv⟩
    · exact h k x hk
    · exact ⟨_,_,hv⟩

/-- The descriptor digest that a call carries from `verify` to its receipt -/
def Effectuating.descriptor? : Effectuating → Option (EffectuateArgs × PyStr)
  | .verified x d | .claimed x d | .committed x d _ _ => some (x,d)
  | _ => none

def DescriptorsMatch (s : System) : Prop :=
  ∀ k x d, (s.effectuating k).descriptor? = some (x,d) → d = x.cap.descriptorDigest

theorem descriptorsMatch_preserved : Machine.Preserved D.machine allowed DescriptorsMatch where
  init s h := fun k _ _ hk => by simp [h.effectuating,Effectuating.descriptor?] at hk
  step := by
    intro s a s' _ h _ hs j x d hj
    cases hs with
    | verify hk hv =>
      rcases proj_update_cases hj with ⟨_,hy⟩ | ⟨_,hy⟩
      · cases hy
        exact (FinalitySink.verify_eq_ok.mp hv).2
      · exact h j x d hy
    | claim hk | commit hk => exact h j x d ((proj_update (by rw [hk]; rfl) j).symm.trans hj)
    | failCommit | receipt =>
      rcases proj_update_cases hj with ⟨_,hy⟩ | ⟨_,hy⟩
      · cases hy
      · exact h j x d hy
    | _ => exact h j x d hj

/-- The records of the calls were made for the candidates that the calls carry. -/
def RecordsFor (D : Deployment) (s : System) : Prop :=
  ∀ k x r i, (s.effectuating k).effect? = some (x,r,i) →
    x.candidate.digest D.pf = .ok r.candidateDigest ∧ r.payload = x.candidate.payload

theorem recordsFor_preserved : Machine.Preserved D.machine allowed (RecordsFor D) where
  init s h := fun k _ _ _ hk => by simp [h.effectuating,Effectuating.effect?] at hk
  step := by
    intro s a s' _ h _ hs k x r i hk
    rcases hs.effect?_cases hk with hk | ⟨_,_,hr,_⟩
    · exact h k x r i hk
    · obtain ⟨hd,_,hp,_⟩ := GuardedEffector.newRecord_eq_ok.mp hr
      exact ⟨hd,hp⟩

/-- Evidence and capabilities are those that `authorize` makes, the committed
evidence is in the store, and no two calls share its identifier. -/
structure AuthorizingMatch (D : Deployment) (s : System) : Prop where
  evidenced : ∀ k c now d t e, s.authorizing k = .evidenced c now d t e →
    ProtectedAuthority.EvidenceFor D.pf D.authority d c t now e
  returned : ∀ k c e cap, s.authorizing k = .returned c e cap → ∃ d t now,
    ProtectedAuthority.EvidenceFor D.pf D.authority d c t now e ∧
    ProtectedAuthority.CapabilityFor D.pf D.authority d c t e now cap
  stored : ∀ k e, (s.authorizing k).evidence? = some e → s.evidence.records e.evidenceId = some e
  known : ∀ i e, s.evidence.records i = some e → e.evidenceId = i ∧
    ∃ k, (s.authorizing k).evidence? = some e
  distinct : ∀ j k e e', (s.authorizing j).evidence? = some e → (s.authorizing k).evidence? = some e' →
    e.evidenceId = e'.evidenceId → j = k

theorem authorizingMatch_preserved : Machine.Preserved D.machine allowed (AuthorizingMatch D) where
  init s h := by
    constructor <;> intros <;> simp_all [h.authorizing,h.evidence,Authorizing.evidence?]
  step := by
    intro s a s' _ h _ hs
    constructor
    · intro k c now d t e hk
      rcases hs.evidenced_cases hk with hk | he
      · exact h.evidenced k c now d t e hk
      · exact he
    · intro k c e cap hk
      rcases hs.returned_cases hk with hk | ⟨d,t,now,hk,hc⟩
      · exact h.returned k c e cap hk
      · exact ⟨d,t,now,h.evidenced k c now d t e hk,hc⟩
    · intro k e hk
      rcases hs.evidence?_cases hk with hk | ⟨_,_,hstored⟩
      · exact hs.evidence (h.stored k e hk)
      · exact hstored
    · intro i e hi
      rcases hs.evidence_cases hi with hi | hnew
      · obtain ⟨hid,k,hk⟩ := h.known i e hi
        exact ⟨hid,k,hs.evidence? hk⟩
      · exact hnew
    · -- What is committed now is under an identifier that no committed evidence has.
      have old_ne (j : Nat) (e e' : ValidationEvidence) (hj : (s.authorizing j).evidence? = some e)
          (hnew : s.evidence.records e'.evidenceId = none) : e.evidenceId ≠ e'.evidenceId := by
        intro hid
        have hstored := h.stored j e hj
        rw [hid,hnew] at hstored
        cases hstored
      intro j k e e' hj hk hid
      rcases hs.evidence?_cases hj with hj | ⟨rfl,hj,_⟩ <;> rcases hs.evidence?_cases hk with hk | ⟨hjk,hk,_⟩
      · exact h.distinct j k e e' hj hk hid
      · exact absurd hid (old_ne j e e' hj hk)
      · exact absurd hid.symm (old_ne k e' e hk hj)
      · cases hjk
        rfl

end ExecutionFinality
