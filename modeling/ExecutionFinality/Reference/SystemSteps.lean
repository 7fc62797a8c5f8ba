import ExecutionFinality.Library.PointUpdates
import ExecutionFinality.Reference.System

/-! What one step can do to a call, to a store and to the log of signatures. The invariants are
derived from this. -/
namespace ExecutionFinality
open Function (update)
open Platform

private theorem getElem?_concat_cases {α : Type} {xs : List α} {x y : α} {i : Nat}
    (h : (xs ++ [x])[i]? = some y) : xs[i]? = some y ∨ (i = xs.length ∧ x = y) := by
  rcases lt_trichotomy i xs.length with hi | hi | hi
  · rw [List.getElem?_append_left hi] at h
    exact .inl h
  · subst hi
    simp only [List.getElem?_concat_length,Option.some.injEq] at h
    exact .inr ⟨rfl,h⟩
  · rw [List.getElem?_eq_none (by simp; omega)] at h
    cases h

theorem mem_signs {D : Deployment} {a : Authenticator} {m m' : Artifact} {key : VerKey}
    {signed : List (VerKey × Artifact)} (h : (key,m) ∈ D.signs a m' signed) :
    (a.signKey D.pf = some key ∧ m = m') ∨ (key,m) ∈ signed := by
  unfold Deployment.signs at h
  cases hk : a.signKey D.pf with
  | none =>
    rw [hk] at h
    exact .inr h
  | some key' =>
    rw [hk] at h
    rcases List.mem_cons.mp h with he | h
    · cases he
      exact .inl ⟨rfl,rfl⟩
    · exact .inr h

variable {D : Deployment} {s s' : System} {a : Action} {j : Nat}

/-- Who signs what in a step of the repository -/
def SignedBy (D : Deployment) (s s' : System) (key : VerKey) : Artifact → Prop
  | .evidence _ => True
  | .capability cap => ∃ k c e, s'.authorizing k = .returned c e cap
  | .receipt r => ∃ k x d record i, s.effectuating k = .committed x d record i ∧
      s'.effectuating k = .returned x record i ∧ (D.sinks x.sink).receiptAuthenticator.signKey D.pf = some key ∧
      (D.sinks x.sink).receipt D.pf x.candidate x.cap d record x.now = .ok r
  | .proof p => ∃ i, (D.presenters i).authenticator.signKey D.pf = some key ∧
      (D.presenters i).prove D.pf p.capabilityId p.candidateDigest p.sinkId p.boundaryId p.nonce p.presentedAtNs = .ok p

namespace Step

/-- A call carries the arguments that it was verified with. -/
theorem args?_cases (hs : Step D s a s') {x : EffectuateArgs} (hj : (s'.effectuating j).args? = some x) :
    (s.effectuating j).args? = some x ∨ (a = .verify j x ∧
      FinalitySink.Verified D.pf (D.sinks x.sink) s.evidence s.state x.candidate x.cap x.now x.presentationProof) := by
  cases hs with
  | claim hk | commit hk | failCommit hk | receipt hk => exact .inl ((proj_update (by rw [hk]; rfl) j).symm.trans hj)
  | verify hk hv =>
    rcases proj_update_cases hj with ⟨rfl,hy⟩ | ⟨_,hy⟩
    · cases hy
      exact .inr ⟨rfl,(FinalitySink.verify_eq_ok.mp hv).1⟩
    · exact .inl hy
  | _ => exact .inl hj

/-- A call is past its claim by claiming an identifier that nobody had claimed. -/
theorem claim?_cases (hs : Step D s a s') {x : EffectuateArgs} (hj : (s'.effectuating j).claim? = some x) :
    (s.effectuating j).claim? = some x ∨ (a = .claim j ∧ ∃ d, s.effectuating j = .verified x d ∧
      s.consumption.claims x.cap.capabilityId = none ∧ s'.consumption.claims x.cap.capabilityId =
        some ((D.sinks x.sink).context.sinkId,(D.sinks x.sink).context.boundaryId,x.cap.nonce,x.now)) := by
  cases hs with
  | verify hk | commit hk | failCommit hk | receipt hk => exact .inl ((proj_update (by rw [hk]; rfl) j).symm.trans hj)
  | claim hk hc =>
    rcases proj_update_cases hj with ⟨rfl,hy⟩ | ⟨_,hy⟩
    · cases hy
      obtain ⟨hfree,rfl⟩ := ConsumptionStore.claim_eq_ok.mp hc
      exact .inr ⟨rfl,_,hk,hfree,Function.update_self ..⟩
    · exact .inl hy
  | _ => exact .inl hj

/-- An effect is the record that the commit of its call appends. -/
theorem effect?_cases (hs : Step D s a s') {x : EffectuateArgs} {r : EffectRecord} {i : Nat}
    (hj : (s'.effectuating j).effect? = some (x,r,i)) :
    (s.effectuating j).effect? = some (x,r,i) ∨ (a = .commit j ∧ i = (s.effectors (D.boundTo x.sink)).records.length ∧
      (s.effectors (D.boundTo x.sink)).newRecord D.pf x.candidate = .ok r ∧
      (s'.effectors (D.boundTo x.sink)).records = (s.effectors (D.boundTo x.sink)).records ++ [r]) := by
  cases hs with
  | verify hk | claim hk | failCommit hk | receipt hk => exact .inl ((proj_update (by rw [hk]; rfl) j).symm.trans hj)
  | commit hk hc =>
    rcases proj_update_cases hj with ⟨rfl,hy⟩ | ⟨_,hy⟩
    · cases hy
      obtain ⟨_,_,hr,rfl⟩ := GuardedEffector.commit_ok.mp hc
      exact .inr ⟨rfl,rfl,hr,by simp⟩
    · exact .inl hy
  | _ => exact .inl hj

/-- A claim stays. -/
theorem claims (hs : Step D s a s') {i : PyStr} {c : PyStr × PyStr × PyStr × Int}
    (h : s.consumption.claims i = some c) : s'.consumption.claims i = some c := by
  cases hs with
  | claim hk hc =>
    obtain ⟨hfree,rfl⟩ := ConsumptionStore.claim_eq_ok.mp hc
    exact update_kept (by simp [hfree]) h
  | _ => exact h

/-- A record stays at its position. -/
theorem records (hs : Step D s a s') {e i : Nat} {r : EffectRecord} (h : (s.effectors e).records[i]? = some r) :
    (s'.effectors e).records[i]? = some r := by
  cases hs with
  | failCommit hk hc =>
    have hkept := proj_update (g := GuardedEffector.records) (GuardedEffector.commit_error hc) e
    exact (congrArg (·[i]?) hkept).trans h
  | setFailNext j =>
    refine (congrArg (·[i]?) (proj_update (g := GuardedEffector.records) ?_ e)).trans h
    rfl
  | @commit k x d record effector hk hc =>
    obtain ⟨_,_,_,rfl⟩ := GuardedEffector.commit_ok.mp hc
    dsimp only
    by_cases he : e = D.boundTo x.sink
    · subst he
      rw [Function.update_self]
      exact (List.getElem?_append_left (List.getElem?_eq_some_iff.mp h).1).trans h
    · rw [Function.update_of_ne he]
      exact h
  | _ => exact h

/-- An effect stays an effect. -/
theorem effect? (hs : Step D s a s') {y : EffectuateArgs × EffectRecord × Nat}
    (h : (s.effectuating j).effect? = some y) : (s'.effectuating j).effect? = some y := by
  cases hs with
  | verify hk | claim hk | failCommit hk | receipt hk => exact (proj_update (by rw [hk]; rfl) j).trans h
  | commit hk =>
    dsimp only
    rw [Function.update_of_ne,h]
    rintro rfl
    rw [hk] at h
    cases h
  | _ => exact h

/-- A record is the effect of a call. -/
theorem records_cases (hs : Step D s a s') {e i : Nat} {r : EffectRecord}
    (h : (s'.effectors e).records[i]? = some r) : (s.effectors e).records[i]? = some r ∨
      ∃ k x, (s'.effectuating k).effect? = some (x,r,i) ∧ D.boundTo x.sink = e := by
  cases hs with
  | failCommit hk hc =>
    have hkept := proj_update (g := GuardedEffector.records) (GuardedEffector.commit_error hc) e
    exact .inl ((congrArg (·[i]?) hkept).symm.trans h)
  | setFailNext j =>
    refine .inl ((congrArg (·[i]?) (proj_update (g := GuardedEffector.records) ?_ e)).symm.trans h)
    rfl
  | @commit k x d record effector hk hc =>
    obtain ⟨_,_,_,rfl⟩ := GuardedEffector.commit_ok.mp hc
    by_cases he : e = D.boundTo x.sink
    · subst he
      simp only [Function.update_self] at h
      rcases getElem?_concat_cases h with h | ⟨rfl,rfl⟩
      · exact .inl h
      · exact .inr ⟨k,x,by simp [Effectuating.effect?],rfl⟩
    · simp only [Function.update_of_ne he] at h
      exact .inl h
  | _ => exact .inl h

/-- A call has evidence by committing it under an identifier that was free. -/
theorem evidence?_cases (hs : Step D s a s') {e : ValidationEvidence}
    (hj : (s'.authorizing j).evidence? = some e) : (s.authorizing j).evidence? = some e ∨ (a = .commitEvidence j ∧
      s.evidence.records e.evidenceId = none ∧ s'.evidence.records e.evidenceId = some e) := by
  cases hs with
  | reserve hk | refuse hk | failEvidence hk | issue hk => exact .inl ((proj_update (by rw [hk]; rfl) j).symm.trans hj)
  | commitEvidence hk he hc =>
    rcases proj_update_cases hj with ⟨rfl,hv⟩ | ⟨_,hv⟩
    · cases hv
      obtain ⟨_,_,hnew,rfl⟩ := EvidenceStore.commit_eq_ok.mp hc
      exact .inr ⟨rfl,hnew,Function.update_self ..⟩
    · exact .inl hv
  | _ => exact .inl hj

/-- Committed evidence is never overwritten. -/
theorem evidence (hs : Step D s a s') {i : PyStr} {e : ValidationEvidence}
    (h : s.evidence.records i = some e) : s'.evidence.records i = some e := by
  cases hs with
  | commitEvidence hk he hc =>
    obtain ⟨_,_,hnew,rfl⟩ := EvidenceStore.commit_eq_ok.mp hc
    exact update_kept (by simp [hnew]) h
  | _ => exact h

theorem signed_cases (hs : Step D s a s') {key : VerKey} {m : Artifact} (hm : (key,m) ∈ s'.signed) :
    (key,m) ∈ s.signed ∨ SignedBy D s s' key m ∨ ∃ authenticator, a = .resign authenticator m := by
  cases hs with
  | commitEvidence | failEvidence =>
    rcases mem_signs hm with ⟨_,rfl⟩ | hm
    · exact .inr (.inl trivial)
    · exact .inl hm
  | issue =>
    rcases mem_signs hm with ⟨_,rfl⟩ | hm
    · exact .inr (.inl ⟨_,_,_,Function.update_self ..⟩)
    · exact .inl hm
  | receipt hk hr =>
    rcases mem_signs hm with ⟨hkey,rfl⟩ | hm
    · exact .inr (.inl ⟨_,_,_,_,_,hk,Function.update_self ..,hkey,hr⟩)
    · exact .inl hm
  | prove hp =>
    rcases mem_signs hm with ⟨hkey,rfl⟩ | hm
    · exact .inr (.inl ⟨_,hkey,Presenter.prove_fields hp⟩)
    · exact .inl hm
  | resign =>
    rcases mem_signs hm with ⟨_,rfl⟩ | hm
    · exact .inr (.inr ⟨_,rfl⟩)
    · exact .inl hm
  | _ => exact .inl hm

/-- Signatures are never unsaid. -/
theorem signed (hs : Step D s a s') {m : VerKey × Artifact} (h : m ∈ s.signed) : m ∈ s'.signed := by
  have keep (a : Authenticator) (m' : Artifact) : m ∈ D.signs a m' s.signed := by
    unfold Deployment.signs
    cases a.signKey D.pf with
    | none => exact h
    | some key => exact List.mem_cons_of_mem _ h
  cases hs <;> first | exact h | exact keep _ _

/-- A call of `authorize` that has returned stays as it is. -/
theorem returned (hs : Step D s a s') {c : CandidateAct} {e : ValidationEvidence} {cap : Capability}
    (hj : s.authorizing j = .returned c e cap) : s'.authorizing j = .returned c e cap := by
  cases hs with
  | reserve hk | refuse hk | commitEvidence hk | failEvidence hk | issue hk => exact update_kept (by simp [hk]) hj
  | _ => exact hj

/-- A call of `effectuate` that has returned stays as it is. -/
theorem effectuating_returned (hs : Step D s a s') {x : EffectuateArgs} {record : EffectRecord} {i : Nat}
    (hj : s.effectuating j = .returned x record i) : s'.effectuating j = .returned x record i := by
  cases hs with
  | verify hk | claim hk | commit hk | failCommit hk | receipt hk => exact update_kept (by simp [hk]) hj
  | _ => exact hj

/-- An entered nonce keeps its transition. -/
theorem nonces (hs : Step D s a s') {n t : PyStr} (h : s.state.nonces n = some t) : s'.state.nonces n = some t := by
  cases hs with
  | refuse hk ha ht =>
    rw [(ProtectedState.transitionForAuthorization_error ht).1]
    exact h
  | reserve hk ha ht =>
    obtain ⟨hnew,_,hnonces,_⟩ := ProtectedState.transitionForAuthorization_ok ht
    rw [hnonces]
    exact update_kept (by simp [hnew]) h
  | _ => exact h

/-- A call has a reservation by entering a nonce that was free. -/
theorem reserved?_cases (hs : Step D s a s') {c : CandidateAct} (hj : (s'.authorizing j).reserved? = some c) :
    (s.authorizing j).reserved? = some c ∨ (∃ cost now, a = .reserve j c cost now) ∧
      s.state.nonces c.nonce = none ∧ s'.state.nonces c.nonce ≠ none := by
  cases hs with
  | commitEvidence hk | issue hk => exact .inl ((proj_update (by rw [hk]; rfl) j).symm.trans hj)
  | refuse | failEvidence =>
    rcases proj_update_cases hj with ⟨_,hv⟩ | ⟨_,hv⟩
    · cases hv
    · exact .inl hv
  | reserve hk ha ht =>
    rcases proj_update_cases hj with ⟨rfl,hv⟩ | ⟨_,hv⟩
    · cases hv
      obtain ⟨hnew,_,hnonces,_⟩ := ProtectedState.transitionForAuthorization_ok ht
      exact .inr ⟨⟨_,_,rfl⟩,hnew,by simp [hnonces]⟩
    · exact .inl hv
  | _ => exact .inl hj

/-- Evidence was made by `authorize` for what its call carries. -/
theorem evidenced_cases (hs : Step D s a s') {c : CandidateAct} {now : Int} {d : HCAD} {t : StateTransition}
    {e : ValidationEvidence} (hj : s'.authorizing j = .evidenced c now d t e) :
    s.authorizing j = .evidenced c now d t e ∨ ProtectedAuthority.EvidenceFor D.pf D.authority d c t now e := by
  cases hs with
  | reserve | refuse | failEvidence | issue =>
    rcases update_cases hj with ⟨_,hv⟩ | ⟨_,hv⟩
    · cases hv
    · exact .inl hv
  | commitEvidence hk he hc =>
    rcases update_cases hj with ⟨_,hv⟩ | ⟨_,hv⟩
    · cases hv
      exact .inr (ProtectedAuthority.evidence_eq_ok.mp he)
    · exact .inl hv
  | _ => exact .inl hj

/-- A capability was made by `authorize` for the evidence that its call has committed. -/
theorem returned_cases (hs : Step D s a s') {c : CandidateAct} {e : ValidationEvidence} {cap : Capability}
    (hj : s'.authorizing j = .returned c e cap) : s.authorizing j = .returned c e cap ∨
      ∃ d t now, s.authorizing j = .evidenced c now d t e ∧
        ProtectedAuthority.CapabilityFor D.pf D.authority d c t e now cap := by
  cases hs with
  | reserve | refuse | commitEvidence | failEvidence =>
    rcases update_cases hj with ⟨_,hv⟩ | ⟨_,hv⟩
    · cases hv
    · exact .inl hv
  | issue hk hc =>
    rcases update_cases hj with ⟨rfl,hv⟩ | ⟨_,hv⟩
    · cases hv
      exact .inr ⟨_,_,_,hk,ProtectedAuthority.capability_eq_ok.mp hc⟩
    · exact .inl hv
  | _ => exact .inl hj

/-- A call does not lose its evidence. -/
theorem evidence? (hs : Step D s a s') {e : ValidationEvidence} (h : (s.authorizing j).evidence? = some e) :
    (s'.authorizing j).evidence? = some e := by
  cases hs with
  | reserve hk | refuse hk | failEvidence hk | issue hk => exact (proj_update (by rw [hk]; rfl) j).trans h
  | commitEvidence hk =>
    dsimp only
    rw [Function.update_of_ne,h]
    rintro rfl
    rw [hk] at h
    cases h
  | _ => exact h

/-- An evidence record is under its identifier the evidence of a call. -/
theorem evidence_cases (hs : Step D s a s') {i : PyStr} {e : ValidationEvidence}
    (h : s'.evidence.records i = some e) : s.evidence.records i = some e ∨
      e.evidenceId = i ∧ ∃ k, (s'.authorizing k).evidence? = some e := by
  cases hs with
  | @commitEvidence k c now d t e' evidence hk he hc =>
    obtain ⟨_,_,_,rfl⟩ := EvidenceStore.commit_eq_ok.mp hc
    rcases update_cases h with ⟨rfl,hv⟩ | ⟨_,hv⟩
    · cases hv
      exact .inr ⟨rfl,k,by simp [Authorizing.evidence?]⟩
    · exact .inl hv
  | _ => exact .inl h

end Step
end ExecutionFinality
