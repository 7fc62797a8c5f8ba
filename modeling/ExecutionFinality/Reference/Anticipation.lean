import ExecutionFinality.Reference.SequentialSystem

/-! What a sequential run has done already, or has still to do, when calls of the interleaved system are under way. -/
namespace ExecutionFinality
open Function (update)
open Platform

namespace Deployment

/-- The evidence that a call has yet to commit -/
def pending? (D : Deployment) : Authorizing → Option ValidationEvidence
  | .reserved c now d t => (D.authority.evidence D.pf d c t now).toOption
  | _ => none

/-- What a call of `authorize` returns that goes no further; with `commits` it still commits its evidence. -/
def authorizeResult (D : Deployment) (commits : Bool) : Authorizing → Option (Option Capability)
  | .idle => none
  | .reserved c now d t => some (if commits then
      (D.authority.evidence D.pf d c t now).toOption.bind fun e => (D.authority.capability D.pf d c t e now).toOption
    else none)
  | .evidenced c now d t e => some (D.authority.capability D.pf d c t e now).toOption
  | .returned _ _ cap => some (some cap)
  | .raised => some none

/-- What a call of `effectuate` returns that goes no further; with `late` its claim is not made yet. -/
def effectuateResult (D : Deployment) (late : Bool) : Effectuating → Option (Option SinkReceipt)
  | .idle | .verified _ _ => none
  | .claimed _ _ => if late then none else some none
  | .burned _ => some none
  | .committed x d record _ => some ((D.sinks x.sink).receipt D.pf x.candidate x.cap d record x.now).toOption
  | .returned x record _ =>
    some ((D.sinks x.sink).receipt D.pf x.candidate x.cap x.cap.descriptorDigest record x.now).toOption

end Deployment

/-- The identifier that a call has claimed and not used -/
def Effectuating.claiming? : Effectuating → Option PyStr
  | .claimed x _ => some x.cap.capabilityId
  | _ => none

/-- The stores and the results of an interleaved run, whose calls under way go no further. -/
def System.results (s : System) (D : Deployment) : SequentialSystem where
  state := s.state
  evidence := s.evidence
  consumption := s.consumption
  effectors := s.effectors
  authorized k := D.authorizeResult false (s.authorizing k)
  effectuated k := D.effectuateResult false (s.effectuating k)

/-- The sequential system when the calls of `early` that are under way have already committed their evidence, and the
calls of `late` that are between their claim and their effect have not made their claim. -/
structure Anticipates (D : Deployment) (early late : Nat → Bool) (s : System) (q : SequentialSystem) : Prop where
  state : q.state = s.state
  authenticator : q.evidence.authenticator = s.evidence.authenticator
  failCommits : q.evidence.failCommits = s.evidence.failCommits
  effectors : q.effectors = s.effectors
  records : ∀ i e, q.evidence.records i = some e ↔ s.evidence.records i = some e ∨
    e.evidenceId = i ∧ ∃ k, early k = true ∧ D.pending? (s.authorizing k) = some e
  committable : ∀ k, early k = true → ∃ e, D.pending? (s.authorizing k) = some e ∧ s.evidence.records e.evidenceId = none ∧
    s.evidence.authenticator.verify D.pf e.unsigned e.signature e.keyId = .ok true
  distinct : ∀ j k e e', early j = true → early k = true → D.pending? (s.authorizing j) = some e →
    D.pending? (s.authorizing k) = some e' → e.evidenceId = e'.evidenceId → j = k
  authorized : ∀ k, q.authorized k = D.authorizeResult (early k) (s.authorizing k)
  unclaimed : ∀ k i, late k = true → (s.effectuating k).claiming? = some i → q.consumption.claims i = none
  claimed : ∀ i, (∀ k, late k = true → (s.effectuating k).claiming? ≠ some i) →
    q.consumption.claims i = s.consumption.claims i
  effectuated : ∀ k, q.effectuated k = D.effectuateResult (late k) (s.effectuating k)

variable {D : Deployment} {allowed : System → Action → Prop} {s s' : System}

/-- No two calls have claimed one identifier. -/
def ClaimsOwned (s : System) : Prop :=
  ∀ j k x y, (s.effectuating j).claim? = some x → (s.effectuating k).claim? = some y →
    x.cap.capabilityId = y.cap.capabilityId → j = k

theorem ClaimsOwned.step (h : ClaimsOwned s) (hclaims : ClaimsMatch D s) {a : Action} (hs : Step D s a s') :
    ClaimsOwned s' := by
  intro j k x y hj hk hid
  have fresh {j : Nat} {x y : EffectuateArgs} (hj : (s.effectuating j).claim? = some x)
      (hfree : s.consumption.claims y.cap.capabilityId = none) : x.cap.capabilityId ≠ y.cap.capabilityId := by
    intro hid
    have hclaim := hclaims j x hj
    rw [hid,hfree] at hclaim
    cases hclaim
  rcases hs.claim?_cases hj with hj | ⟨rfl,_,_,hjfree,_⟩ <;> rcases hs.claim?_cases hk with hk | ⟨hjk,_,_,hkfree,_⟩
  · exact h j k x y hj hk hid
  · exact absurd hid (fresh hj hkfree)
  · exact absurd hid.symm (fresh hk hjfree)
  · cases hjk
    rfl

theorem claimsOwned_preserved : Machine.Preserved D.machine allowed ClaimsOwned where
  init s h := fun j _ _ _ hj => by simp [h.effectuating,Effectuating.claim?] at hj
  step := fun _ _ _ hr h _ hs => h.step (hr.invariant claimsMatch_preserved) hs

private theorem update_none_or {ι α : Type} [DecidableEq ι] {f : ι → Option α} {i j : ι} (h : f j = none) :
    update f i none j = none := by
  by_cases hj : j = i
  · rw [hj,Function.update_self]
  · rw [Function.update_of_ne hj,h]

namespace Anticipates
variable {early late : Nat → Bool} {q : SequentialSystem}

/-- A step that changes no store and no call as the sequential system sees it -/
theorem frame (h : Anticipates D early late s' q) (hstate : s'.state = s.state) (hevidence : s'.evidence = s.evidence)
    (hconsumption : s'.consumption = s.consumption) (heffectors : s'.effectors = s.effectors)
    (hpending : ∀ k, early k = true → D.pending? (s'.authorizing k) = D.pending? (s.authorizing k))
    (hauthorize : ∀ k, D.authorizeResult (early k) (s'.authorizing k) = D.authorizeResult (early k) (s.authorizing k))
    (hclaiming : ∀ k, (s'.effectuating k).claiming? = (s.effectuating k).claiming?)
    (heffectuate : ∀ k, D.effectuateResult (late k) (s'.effectuating k) =
      D.effectuateResult (late k) (s.effectuating k)) : Anticipates D early late s q := by
  constructor
  · exact hstate ▸ h.state
  · exact hevidence ▸ h.authenticator
  · exact hevidence ▸ h.failCommits
  · exact heffectors ▸ h.effectors
  · intro i e
    rw [h.records,hevidence]
    refine or_congr_right (and_congr_right fun _ => exists_congr fun k => and_congr_right fun hk => ?_)
    rw [hpending k hk]
  · intro k hk
    rw [← hpending k hk,← hevidence]
    exact h.committable k hk
  · intro j k e e' hj hk
    rw [← hpending j hj,← hpending k hk]
    exact h.distinct j k e e' hj hk
  · intro k
    rw [h.authorized,hauthorize]
  · intro k i hk
    rw [← hclaiming]
    exact h.unclaimed k i hk
  · intro i hi
    rw [← hconsumption]
    exact h.claimed i fun k hk => hclaiming k ▸ hi k hk
  · intro k
    rw [h.effectuated,heffectuate]

theorem pending?_reserved {c : CandidateAct} {now : Int} {d : HCAD} {t : StateTransition} {e : ValidationEvidence} :
    D.pending? (.reserved c now d t) = some e ↔ D.authority.evidence D.pf d c t now = .ok e := by
  rw [Deployment.pending?]
  cases D.authority.evidence D.pf d c t now <;> simp [Except.toOption]

variable {k : Nat} {c : CandidateAct} {cost now : Int} {d : HCAD} {t : StateTransition} {state : ProtectedState}
  {calls : Action → Prop}

/-- A call that reserves its transition and commits its evidence later begins and ends here. -/
theorem reserve_committing {e : ValidationEvidence}
    (h : Anticipates D early late { s with state, authorizing := update s.authorizing k (.reserved c now d t) } q)
    (hk : s.authorizing k = .idle) (hearly : early k = true) (he : D.authority.evidence D.pf d c t now = .ok e) :
    Anticipates D (update early k false) late s (q.beforeAuthorize k s.state (update q.evidence.records e.evidenceId none)) := by
  have hpending : D.pending? (update s.authorizing k (.reserved c now d t) k) = some e := by
    rw [Function.update_self,pending?_reserved,he]
  have hother {j : Nat} (hj : update early k false j = true) : j ≠ k ∧ early j = true := by
    rcases update_cases hj with ⟨_,hf⟩ | ⟨hne,hj⟩
    · cases hf
    · exact ⟨hne,hj⟩
  have hsame {j : Nat} (hj : j ≠ k) : update s.authorizing k (.reserved c now d t) j = s.authorizing j :=
    Function.update_of_ne hj ..
  obtain ⟨e₁,he₁,hnone,_⟩ := h.committable k hearly
  cases hpending.symm.trans he₁
  refine { h with
    state := rfl
    records := fun i e' => ?_
    committable := fun j hj => ?_
    distinct := fun i j e₁ e₂ hi hj => ?_
    authorized := fun j => ?_ }
  · dsimp only [SequentialSystem.beforeAuthorize]
    by_cases hi : i = e.evidenceId
    · subst hi
      rw [Function.update_self]
      refine ⟨(nomatch ·),?_⟩
      rintro (hold | ⟨hid,j,hj,hej⟩)
      · cases hnone.symm.trans hold
      · obtain ⟨hne,hj⟩ := hother hj
        exact absurd (h.distinct j k e' e hj hearly ((congrArg D.pending? (hsame hne)).trans hej) hpending hid) hne
    · rw [Function.update_of_ne hi,h.records]
      refine or_congr_right (and_congr_right fun hid => ⟨?_,?_⟩)
      · rintro ⟨j,hj,hej⟩
        have hne : j ≠ k := by
          rintro rfl
          cases hpending.symm.trans hej
          exact hi hid.symm
        exact ⟨j,(Function.update_of_ne hne ..).trans hj,(congrArg D.pending? (hsame hne)).symm.trans hej⟩
      · rintro ⟨j,hj,hej⟩
        obtain ⟨hne,hj⟩ := hother hj
        exact ⟨j,hj,(congrArg D.pending? (hsame hne)).trans hej⟩
  · obtain ⟨hne,hj⟩ := hother hj
    obtain ⟨e',he',hcommit⟩ := h.committable j hj
    exact ⟨e',(congrArg D.pending? (hsame hne)).symm.trans he',hcommit⟩
  · obtain ⟨hi,hi'⟩ := hother hi
    obtain ⟨hj,hj'⟩ := hother hj
    rw [← hsame hi,← hsame hj]
    exact h.distinct i j e₁ e₂ hi' hj'
  · dsimp only [SequentialSystem.beforeAuthorize]
    by_cases hj : j = k
    · subst hj
      rw [Function.update_self,hk]
      rfl
    · rw [Function.update_of_ne hj,Function.update_of_ne hj]
      exact (h.authorized j).trans (congrArg _ (hsame hj))

/-- A call that commits no evidence begins and ends where it is refused or reserves its transition. -/
theorem begin_failing {p : Authorizing}
    (h : Anticipates D early late { s with state, authorizing := update s.authorizing k p } q)
    (hk : s.authorizing k = .idle) (hearly : early k = false) :
    Anticipates D early late s (q.beforeAuthorize k s.state q.evidence.records) := by
  have hsame {j : Nat} (hj : early j = true) : update s.authorizing k p j = s.authorizing j := by
    refine Function.update_of_ne ?_ ..
    rintro rfl
    cases hearly.symm.trans hj
  refine { h with
    state := rfl
    records := fun i e => ?_
    committable := fun j hj => ?_
    distinct := fun i j e₁ e₂ hi hj => ?_
    authorized := fun j => ?_ }
  · refine (h.records i e).trans (or_congr_right (and_congr_right fun _ => exists_congr fun j => and_congr_right fun hj => ?_))
    exact iff_of_eq (congrArg (D.pending? · = some e) (hsame hj))
  · obtain ⟨e,he,hcommit⟩ := h.committable j hj
    exact ⟨e,(congrArg D.pending? (hsame hj)).symm.trans he,hcommit⟩
  · rw [← hsame hi,← hsame hj]
    exact h.distinct i j e₁ e₂ hi hj
  · dsimp only [SequentialSystem.beforeAuthorize]
    by_cases hj : j = k
    · subst hj
      rw [Function.update_self,hk]
      rfl
    · rw [Function.update_of_ne hj]
      exact (h.authorized j).trans (congrArg _ (Function.update_of_ne hj ..))

/-- Evidence that is committed now was committed early. -/
theorem commitEvidence {e : ValidationEvidence} {evidence : EvidenceStore} {signed : List (VerKey × Artifact)}
    (h : Anticipates D early late
      { s with evidence, signed, authorizing := update s.authorizing k (.evidenced c now d t e) } q)
    (hk : s.authorizing k = .reserved c now d t) (he : D.authority.evidence D.pf d c t now = .ok e)
    (hc : s.evidence.commit D.pf e = .ok evidence) : Anticipates D (update early k true) late s q := by
  obtain ⟨_,hsignature,hnone,rfl⟩ := EvidenceStore.commit_eq_ok.mp hc
  have hpending : D.pending? (s.authorizing k) = some e := by rw [hk,pending?_reserved,he]
  have hearly {j : Nat} (hj : early j = true) : j ≠ k := by
    rintro rfl
    obtain ⟨_,he₁,_⟩ := h.committable j hj
    dsimp only at he₁
    rw [Function.update_self] at he₁
    cases he₁
  have hother {j : Nat} (hj : update early k true j = true) : j = k ∨ j ≠ k ∧ early j = true :=
    (update_cases hj).imp_left And.left
  have hsame {j : Nat} (hj : j ≠ k) :
      D.pending? (update s.authorizing k (.evidenced c now d t e) j) = D.pending? (s.authorizing j) :=
    congrArg D.pending? (Function.update_of_ne hj ..)
  -- What is still to be committed has another identifier.
  have hfresh {j : Nat} {e' : ValidationEvidence} (hj : early j = true) (he' : D.pending? (s.authorizing j) = some e') :
      e'.evidenceId ≠ e.evidenceId ∧ s.evidence.records e'.evidenceId = none ∧
        s.evidence.authenticator.verify D.pf e'.unsigned e'.signature e'.keyId = .ok true := by
    obtain ⟨e₁,he₁,hnone₁,hsig₁⟩ := h.committable j hj
    cases ((hsame (hearly hj)).symm.trans he₁).symm.trans he'
    dsimp only at hnone₁
    have hne : e'.evidenceId ≠ e.evidenceId := by
      intro hid
      rw [hid,Function.update_self] at hnone₁
      cases hnone₁
    rw [Function.update_of_ne hne] at hnone₁
    exact ⟨hne,hnone₁,hsig₁⟩
  refine { h with
    records := fun i e' => ?_
    committable := fun j hj => ?_
    distinct := fun i j e₁ e₂ hi hj he₁ he₂ hid => ?_
    authorized := fun j => ?_ }
  · rw [h.records]
    dsimp only
    constructor
    · rintro (hnew | ⟨hid,j,hj,hej⟩)
      · rcases update_cases hnew with ⟨rfl,he'⟩ | ⟨_,hold⟩
        · cases he'
          exact .inr ⟨rfl,k,Function.update_self ..,hpending⟩
        · exact .inl hold
      · have hne := hearly hj
        exact .inr ⟨hid,j,(Function.update_of_ne hne ..).trans hj,(hsame hne).symm.trans hej⟩
    · rintro (hold | ⟨hid,j,hj,hej⟩)
      · exact .inl (update_kept (by simp [hnone]) hold)
      · rcases hother hj with rfl | ⟨hne,hj⟩
        · cases hpending.symm.trans hej
          exact .inl (hid ▸ Function.update_self ..)
        · exact .inr ⟨hid,j,hj,(hsame hne).trans hej⟩
  · rcases hother hj with rfl | ⟨hne,hj⟩
    · exact ⟨e,hpending,hnone,hsignature⟩
    · obtain ⟨e',he',_⟩ := h.committable j hj
      have he' := (hsame hne).symm.trans he'
      exact ⟨e',he',(hfresh hj he').2⟩
  · rcases hother hi with rfl | ⟨_,hold⟩ <;> rcases hother hj with rfl | ⟨_,hold'⟩
    · rfl
    · cases hpending.symm.trans he₁
      exact absurd hid.symm (hfresh hold' he₂).1
    · cases hpending.symm.trans he₂
      exact absurd hid (hfresh hold he₁).1
    · exact h.distinct i j e₁ e₂ hold hold' ((hsame (hearly hold)).trans he₁) ((hsame (hearly hold')).trans he₂) hid
  · rw [h.authorized]
    dsimp only
    by_cases hj : j = k
    · subst hj
      rw [Function.update_self,Function.update_self,hk]
      simp only [Deployment.authorizeResult,he,if_true]
      rfl
    · rw [Function.update_of_ne hj,Function.update_of_ne hj]

variable {x : EffectuateArgs} {y : PyStr}

theorem claim?_of_claiming? {p : Effectuating} {i : PyStr} (h : p.claiming? = some i) :
    ∃ x, p.claim? = some x ∧ x.cap.capabilityId = i := by
  cases p <;> cases h
  exact ⟨_,rfl,rfl⟩

/-- A claim that is made later is not made yet. -/
theorem claim_late {row : PyStr × PyStr × PyStr × Int}
    (h : Anticipates D early late
      { s with
        consumption := ⟨update s.consumption.claims x.cap.capabilityId (some row)⟩
        effectuating := update s.effectuating k (.claimed x y) } q)
    (hk : s.effectuating k = .verified x y) (hfree : s.consumption.claims x.cap.capabilityId = none)
    (hlate : late k = true) : Anticipates D early late s q := by
  have hsame {j : Nat} (hj : j ≠ k) : update s.effectuating k (.claimed x y) j = s.effectuating j :=
    Function.update_of_ne hj ..
  have hself : update s.effectuating k (.claimed x y) k = .claimed x y := Function.update_self ..
  refine { h with
    unclaimed := fun j i hj hi => ?_
    claimed := fun i hi => ?_
    effectuated := fun j => ?_ }
  · have hne : j ≠ k := by
      rintro rfl
      rw [hk] at hi
      cases hi
    exact h.unclaimed j i hj ((congrArg Effectuating.claiming? (hsame hne)).trans hi)
  · by_cases hid : i = x.cap.capabilityId
    · subst hid
      rw [hfree]
      exact h.unclaimed k _ hlate (congrArg Effectuating.claiming? hself)
    · refine (h.claimed i fun j hj hji => ?_).trans (Function.update_of_ne hid ..)
      dsimp only at hji
      by_cases hjk : j = k
      · subst hjk
        rw [hself] at hji
        cases hji
        exact hid rfl
      · exact hi j hj ((congrArg Effectuating.claiming? (hsame hjk)).symm.trans hji)
  · refine (h.effectuated j).trans ?_
    dsimp only
    by_cases hjk : j = k
    · subst hjk
      rw [hself,hk,hlate]
      rfl
    · rw [hsame hjk]

/-- A claim that is made now and not used begins and ends a call. -/
theorem claim_now {row : PyStr × PyStr × PyStr × Int}
    (h : Anticipates D early late
      { s with
        consumption := ⟨update s.consumption.claims x.cap.capabilityId (some row)⟩
        effectuating := update s.effectuating k (.claimed x y) } q)
    (hk : s.effectuating k = .verified x y) (hfree : s.consumption.claims x.cap.capabilityId = none)
    (hclaims : ClaimsMatch D s) (hlate : late k = false) :
    Anticipates D early late s (q.beforeEffectuate k x.cap.capabilityId q.effectors) ∧
      q.consumption.claims x.cap.capabilityId = some row ∧ q.effectuated k = some none := by
  have hlater {j : Nat} (hj : late j = true) : j ≠ k := by
    rintro rfl
    cases hlate.symm.trans hj
  have hsame {j : Nat} (hj : j ≠ k) : update s.effectuating k (.claimed x y) j = s.effectuating j :=
    Function.update_of_ne hj ..
  refine ⟨{ h with
    unclaimed := fun j i hj hi => ?_
    claimed := fun i hi => ?_
    effectuated := fun j => ?_ },?_,?_⟩
  · refine update_none_or ?_
    exact h.unclaimed j i hj ((congrArg Effectuating.claiming? (hsame (hlater hj))).trans hi)
  · dsimp only [SequentialSystem.beforeEffectuate]
    by_cases hid : i = x.cap.capabilityId
    · subst hid
      rw [Function.update_self,hfree]
    · rw [Function.update_of_ne hid]
      refine (h.claimed i fun j hj hji => ?_).trans (Function.update_of_ne hid ..)
      exact hi j hj ((congrArg Effectuating.claiming? (hsame (hlater hj))).symm.trans hji)
  · dsimp only [SequentialSystem.beforeEffectuate]
    by_cases hjk : j = k
    · subst hjk
      rw [Function.update_self,hk]
      rfl
    · rw [Function.update_of_ne hjk]
      exact (h.effectuated j).trans (congrArg _ (hsame hjk))
  · refine (h.claimed _ fun j hj hji => ?_).trans (Function.update_self ..)
    obtain ⟨z,hz,hid⟩ := claim?_of_claiming? ((congrArg Effectuating.claiming? (hsame (hlater hj))).symm.trans hji)
    have hclaim := hclaims j z hz
    rw [hid,hfree] at hclaim
    cases hclaim
  · refine (h.effectuated k).trans ?_
    dsimp only
    rw [Function.update_self,hlate]
    rfl

/-- A call whose commit is now begins and ends here, its claim included. -/
theorem commit {p : Effectuating} {effectors : Nat → GuardedEffector}
    (h : Anticipates D early late { s with effectors, effectuating := update s.effectuating k p } q)
    (hk : s.effectuating k = .claimed x y) (hp : p.claiming? = none) (hclaims : ClaimsMatch D s) (howned : ClaimsOwned s) :
    Anticipates D early (update late k true) s (q.beforeEffectuate k x.cap.capabilityId s.effectors) ∧
      q.consumption.claims x.cap.capabilityId =
        some ((D.sinks x.sink).context.sinkId,(D.sinks x.sink).context.boundaryId,x.cap.nonce,x.now) := by
  have hsame {j : Nat} (hj : j ≠ k) : update s.effectuating k p j = s.effectuating j := Function.update_of_ne hj ..
  have hclaiming {i : PyStr} {j : Nat} (hji : (update s.effectuating k p j).claiming? = some i) :
      j ≠ k ∧ (s.effectuating j).claiming? = some i := by
    rcases proj_update_cases hji with ⟨_,hv⟩ | ⟨hne,hji⟩
    · cases hp.symm.trans hv
    · exact ⟨hne,hji⟩
  have hself : (s.effectuating k).claiming? = some x.cap.capabilityId := by rw [hk]; rfl
  refine ⟨{ h with
    effectors := rfl
    unclaimed := fun j i hj hi => ?_
    claimed := fun i hi => ?_
    effectuated := fun j => ?_ },?_⟩
  · dsimp only [SequentialSystem.beforeEffectuate]
    by_cases hjk : j = k
    · subst hjk
      cases hself.symm.trans hi
      exact Function.update_self ..
    · rw [Function.update_of_ne hjk] at hj
      exact update_none_or (h.unclaimed j i hj ((congrArg Effectuating.claiming? (hsame hjk)).trans hi))
  · have hid : i ≠ x.cap.capabilityId := by
      rintro rfl
      exact hi k (Function.update_self ..) hself
    dsimp only [SequentialSystem.beforeEffectuate]
    rw [Function.update_of_ne hid]
    refine h.claimed i fun j hj hji => ?_
    obtain ⟨hne,hji⟩ := hclaiming hji
    exact hi j ((Function.update_of_ne hne ..).trans hj) hji
  · dsimp only [SequentialSystem.beforeEffectuate]
    by_cases hjk : j = k
    · subst hjk
      rw [Function.update_self,Function.update_self,hk]
      rfl
    · rw [Function.update_of_ne hjk,Function.update_of_ne hjk]
      exact (h.effectuated j).trans (congrArg _ (hsame hjk))
  · have hclaim : (s.effectuating k).claim? = some x := by rw [hk]; rfl
    refine (h.claimed _ fun j hj hji => ?_).trans (hclaims k x hclaim)
    obtain ⟨hne,hji⟩ := hclaiming hji
    obtain ⟨z,hz,hid⟩ := claim?_of_claiming? hji
    exact hne (howned j k z x hz hclaim hid)

end Anticipates

/-! The calls of `authorize` in the sequential run -/

section Authorize
variable {q : SequentialSystem} {calls : Action → Prop} {k : Nat} {c : CandidateAct} {cost now : Int} {d : HCAD}
  {t : StateTransition} {state : ProtectedState}

/-- The evidence of a call that reserves its transition is committed in its sequential place. -/
theorem Anticipates.reaches_committing {e : ValidationEvidence} (ha : D.authority.admission D.pf c now = .ok d)
    (ht : s.state.transitionForAuthorization D.pf c cost = (.ok t,q.state))
    (he : D.authority.evidence D.pf d c t now = .ok e)
    (hsignature : q.evidence.authenticator.verify D.pf e.unsigned e.signature e.keyId = .ok true)
    (hrecord : q.evidence.records e.evidenceId = some e)
    (hresult : q.authorized k = some (D.authority.capability D.pf d c t e now).toOption)
    (hcall : calls (.reserve k c cost now)) :
    Machine.Reaches (D.sequential.startingAt
      (q.beforeAuthorize k s.state (update q.evidence.records e.evidenceId none))) (SequentialSystem.Makes calls) q := by
  refine SequentialSystem.reaches_of_beforeAuthorize false _ hcall ?_ hresult
  have hcommit : EvidenceStore.commit D.pf
      { q.evidence with failCommits := false, records := update q.evidence.records e.evidenceId none } e =
      .ok { q.evidence with failCommits := false } := by
    refine EvidenceStore.commit_eq_ok.mpr ⟨rfl,hsignature,Function.update_self ..,?_⟩
    simp only [Function.update_idem]
    rw [← hrecord,Function.update_eq_self]
  simp only [ProtectedAuthority.authorize,ha,ht,he,hcommit]

/-- While evidence commits fail, a call that reserves its transition raises and leaves the evidence. -/
theorem Anticipates.reaches_uncommitted (ha : D.authority.admission D.pf c now = .ok d)
    (ht : s.state.transitionForAuthorization D.pf c cost = (.ok t,q.state)) (hresult : q.authorized k = some none)
    (hcall : calls (.reserve k c cost now)) :
    Machine.Reaches (D.sequential.startingAt (q.beforeAuthorize k s.state q.evidence.records))
      (SequentialSystem.Makes calls) q := by
  have hraised : ∃ exn, D.authority.authorize D.pf s.state { q.evidence with failCommits := true } c cost now =
      (.error exn,q.state,{ q.evidence with failCommits := true }) := by
    cases he : D.authority.evidence D.pf d c t now with
    | error exn => exact ⟨exn,by simp only [ProtectedAuthority.authorize,ha,ht,he]⟩
    | ok e =>
      have hcommit : EvidenceStore.commit D.pf { q.evidence with failCommits := true } e =
          .error (.evidenceError (py "evidence commit failure injected")) := rfl
      exact ⟨.evidenceError (py "evidence commit failure injected"),by
        simp only [ProtectedAuthority.authorize,ha,ht,he,hcommit]⟩
  obtain ⟨exn,hraised⟩ := hraised
  exact SequentialSystem.reaches_of_beforeAuthorize true _ hcall hraised hresult

theorem Anticipates.reaches_refused {exn : Exn} (ha : D.authority.admission D.pf c now = .ok d)
    (ht : s.state.transitionForAuthorization D.pf c cost = (.error exn,q.state)) (hresult : q.authorized k = some none)
    (hcall : calls (.reserve k c cost now)) :
    Machine.Reaches (D.sequential.startingAt (q.beforeAuthorize k s.state q.evidence.records))
      (SequentialSystem.Makes calls) q := by
  refine SequentialSystem.reaches_of_beforeAuthorize q.evidence.failCommits (.error exn) hcall ?_ hresult
  simp only [ProtectedAuthority.authorize,ha,ht]

end Authorize

end ExecutionFinality
